import Riot.Core.Msg
import Riot.Protocols.WaitLists
import Riot.Scheduler.System

/-
  Requests and replies between threads, with the scheduler.

  The running thread calls the functions of `msg.c`, with
  the status function of the scheduler; a tick, the pending
  scheduler interrupt or the end of the idle loop chooses the
  next thread.  For the statements only, a state records who
  is in a blocked `msg_receive` and which messages a thread
  has received: it may reply to those at any later time.
-/

----
-- System
----

namespace Riot

/- The kernel, and the messages its threads have received. -/
structure IpcState (N : Nat) where
  kernel : Kernel N
  receiving : Fin N → Bool
  received : Fin N → List Msg

/-
  Calls of the running thread, `msg_reply_int` of an
  interrupt, and the steps of the scheduler.  A thread that
  was blocked in `msg_receive` returns with `msgReceived`.
-/
inductive IpcOp where
  | timerTick
  | pendsv
  | idleReturn
  | msgInitQueue (num : Nat)
  | msgSend (m : Msg) (targetPid : Int)
  | msgSendReceive (m : Msg) (targetPid : Int)
  | msgReply (m reply : Msg)
  | msgReplyInt (m reply : Msg)
  | msgReceive
  | msgTryReceive
  | msgReceived
deriving DecidableEq, Repr

variable {N : Nat}

/- The thread that executes and is not blocked. -/
def Kernel.caller
    (cfg : Config N) (k : Kernel N) : Option (Fin N) :=
  (k.running cfg).filter (fun t => k.runnable t)

namespace IpcState

/- The running thread has the message in its object. -/
def receive
    (s : IpcState N) (k : Kernel N) : IpcState N :=
  match k.schedActiveThread with
  | none => { s with kernel := k }
  | some t =>
    { kernel := k
      receiving := Function.update s.receiving t false
      received := Function.update s.received t (k.msgBuffer t :: s.received t) }

/- The result of a receive call. -/
def afterReceive
    (s : IpcState N) (result : Kernel N × Outcome) : IpcState N :=
  match result with
  | (k, .returned value) =>
    if value = 1 then s.receive k else { s with kernel := k }
  | (k, .blocked) =>
    match k.schedActiveThread with
    | none => { s with kernel := k }
    | some t => { s with kernel := k, receiving := Function.update s.receiving t true }

end IpcState

namespace IpcOp

/-
  Threads make one call at a time; a reply is to a message
  that was received.
-/
def Enabled
    (cfg : Config N)
    (s : IpcState N) : IpcOp → Prop
| .timerTick => SchedOp.timerTick.Enabled cfg s.kernel
| .pendsv => SchedOp.pendsv.Enabled cfg s.kernel
| .idleReturn => SchedOp.idleReturn.Enabled cfg s.kernel
| .msgReceived => ∃ t ∈ s.kernel.caller cfg, s.receiving t = true
| .msgReply m _ => ∃ t ∈ s.kernel.caller cfg, s.receiving t = false ∧ m ∈ s.received t
| .msgReplyInt m _ => ∃ t, m ∈ s.received t
| _ => ∃ t ∈ s.kernel.caller cfg, s.receiving t = false

instance
    (cfg : Config N) (s : IpcState N) (op : IpcOp) :
    Decidable (Enabled cfg s op) := by
  cases op <;> unfold Enabled <;> infer_instance

/- The effect of a step. -/
def exec
    (cfg : Config N) (s : IpcState N) : IpcOp → Option (IpcState N)
| .timerTick => (SchedOp.timerTick.exec cfg s.kernel).map (fun k => { s with kernel := k })
| .pendsv => (SchedOp.pendsv.exec cfg s.kernel).map (fun k => { s with kernel := k })
| .idleReturn =>
  (SchedOp.idleReturn.exec cfg s.kernel).map (fun k => { s with kernel := k })
| .msgInitQueue num =>
  (Riot.msgInitQueue s.kernel (fun _ => default) num).map (fun k => { s with kernel := k })
| .msgSend m targetPid =>
  (Riot.msgSend (schedSetStatus cfg) s.kernel m
    targetPid).map (fun result => { s with kernel := result.1 })
| .msgSendReceive m targetPid =>
  (Riot.msgSendReceive (schedSetStatus cfg) s.kernel m
    targetPid).map (fun result => { s with kernel := result.1 })
| .msgReply m reply =>
  (Riot.msgReply (schedSetStatus cfg) s.kernel m reply).map
    (fun result => { s with kernel := result.1 })
| .msgReplyInt m reply =>
  (Riot.msgReplyInt (schedSetStatus cfg) s.kernel m
    reply).map (fun result => { s with kernel := isrEnd result.1 })
| .msgReceive => (Riot.msgReceive (schedSetStatus cfg) s.kernel).map s.afterReceive
| .msgTryReceive => (Riot.msgTryReceive (schedSetStatus cfg) s.kernel).map s.afterReceive
| .msgReceived => some (s.receive s.kernel)

end IpcOp

/-
  Threads of any status and priority, before any of them
  waits: the run queues are circular lists of threads of
  their priority, the cache has bits of priorities only and
  the one of queue 1 if that has nodes, and every wait list
  is empty.
-/
def ipcSystem
    (cfg : Config N) : System (IpcState N) IpcOp where
  Start := fun s =>
    (∃ q, Runqueues s.kernel.next q ∧
        (∀ p < schedPrioLevels, ∀ t ∈ q p, (s.kernel.thread t).priority = p) ∧
        (q 1 ≠ [] → cfg.bitOrder.test s.kernel.runqueueBitcache 1 = true)) ∧
      (∀ t, (s.kernel.thread t).priority < schedPrioLevels) ∧
      (∀ p, schedPrioLevels ≤ p → p < 32 → cfg.bitOrder.test s.kernel.runqueueBitcache p = false) ∧
      (∀ h, s.kernel.next (.head (.waiting h)) = .null) ∧ (∀ t, s.receiving t = false) ∧
      ∀ t, s.received t = []
  Enabled := IpcOp.Enabled cfg
  exec := IpcOp.exec cfg

instance
    (cfg : Config N) (s : IpcState N) (op : IpcOp) :
    Decidable ((ipcSystem cfg).Enabled s op) :=
  inferInstanceAs (Decidable (op.Enabled cfg s))

----
-- Invariant
----

open LinkMem

/- The threads that wait to send to `v`, first to last. -/
def Kernel.msgWaiters
    (k : Kernel N) (v : Fin N) : List (Fin N) :=
  listNodes N k.next (.waiting (.msgWaiters v))

/-
  A thread that is linked in a list of waiting senders is
  blocked, is linked once and in one list only, and is on no
  run queue.
-/
def WaitersApart
    (k : Kernel N) : Prop :=
  ∀ v, ∀ t ∈ k.msgWaiters v, ((k.thread t).status = .sendBlocked ∨
        (k.thread t).status = .replyBlocked) ∧ (k.msgWaiters v).count t = 1 ∧
      (∀ u, u ≠ v → t ∉ k.msgWaiters u) ∧ ∀ p < schedPrioLevels, t ∉ k.runqueue p

instance
    (k : Kernel N) :
    Decidable (WaitersApart k) := by
  unfold WaitersApart
  infer_instance

/-
  The kernel holds the run queues `q` and the wait lists `w`,
  which have blocked senders only.
-/
structure IpcLinked
    (cfg : Config N) (k : Kernel N) (q : Nat → List (Fin N))
    (w : WaitHead N → List (Fin N)) : Prop where
  links : Links k.next q w
  own : ∀ p < schedPrioLevels, ∀ t ∈ q p, (k.thread t).priority = p
  prios : ∀ t, (k.thread t).priority < schedPrioLevels
  low : ∀ p, schedPrioLevels ≤ p → p < 32 → cfg.bitOrder.test k.runqueueBitcache p = false
  served : q 1 ≠ [] → cfg.bitOrder.test k.runqueueBitcache 1 = true
  unmarked : ∀ v, k.next (.head (.waiting (.msgWaiters v))) ≠ .mark
  waiting :
    ∀ h, ∀ t ∈ w h, (∃ v, h = .msgWaiters v) ∧
        ((k.thread t).status = .sendBlocked ∨ (k.thread t).status = .replyBlocked)

namespace IpcLinked

variable {cfg : Config N} {k k' : Kernel N} {q : Nat → List (Fin N)}
variable {w : WaitHead N → List (Fin N)} {t v : Fin N}

section

variable (hI : IpcLinked cfg k q w)

include hI

/- The walks return the lists. -/
theorem runqueue_eq
    {p : Nat} (hp : p < schedPrioLevels) :
    k.runqueue p = q p :=
  hI.links.queues.circularNodes_eq hp

theorem msgWaiters_eq
    (v : Fin N) :
    k.msgWaiters v = w (.msgWaiters v) :=
  (hI.links.waits (.msgWaiters v)).listNodes_eq

/- What the lists say about the threads in them. -/
theorem waitersApart :
    WaitersApart k := by
  intro v t hIn
  simp only [hI.msgWaiters_eq] at hIn ⊢
  refine ⟨(hI.waiting _ t hIn).2, ?_, ?_, ?_⟩
  · exact List.count_eq_one_of_mem (hI.links.waits (.msgWaiters v)).nodup hIn
  · intro u hNe hOther
    have hSame := hI.links.single _ _ t hOther hIn
    cases hSame
    exact hNe rfl
  · intro p hp hQueued
    rw [hI.runqueue_eq hp] at hQueued
    exact hI.links.apart _ t hIn ⟨p, hp, hQueued⟩

/- The fields that the lists rest on. -/
theorem congr
    (hNext : k'.next = k.next) (hCache : k'.runqueueBitcache = k.runqueueBitcache)
    (hPrios : ∀ t, (k'.thread t).priority = (k.thread t).priority)
    (hStatus : ∀ h, ∀ t ∈ w h, (k'.thread t).status = (k.thread t).status) :
    IpcLinked cfg k' q w where
  links := by
    rw [hNext]
    exact hI.links
  own := by
    intro p hp t hIn
    rw [hPrios]
    exact hI.own p hp t hIn
  prios := by
    intro t
    rw [hPrios]
    exact hI.prios t
  low := by
    rw [hCache]
    exact hI.low
  served := by
    rw [hCache]
    exact hI.served
  unmarked := by
    rw [hNext]
    exact hI.unmarked
  waiting := by
    intro h t hIn
    rw [hStatus h t hIn]
    exact hI.waiting h t hIn

/- A store to a control block that keeps both. -/
theorem setThread
    {f : Thread N → Thread N}
    (hPrio : (f (k.thread t)).priority = (k.thread t).priority)
    (hStatus : (f (k.thread t)).status = (k.thread t).status) :
    IpcLinked cfg (k.setThread t f) q w := by
  refine hI.congr rfl rfl ?_ ?_
  · exact k.setThread_keeps Thread.priority hPrio
  · intro h u _
    exact k.setThread_keeps Thread.status hStatus u

/- A new status of a thread that waits nowhere. -/
theorem setStatus
    (status : ThreadStatus) (hOff : ∀ h, t ∉ w h) :
    IpcLinked cfg (k.setStatus t status) q w := by
  refine hI.congr rfl rfl ?_ ?_
  · intro u
    exact k.setStatus_priority t u status
  · intro h u hIn
    have hNe : u ≠ t := by
      rintro rfl
      exact hOff h hIn
    rw [k.setStatus_status, if_neg hNe]

/- The queues have changed, and one status with them. -/
theorem withQueues
    {mem : LinkMem (ListHead N) (Fin N)} {q' : Nat → List (Fin N)} {changed : Fin N → Prop}
    {status : ThreadStatus} {bitcache : BitVec 32} (hOff : ∀ h, t ∉ w h)
    (hQ : Runqueues mem q') (hSame : SameOutside k.next mem changed)
    (hChanged : ∀ e, changed e → e = t ∨ OnQueues q e)
    (hOn : ∀ e, OnQueues q' e → e = t ∨ OnQueues q e)
    (hOwn : ∀ p < schedPrioLevels, ∀ e ∈ q' p, (k.thread e).priority = p)
    (hLow : ∀ p, schedPrioLevels ≤ p → p < 32 → cfg.bitOrder.test bitcache p = false)
    (hServed : q' 1 ≠ [] → cfg.bitOrder.test bitcache 1 = true) :
    IpcLinked cfg { k.setStatus t status with next := mem, runqueueBitcache := bitcache }
      q' w := by
  have hI' := hI.setStatus status hOff
  have hApart : ∀ h, ∀ e ∈ w h, ¬(e = t ∨ OnQueues q e) := by
    rintro h e hIn (rfl | hQueued)
    · exact hOff h hIn
    · exact hI.links.apart h e hIn hQueued
  constructor
  · apply hI.links.withQueues hQ hSame
    · intro h e hIn hIs
      exact hApart h e hIn (hChanged e hIs)
    · intro h e hIn hIs
      exact hApart h e hIn (hOn e hIs)
  · intro p hp e hIn
    rw [Kernel.setStatus_priority]
    exact hOwn p hp e hIn
  · exact hI'.prios
  · exact hLow
  · exact hServed
  · intro v
    exact ne_of_eq_of_ne (hSame.1 _) (hI.unmarked v)
  · exact hI'.waiting

end

end IpcLinked

----
-- Status Changes
----

variable {N : Nat}

namespace IpcLinked

variable {cfg : Config N} {k k' : Kernel N} {q : Nat → List (Fin N)}
variable {w : WaitHead N → List (Fin N)} {t v : Fin N} {status : ThreadStatus}

section

variable (hI : IpcLinked cfg k q w) (hOff : ∀ h, t ∉ w h)

include hI hOff

/- The kernel after a push, whatever the queue was. -/
theorem pushed
    {mem : LinkMem (ListHead N) (Fin N)} {l : List (Fin N)}
    (hQ : Runqueues mem (Function.update q (k.thread t).priority l))
    (hSame : SameOutside k.next mem (fun e => e = t ∨ OnQueues q e))
    (hNew : ∀ e ∈ l, e = t ∨ e ∈ q (k.thread t).priority) :
    IpcLinked cfg (pushedKernel cfg k mem t status)
      (Function.update q (k.thread t).priority l) w := by
  have hPrio := hI.prios t
  have hLt : (k.thread t).priority < 32 := Nat.lt_trans hPrio (by decide)
  rw [pushedKernel_eq]
  refine hI.withQueues hOff hQ hSame (fun _ h => h) ?_ ?_ ?_ ?_
  · rintro e ⟨p, hp, hIn⟩
    rcases mem_update_iff.mp hIn with ⟨_, hList⟩ | ⟨_, hOld⟩
    · rcases hNew e hList with hSelf | hOld
      · exact .inl hSelf
      · exact .inr ⟨_, hPrio, hOld⟩
    · exact .inr ⟨p, hp, hOld⟩
  · intro p hp e hIn
    rcases mem_update_iff.mp hIn with ⟨hEq, hList⟩ | ⟨_, hOld⟩
    · rcases hNew e hList with hSelf | hOld
      · rw [hSelf, hEq]
      · rw [hEq]
        exact hI.own _ hPrio e hOld
    · exact hI.own p hp e hOld
  · intro p hp hBound
    rw [cfg.bitOrder.test_or_bit _ hLt hBound, hI.low p hp hBound]
    have hNe : p ≠ (k.thread t).priority := by omega
    simp [hNe]
  · intro hSome
    rw [cfg.bitOrder.test_or_bit _ hLt (by decide)]
    by_cases hEq : 1 = (k.thread t).priority
    · simp [hEq]
    · rw [Function.update_of_ne hEq] at hSome
      simp [hI.served hSome]

/- Waking a thread that waits in no list. -/
theorem wake
    (hSet : schedSetStatus cfg k t .pending = some k') :
    ∃ q', IpcLinked cfg k' q' w := by
  have hPrio := hI.prios t
  cases hOld : (k.thread t).status.onRunqueue with
  | true =>
    rw [schedSetStatus_keep_on rfl hOld] at hSet
    cases hSet
    exact ⟨q, hI.setStatus _ hOff⟩
  | false =>
    have hNew : ThreadStatus.pending.onRunqueue = true := rfl
    by_cases hQueued : OnQueues q t
    · -- Its queue still has the thread.
      rcases hQueued with ⟨p, hp, hIn⟩
      have hOwn := hI.own p hp t hIn
      subst hOwn
      rcases schedSetStatus_push_of_mem cfg hI.links.queues
          hNew hOld hPrio hIn with
        ⟨mem, l, hEq, hQ, _, hSub, hSame⟩
      rw [hEq] at hSet
      cases hSet
      refine ⟨_, hI.pushed hOff hQ (hSame.mono ?_) ?_⟩
      · exact fun _ h => .inr h
      · exact fun e he => .inr (hSub e he)
    · rcases schedSetStatus_push cfg hI.links.queues hNew
          hOld hPrio hQueued with
        ⟨mem, hEq, hQ, hSame⟩
      rw [hEq] at hSet
      cases hSet
      refine ⟨_, hI.pushed hOff hQ hSame ?_⟩
      intro e he
      rcases List.mem_append.mp he with hIn | hSelf
      · exact .inr hIn
      · exact .inl (List.mem_singleton.mp hSelf)

/-
  Blocking the running thread pops its queue.  The thread is
  on no queue then if it was the first of its queue, or not
  on it.
-/
theorem block
    (hNew : status.onRunqueue = false)
    (hOld : (k.thread t).status.onRunqueue = true)
    (hSet : schedSetStatus cfg k t status = some k') :
    ∃ q', IpcLinked cfg k' q' w ∧ ((q (k.thread t).priority).head? = some t ∨
            t ∉ q (k.thread t).priority → ¬OnQueues q' t) := by
  have hPrio := hI.prios t
  have hLt : (k.thread t).priority < 32 := Nat.lt_trans hPrio (by decide)
  rcases schedSetStatus_pop cfg hI.links.queues hNew hOld hPrio with ⟨mem, hEq, hQ, hSame⟩
  rw [hEq] at hSet
  cases hSet
  have hSub : ∀ p < schedPrioLevels, ∀ e ∈ Function.update q (k.thread t).priority
          (q (k.thread t).priority).tail p, e ∈ q p := by
    intro p _ e hIn
    rcases mem_update_iff.mp hIn with ⟨hSelf, hTail⟩ | ⟨_, hRest⟩
    · rw [hSelf]
      exact List.mem_of_mem_tail hTail
    · exact hRest
  refine ⟨Function.update q (k.thread t).priority (q (k.thread t).priority).tail, ?_, ?_⟩
  · rw [poppedKernel_eq]
    refine hI.withQueues hOff hQ hSame (fun _ h => .inr h) ?_ ?_ ?_ ?_
    · rintro e ⟨p, hp, hIn⟩
      exact .inr ⟨p, hp, hSub p hp e hIn⟩
    · intro p hp e hIn
      exact hI.own p hp e (hSub p hp e hIn)
    · intro p hp hBound
      split
      · rw [cfg.bitOrder.test_and_not_bit _ hLt hBound, hI.low p hp hBound]
        rfl
      · exact hI.low p hp hBound
    · intro hSome
      by_cases hOne : 1 = (k.thread t).priority
      · have hEmpty := (hQ.circular _ hPrio).eq_nil_iff
        rw [Function.update_self] at hEmpty
        rw [← hOne, Function.update_self] at hSome
        rw [← hOne] at hEmpty ⊢
        rw [if_neg (fun hNull => hSome (hEmpty.mpr hNull))]
        apply hI.served
        intro hNil
        rw [hNil] at hSome
        exact hSome rfl
      · rw [Function.update_of_ne hOne] at hSome
        split
        · rw [cfg.bitOrder.test_and_not_bit _ hLt (by decide), hI.served hSome]
          simp [hOne]
        · exact hI.served hSome
  · rintro hFirst ⟨p, hp, hIn⟩
    have hOwn := hI.own p hp t (hSub p hp t hIn)
    subst hOwn
    rw [Function.update_self] at hIn
    rcases hFirst with hHead | hNot
    · -- The first node was popped, and occurs once.
      have hNodup := (hI.links.queues.circular _ hPrio).1
      have hCons := List.eq_cons_of_mem_head? hHead
      rw [hCons, List.nodup_cons] at hNodup
      exact hNodup.1 hIn
    · exact hNot (List.mem_of_mem_tail hIn)

end

/- A sender that is in no list starts to wait. -/
theorem addWaiter
    (hI : IpcLinked cfg k q w) (hUnlinked : Unlinked q w t)
    (hStatus : (k.thread t).status = .sendBlocked ∨ (k.thread t).status = .replyBlocked)
    (hAdd : threadAddToList k (.msgWaiters v) t = some k') :
    ∃ w', IpcLinked cfg k' q w' := by
  have hBlocked : (k.thread t).status.onRunqueue = false := by
    rcases hStatus with hSend | hReply
    · rw [hSend]
      rfl
    · rw [hReply]
      rfl
  rcases Links.addToList (fun t => (k.thread t).priority)
      hI.links (hI.unmarked v) hUnlinked with
    ⟨mem, hEq, hLinks, _, hHeads⟩
  unfold threadAddToList at hAdd
  rw [hBlocked, hEq] at hAdd
  cases hAdd
  have hPerm : (insertByPriority (fun t => (k.thread t).priority) t
        (w (.msgWaiters v))).Perm (t :: w (.msgWaiters v)) :=
    insertByPriority_perm _ _
  refine ⟨_, hLinks, hI.own, hI.prios, hI.low, hI.served, ?_, ?_⟩
  · intro u
    by_cases hEq : u = v
    · subst hEq
      apply hLinks.ne_mark_of_mem (t := t)
      rw [Function.update_self, hPerm.mem_iff]
      exact List.mem_cons_self
    · refine ne_of_eq_of_ne (hHeads _ (by simpa using hEq)) ?_
      exact hI.unmarked u
  · intro h e hIn
    by_cases hHead : h = .msgWaiters v
    · subst hHead
      rw [Function.update_self, hPerm.mem_iff, List.mem_cons] at hIn
      rcases hIn with rfl | hOld
      · exact ⟨⟨v, rfl⟩, hStatus⟩
      · exact hI.waiting _ e hOld
    · rw [Function.update_of_ne hHead] at hIn
      exact hI.waiting h e hIn

end IpcLinked

----
-- Scheduling
----

variable {N : Nat}

namespace IpcLinked

variable {cfg : Config N} {k k' : Kernel N} {q : Nat → List (Fin N)}
variable {w : WaitHead N → List (Fin N)} {t : Fin N}

section

variable (hI : IpcLinked cfg k q w)

include hI

/- `sched_run` reads one of the run queues. -/
theorem nextRunqueue_lt
    {nextrq : Nat} (hNext : nextRunqueue cfg k = some nextrq) :
    nextrq < schedPrioLevels := by
  have hQ := hI.links.queues
  unfold nextRunqueue at hNext
  rw [hQ.clistCount_eq (by decide : 1 < schedPrioLevels)] at hNext
  simp only [Option.bind_eq_bind, Option.bind_some] at hNext
  split at hNext
  · cases hNext
    decide
  · rename_i hCount
    have hBit := hI.served (by
      intro hNil
      rw [hNil] at hCount
      exact hCount rfl)
    have hNe : k.runqueueBitcache ≠ 0#32 := by
      intro hZero
      rw [hZero, cfg.bitOrder.test_zero] at hBit
      cases hBit
    rcases exists_smallest_of_ne cfg.bitOrder hNe with ⟨prio, hPrio, hTest, hSmallest⟩
    rw [getPrioQueueFromRunqueue_eq cfg.bitOrder hPrio hTest hSmallest] at hNext
    cases hNext
    by_contra hHigh
    rw [hI.low _ (Nat.le_of_not_lt hHigh) hPrio] at hTest
    cases hTest

/- The queues after the expiry test of `sched_run`. -/
theorem expireNext
    {active : Option (Fin N)} {popped : LinkMem (ListHead N) (Fin N)}
    (hNext : k'.next = k.next)
    (hExpire : Riot.expireNext k' active t = some popped) :
    ∃ q',
      Runqueues popped q' ∧ SameOutside k.next popped (OnQueues q) ∧ ∀ p, ∀ e ∈ q' p, e ∈ q p := by
  unfold Riot.expireNext at hExpire
  rw [hNext] at hExpire
  split at hExpire
  · rcases hI.links.queues.lpop (by decide : 1 < schedPrioLevels) with ⟨mem, hPop, hQ, hSame⟩
    rw [hPop] at hExpire
    cases hExpire
    refine ⟨_, hQ, hSame, ?_⟩
    intro p e hIn
    rcases mem_update_iff.mp hIn with ⟨hSelf, hTail⟩ | ⟨_, hRest⟩
    · rw [hSelf]
      exact List.mem_of_mem_tail hTail
    · exact hRest
  · cases hExpire
    exact ⟨q, hI.links.queues, .refl, fun _ _ h => h⟩

/- The part of `sched_run` after the idle loop. -/
theorem schedRunFrom
    {active previous : Option (Fin N)} (hArgs : active = none ∨ active = previous)
    (hRun : Riot.schedRunFrom cfg k active previous = some k') :
    ∃ q', IpcLinked cfg k' q' w := by
  rcases schedRunFrom_some hRun with
    ⟨nextrq, t, popped, mem, hQueue, hFirst, hPopped, hRotated, rfl⟩
  have hLevel := hI.nextRunqueue_lt hQueue
  have hOn : OnQueues q t := by
    rw [clistFirst_eq (hI.links.queues.circular _ hLevel)] at hFirst
    exact ⟨nextrq, hLevel, List.mem_of_mem_head? hFirst⟩
  have hNext : (switchedKernel k active previous t).next = k.next := by
    rw [switchedKernel_eq hArgs]
  rcases hI.expireNext hNext hPopped with ⟨q₁, hQ₁, hSame₁, hSub₁⟩
  rcases hQ₁.rotateRunqueues_eq with ⟨mem', hRotated', hQ₂, hSame₂⟩
  have hMem : mem' = mem := Option.some.inj (hRotated'.symm.trans hRotated)
  subst hMem
  have hSub : ∀ p, ∀ e ∈ rotatedQueues q₁ p, e ∈ q p := by
    intro p e hIn
    exact hSub₁ p e (mem_rotatedQueues_iff.mp hIn)
  have hSame : SameOutside k.next mem' (OnQueues q) :=
    hSame₁.trans (hSame₂.mono (fun _ h => h.elim))
  refine ⟨rotatedQueues q₁, ?_⟩
  rw [switchedKernel_eq hArgs]
  constructor
  · apply hI.links.withQueues hQ₂ hSame hI.links.apart
    rintro h e hIn ⟨p, hp, hQueued⟩
    exact hI.links.apart h e hIn ⟨p, hp, hSub p e hQueued⟩
  · intro p hp e hIn
    exact hI.own p hp e (hSub p e hIn)
  · exact hI.prios
  · exact hI.low
  · intro hSome
    apply hI.served
    intro hNil
    rcases List.exists_mem_of_ne_nil _ hSome with ⟨e, hIn⟩
    have hOld := hSub 1 e hIn
    rw [hNil] at hOld
    cases hOld
  · intro v
    exact ne_of_eq_of_ne (hSame.1 _) (hI.unmarked v)
  · intro h e hIn
    rcases hI.waiting h e hIn with ⟨hHead, hStatus⟩
    have hNe : e ≠ t := by
      rintro rfl
      exact hI.links.apart h e hIn hOn
    -- A waiting thread was not running before the switch.
    have hNot : (k.thread e).status ≠ .running := by
      rcases hStatus with hSend | hReply
      · rw [hSend]
        simp
      · rw [hReply]
        simp
    refine ⟨hHead, ?_⟩
    simp only [finishRun, statusAfterSwitch, if_neg hNe, hNot, and_false, if_false]
    exact hStatus

/- A scheduler run, or its wait for a runnable thread. -/
theorem schedRun
    (hRun : Riot.schedRun cfg k = some k') :
    ∃ q', IpcLinked cfg k' q' w := by
  unfold Riot.schedRun at hRun
  split at hRun
  · cases hRun
    refine ⟨q, ?_⟩
    unfold unscheduleActive
    cases hActive : k.schedActiveThread with
    | none => exact hI.congr rfl rfl (fun _ => rfl) (fun _ _ _ => rfl)
    | some active =>
      dsimp only
      unfold unschedule
      split
      · rename_i hRunning
        have hOff : ∀ h, active ∉ w h := by
          intro h hIn
          have hStatus := (hI.waiting h active hIn).2
          rw [hRunning] at hStatus
          rcases hStatus with hSend | hReply
          · cases hSend
          · cases hReply
        exact (hI.setStatus .pending hOff).congr rfl rfl (fun _ => rfl) (fun _ _ _ => rfl)
      · exact hI.congr rfl rfl (fun _ => rfl) (fun _ _ _ => rfl)
  · exact hI.schedRunFrom (.inr rfl) hRun

end

end IpcLinked

end Riot
