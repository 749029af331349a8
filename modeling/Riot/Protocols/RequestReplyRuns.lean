import Riot.Protocols.RequestReply

/-
  Senders that wait, over whole runs of requests and replies.

  `IpcStep` is the condition on a step: a thread that starts
  to wait in a list of senders is the first of its run queue
  or not on it, and a reply does not go to a thread that is
  still in such a list.  Runs of such steps keep waiting
  senders off the run queues; without the condition a late
  reply puts one on both.
-/

----
-- Sending
----

namespace Riot

variable {N : Nat}

/- A message to the target makes its sender wait. -/
def Kernel.entersWaiters
    (k : Kernel N) (targetPid : Int) : Bool :=
  (k.schedThreads targetPid).any (fun v =>
    (k.thread v).status != .receiveBlocked && (cibPut (k.thread v).msgQueue).2.isNone)

/- A target that waits for a message does not make one wait. -/
theorem Kernel.entersWaiters_mono
    {k k' : Kernel N} {targetPid : Int}
    (hThreads : k'.schedThreads = k.schedThreads)
    (hQueues : ∀ v, (k'.thread v).msgQueue = (k.thread v).msgQueue)
    (hStatus : ∀ v, (k.thread v).status = .receiveBlocked → (k'.thread v).status = .receiveBlocked)
    (hEnters : k'.entersWaiters targetPid = true) :
    k.entersWaiters targetPid = true := by
  unfold entersWaiters at *
  rw [hThreads] at hEnters
  cases hTarget : k.schedThreads targetPid with
  | none =>
    rw [hTarget] at hEnters
    cases hEnters
  | some v =>
    rw [hTarget] at hEnters
    simp only [Option.any_some, Bool.and_eq_true, bne_iff_ne, hQueues] at hEnters ⊢
    exact ⟨fun h => hEnters.1 (hStatus v h), hEnters.2⟩

namespace IpcLinked

variable {cfg : Config N} {k k' : Kernel N} {q : Nat → List (Fin N)}
variable {w : WaitHead N → List (Fin N)} {t v : Fin N} {m : Msg}

section

variable (hI : IpcLinked cfg k q w)

include hI

/- Threads of another status wait in no list. -/
theorem off_of_status
    (hSend : (k.thread t).status ≠ .sendBlocked)
    (hReply : (k.thread t).status ≠ .replyBlocked) (h : WaitHead N) :
    t ∉ w h := by
  intro hIn
  rcases (hI.waiting h t hIn).2 with hEq | hEq
  · exact hSend hEq
  · exact hReply hEq

/- In particular those that can run. -/
theorem off_of_runnable
    (hRuns : k.runnable t = true) (h : WaitHead N) :
    t ∉ w h := by
  unfold Kernel.runnable at hRuns
  apply hI.off_of_status
  · intro hEq
    rw [hEq] at hRuns
    cases hRuns
  · intro hEq
    rw [hEq] at hRuns
    cases hRuns

/- Raising flags. -/
theorem flags
    {c p : Bool} :
    IpcLinked cfg { k with schedContextSwitchRequest := c, pendsv := p } q w :=
  hI.congr rfl rfl (fun _ => rfl) (fun _ _ _ => rfl)

/- Storing a message. -/
theorem setBuffer
    (t : Fin N) (m : Msg) :
    IpcLinked cfg (k.setBuffer t m) q w :=
  hI.congr rfl rfl (fun _ => rfl) (fun _ _ _ => rfl)

/- Storing a message queue. -/
theorem setQueue
    (v : Fin N) (cib : Cib) (array : Option (Nat → Msg)) :
    IpcLinked cfg (k.setQueue v cib array) q w :=
  hI.setThread rfl rfl

end

/-
  The caller can start to wait: it runs and is the first of
  its queue or not on it, or it waits for a reply already and
  is on no queue.
-/
def MayWait
    (k : Kernel N) (q : Nat → List (Fin N)) (t : Fin N) : Prop :=
  ((k.thread t).status.onRunqueue = true ∧
      ((q (k.thread t).priority).head? = some t ∨ t ∉ q (k.thread t).priority)) ∨
    ((k.thread t).status = .replyBlocked ∧ ¬OnQueues q t)

/- The status after a change. -/
theorem status_of_set
    {status : ThreadStatus} (hSet : schedSetStatus cfg k t status = some k') :
    (k'.thread t).status = status := by
  rcases schedSetStatus_frame hSet with ⟨mem, bits, rfl⟩
  dsimp only
  rw [k.setStatus_status, if_pos rfl]

/- The caller starts to wait. -/
theorem sendBlocking
    (hI : IpcLinked cfg k q w) (hOff : ∀ h, t ∉ w h) (hMay : MayWait k q t)
    (hSend : Riot.sendBlocking (schedSetStatus cfg) k t v = some k') :
    ∃ q' w', IpcLinked cfg k' q' w' := by
  have hI₀ : IpcLinked cfg (k.setWaitData t (some t)) q w := hI.setThread rfl rfl
  have hStatus₀ : ((k.setWaitData t (some t)).thread t).status = (k.thread t).status :=
    k.setThread_keeps Thread.status rfl t
  have hPrio₀ : ((k.setWaitData t (some t)).thread t).priority = (k.thread t).priority :=
    k.setThread_keeps Thread.priority rfl t
  rcases Option.bind_eq_some_iff.mp hSend with ⟨k₁, hSet, hAdd⟩
  rcases hMay with ⟨hRuns, hFirst⟩ | ⟨hReply, hQueues⟩
  · have hNot : (k.thread t).status ≠ .replyBlocked := by
      intro hEq
      rw [hEq] at hRuns
      cases hRuns
    rw [if_neg hNot] at hSet
    rcases hI₀.block hOff rfl (hStatus₀ ▸ hRuns) hSet with ⟨q', hI₁, hGone⟩
    rw [hPrio₀] at hGone
    rcases hI₁.addWaiter ⟨hGone hFirst, hOff⟩ (.inl (status_of_set hSet)) hAdd with ⟨w', hI₂⟩
    exact ⟨q', w', hI₂⟩
  · rw [if_pos hReply] at hSet
    have hStatus := status_of_set hSet
    have hKeep : schedSetStatus cfg (k.setWaitData t (some t)) t
            .replyBlocked = some ((k.setWaitData t (some t)).setStatus t .replyBlocked) := by
      apply schedSetStatus_keep_off rfl
      rw [hStatus₀, hReply]
      rfl
    rw [hKeep] at hSet
    cases hSet
    rcases (hI₀.setStatus .replyBlocked hOff).addWaiter
        ⟨hQueues, hOff⟩ (.inr hStatus) hAdd with
      ⟨w', hI₂⟩
    exact ⟨q, w', hI₂⟩

/- A blocked thread gets a message and can run again. -/
theorem copyToWaiting
    (hI : IpcLinked cfg k q w) (hOff : ∀ h, v ∉ w h)
    (hCopy : Riot.copyToWaiting (schedSetStatus cfg) k v m = some k') :
    ∃ q', IpcLinked cfg k' q' w := by
  rcases Option.bind_eq_some_iff.mp hCopy with ⟨object, _, hSet⟩
  exact (hI.setBuffer object m).wake hOff hSet

/- The function `_msg_send`. -/
theorem msgSendWith
    {targetPid : Int} {block : Bool} {outcome : Outcome} (hI : IpcLinked cfg k q w)
    (hActive : k.schedActiveThread = some t) (hOff : ∀ h, t ∉ w h)
    (hMay : k.entersWaiters targetPid = true → MayWait k q t)
    (hSend : Riot.msgSendWith (schedSetStatus cfg) k m targetPid block = some (k', outcome)) :
    ∃ q' w', IpcLinked cfg k' q' w' := by
  unfold Riot.msgSendWith at hSend
  rw [hActive] at hSend
  simp only [Option.bind_eq_bind, Option.bind_some] at hSend
  generalize { m with senderPid := k.schedActivePid } = m' at hSend
  have hI₀ := hI.setBuffer t m'
  cases hTarget : k.schedThreads targetPid with
  | none =>
    have hNone : (k.setBuffer t m').schedThreads targetPid = none := hTarget
    rw [hNone] at hSend
    cases hSend
    exact ⟨q, w, hI₀⟩
  | some v =>
    have hSome : (k.setBuffer t m').schedThreads targetPid = some v := hTarget
    rw [hSome] at hSend
    dsimp only at hSend
    split at hSend
    · rename_i hStatus
      rcases Option.bind_eq_some_iff.mp hSend with ⟨⟨k₁, queued⟩, hQueue, hRest⟩
      rcases queueMsg_some hQueue with ⟨rfl, rfl, hFull⟩ | ⟨rfl, cib, array, rfl⟩
      · have hEnters : k.entersWaiters targetPid = true := by
          unfold Kernel.entersWaiters
          rw [hTarget]
          have hFull' : (cibPut (k.thread v).msgQueue).2 = none := hFull
          have hStatus' : (k.thread v).status ≠ .receiveBlocked := hStatus
          simp [hFull', hStatus']
        simp only [Bool.false_eq_true, if_false] at hRest
        split at hRest
        · cases hRest
          exact ⟨q, w, hI₀⟩
        · rcases Option.bind_eq_some_iff.mp hRest with ⟨k₂, hBlock, hLast⟩
          cases hLast
          rcases hI₀.sendBlocking hOff (hMay hEnters) hBlock with ⟨q', w', hI₂⟩
          exact ⟨q', w', hI₂.flags⟩
      · simp only [if_true] at hRest
        have hI₁ := hI₀.setQueue v cib array
        unfold yieldForReply at hRest
        split at hRest
        · cases hRest
          exact ⟨q, w, hI₁.flags⟩
        · cases hRest
          exact ⟨q, w, hI₁⟩
    · rename_i hStatus
      have hBlocked : ((k.setBuffer t m').thread v).status = .receiveBlocked := not_not.mp hStatus
      rcases Option.bind_eq_some_iff.mp hSend with ⟨k₁, hCopy, hLast⟩
      cases hLast
      have hOffTarget : ∀ h, v ∉ w h :=
        hI₀.off_of_status (by rw [hBlocked]; simp) (by rw [hBlocked]; simp)
      rcases hI₀.copyToWaiting hOffTarget hCopy with ⟨q', hI₁⟩
      exact ⟨q', w, hI₁.flags⟩

end IpcLinked

----
-- Requests and Replies
----

namespace IpcLinked

variable {cfg : Config N} {k k' : Kernel N} {q : Nat → List (Fin N)}
variable {w : WaitHead N → List (Fin N)} {t : Fin N} {m reply : Msg} {targetPid : Int}

section

variable (hI : IpcLinked cfg k q w)

include hI

/- Sending a message, blocking. -/
theorem msgSend
    {outcome : Outcome} (hActive : k.schedActiveThread = some t)
    (hRuns : k.runnable t = true)
    (hFirst : k.schedActivePid ≠ targetPid → k.entersWaiters targetPid = true →
          (q (k.thread t).priority).head? = some t ∨ t ∉ q (k.thread t).priority)
    (hSend : Riot.msgSend (schedSetStatus cfg) k m targetPid = some (k', outcome)) :
    ∃ q' w', IpcLinked cfg k' q' w' := by
  unfold Riot.msgSend msgSendFrom at hSend
  split at hSend
  · -- A message to the caller itself is at most queued.
    unfold msgSendToSelf at hSend
    rw [hActive] at hSend
    simp only [Option.bind_eq_bind, Option.bind_some] at hSend
    rcases Option.bind_eq_some_iff.mp hSend with ⟨⟨k₁, queued⟩, hQueue, hLast⟩
    cases hLast
    rcases queueMsg_some hQueue with ⟨_, rfl, _⟩ | ⟨_, cib, array, rfl⟩
    · exact ⟨q, w, hI.setBuffer _ _⟩
    · exact ⟨q, w, (hI.setBuffer _ _).setQueue t cib array⟩
  · rename_i hOther
    refine hI.msgSendWith hActive (hI.off_of_runnable hRuns) ?_ hSend
    intro hEnters
    exact .inl ⟨hRuns, hFirst hOther hEnters⟩

/- Sending a message and waiting for the reply. -/
theorem msgSendReceive
    {outcome : Outcome} (hActive : k.schedActiveThread = some t)
    (hRuns : k.runnable t = true)
    (hFirst : k.entersWaiters targetPid = true →
        (q (k.thread t).priority).head? = some t ∨ t ∉ q (k.thread t).priority)
    (hSend : Riot.msgSendReceive (schedSetStatus cfg) k m targetPid = some (k', outcome)) :
    ∃ q' w', IpcLinked cfg k' q' w' := by
  have hOff := hI.off_of_runnable hRuns
  unfold Riot.msgSendReceive at hSend
  split at hSend
  · cases hSend
  · rw [hActive] at hSend
    simp only [Option.bind_eq_bind, Option.bind_some] at hSend
    rcases Option.bind_eq_some_iff.mp hSend with ⟨k₁, hSet, hRest⟩
    rcases hI.block hOff rfl hRuns hSet with ⟨q₁, hI₁, hGone⟩
    have hStatus := status_of_set hSet
    rcases schedSetStatus_frame hSet with ⟨mem, bits, hk₁⟩
    have hI₂ : IpcLinked cfg (k₁.setWaitData t (some t)) q₁ w := hI₁.setThread rfl rfl
    have hActive₂ : (k₁.setWaitData t (some t)).schedActiveThread = some t := by
      rw [hk₁]
      exact hActive
    refine hI₂.msgSendWith hActive₂ hOff ?_ hRest
    intro hEnters
    right
    constructor
    · rw [← hStatus]
      exact k₁.setThread_keeps Thread.status rfl t
    · apply hGone
      apply hFirst
      -- The target is as it was before the caller blocked.
      refine Kernel.entersWaiters_mono ?_ ?_ ?_ hEnters
      · rw [hk₁]
        rfl
      · intro v
        refine (k₁.setThread_keeps Thread.msgQueue rfl v).trans ?_
        rw [hk₁]
        dsimp only
        rw [k.setStatus_thread]
      · intro v hBlocked
        have hNe : v ≠ t := by
          rintro rfl
          unfold Kernel.runnable at hRuns
          rw [hBlocked] at hRuns
          cases hRuns
        refine Eq.trans ?_ hBlocked
        refine (k₁.setThread_keeps Thread.status rfl v).trans ?_
        rw [hk₁]
        dsimp only
        rw [k.setStatus_status, if_neg hNe]

/- A reply to a thread that waits in no list. -/
theorem msgReply
    {result : Int}
    (hOff :
      ∀ v, k.schedThreads m.senderPid = some v → (k.thread v).status = .replyBlocked → ∀ h, v ∉ w h)
    (hReply : Riot.msgReply (schedSetStatus cfg) k m reply = some (k', result)) :
    ∃ q', IpcLinked cfg k' q' w := by
  rcases Option.bind_eq_some_iff.mp hReply with ⟨v, hTarget, hRest⟩
  split at hRest
  · cases hRest
    exact ⟨q, hI⟩
  · rename_i hStatus
    rcases Option.bind_eq_some_iff.mp hRest with ⟨k₁, hCopy, hRest₁⟩
    rcases Option.bind_eq_some_iff.mp hRest₁ with ⟨k₂, hSwitch, hLast⟩
    cases hLast
    rcases hI.copyToWaiting (hOff v hTarget (not_not.mp hStatus)) hCopy with ⟨q', hI₁⟩
    rcases schedSwitch_some hSwitch with ⟨c, p, rfl⟩
    exact ⟨q', hI₁.flags⟩

/- The same from an interrupt handler. -/
theorem msgReplyInt
    {result : Int}
    (hOff :
      ∀ v, k.schedThreads m.senderPid = some v → (k.thread v).status = .replyBlocked → ∀ h, v ∉ w h)
    (hReply : Riot.msgReplyInt (schedSetStatus cfg) k m reply = some (k', result)) :
    ∃ q', IpcLinked cfg k' q' w := by
  rcases Option.bind_eq_some_iff.mp hReply with ⟨v, hTarget, hRest⟩
  split at hRest
  · cases hRest
    exact ⟨q, hI⟩
  · rename_i hStatus
    rcases Option.bind_eq_some_iff.mp hRest with ⟨k₁, hCopy, hLast⟩
    cases hLast
    rcases hI.copyToWaiting (hOff v hTarget (not_not.mp hStatus)) hCopy with ⟨q', hI₁⟩
    exact ⟨q', hI₁.flags⟩

end

end IpcLinked

----
-- Receiving
----

/- Taking a message from the queue. -/
theorem takeQueued_eq
    (k : Kernel N) (t : Fin N) :
    ∃ cib array, (takeQueued k t).1 = k.setQueue t cib array := by
  unfold takeQueued
  split
  · exact ⟨_, _, rfl⟩
  · exact ⟨_, _, (k.setQueue_self t).symm⟩

namespace IpcLinked

variable {cfg : Config N} {k k' : Kernel N} {q : Nat → List (Fin N)}
variable {w : WaitHead N → List (Fin N)} {t x : Fin N}

section

variable (hI : IpcLinked cfg k q w)

include hI

/- The caller's object is filled or left for a sender. -/
theorem fillOrWait
    {queueIndex : Option Nat} (hFill : Riot.fillOrWait k t queueIndex = some k') :
    IpcLinked cfg k' q w ∧ (∀ u, (k'.thread u).status = (k.thread u).status) ∧
      k'.next = k.next := by
  unfold Riot.fillOrWait at hFill
  split at hFill
  · rcases Option.bind_eq_some_iff.mp hFill with ⟨array, _, hLast⟩
    cases hLast
    exact ⟨hI.setBuffer _ _, fun _ => rfl, rfl⟩
  · cases hFill
    refine ⟨hI.setThread rfl rfl, ?_, rfl⟩
    exact k.setThread_keeps Thread.status rfl

/- The message of a sender is copied. -/
theorem copyFromSender
    {queueIndex : Option Nat}
    (hCopy : Riot.copyFromSender k t x queueIndex = some k') :
    IpcLinked cfg k' q w := by
  rcases Option.bind_eq_some_iff.mp hCopy with ⟨object, _, hRest⟩
  dsimp only at hRest
  split at hRest
  · rcases Option.bind_eq_some_iff.mp hRest with ⟨n, _, hRest₁⟩
    rcases Option.bind_eq_some_iff.mp hRest₁ with ⟨array, _, hLast⟩
    cases hLast
    exact hI.setQueue t _ _
  · cases hRest
    exact hI.setBuffer _ _

/- A sender that has left its list goes on. -/
theorem releaseSender
    (hOff : ∀ h, x ∉ w h)
    (hRelease : Riot.releaseSender (schedSetStatus cfg) k x = some k') :
    ∃ q', IpcLinked cfg k' q' w := by
  unfold Riot.releaseSender at hRelease
  split at hRelease
  · rcases Option.bind_eq_some_iff.mp hRelease with ⟨k₁, hSet, hRest⟩
    have hI₀ : IpcLinked cfg (k.setWaitData x none) q w := hI.setThread rfl rfl
    rcases hI₀.wake hOff hSet with ⟨q', hI₁⟩
    split at hRest
    · rcases schedSwitch_some hRest with ⟨c, p, rfl⟩
      exact ⟨q', hI₁.flags⟩
    · cases hRest
      exact ⟨q', hI₁⟩
  · cases hRelease
    exact ⟨q, hI⟩

/- The first sender leaves the list. -/
theorem takeFirst
    {mem : LinkMem (ListHead N) (Fin N)} {next : Option (Fin N)}
    (hRemove : listRemoveHead k.next (.waiting (.msgWaiters t)) = some (mem, next)) :
    ∃ w', IpcLinked cfg { k with next := mem } q w' ∧
        (∀ h, ∀ u ∈ w' h, u ∈ w h) ∧ ∀ x, next = some x → ∀ h, x ∉ w' h := by
  cases hList : w (.msgWaiters t) with
  | nil =>
    have hHolds := hI.links.waits (.msgWaiters t)
    have hNull := (hHolds.isList_of_ne (hI.unmarked t))
    rw [hList] at hNull
    unfold listRemoveHead at hRemove
    rw [LinkMem.IsList.nil_iff.mp hNull] at hRemove
    cases hRemove
    refine ⟨w, hI, fun _ _ h => h, ?_⟩
    intro x hNone
    cases hNone
  | cons x l =>
    rcases hI.links.takeFirst hList with ⟨mem', hRemove', hLinks, hNe, hHeads⟩
    rw [hRemove'] at hRemove
    cases hRemove
    have hSub : ∀ h, ∀ u ∈ Function.update w (.msgWaiters t) l h, u ∈ w h := by
      intro h u hIn
      by_cases hHead : h = .msgWaiters t
      · subst hHead
        rw [Function.update_self] at hIn
        rw [hList]
        exact List.mem_cons_of_mem _ hIn
      · rw [Function.update_of_ne hHead] at hIn
        exact hIn
    refine ⟨Function.update w (.msgWaiters t) l, ?_, hSub, ?_⟩
    · refine ⟨hLinks, hI.own, hI.prios, hI.low, hI.served, ?_, ?_⟩
      · intro v
        by_cases hEq : v = t
        · subst hEq
          exact hNe
        · refine ne_of_eq_of_ne (hHeads _ (by simpa using hEq)) ?_
          exact hI.unmarked v
      · intro h u hIn
        exact hI.waiting h u (hSub h u hIn)
    · rintro _ ⟨⟩ h hIn
      have hFirst : x ∈ w (.msgWaiters t) := by
        rw [hList]
        exact List.mem_cons_self
      have hHead := hI.links.single _ _ x (hSub h x hIn) hFirst
      subst hHead
      rw [Function.update_self] at hIn
      have hNodup := (hI.links.waits (.msgWaiters t)).nodup
      rw [hList, List.nodup_cons] at hNodup
      exact hNodup.1 hIn

/- The function `_msg_receive`. -/
theorem msgReceiveWith
    {block : Bool} {outcome : Outcome} (hActive : k.schedActiveThread = some t)
    (hRuns : k.runnable t = true)
    (hReceive : Riot.msgReceiveWith (schedSetStatus cfg) k block = some (k', outcome)) :
    ∃ q' w', IpcLinked cfg k' q' w' := by
  unfold Riot.msgReceiveWith at hReceive
  rw [hActive] at hReceive
  simp only [Option.bind_eq_bind, Option.bind_some] at hReceive
  rcases takeQueued_eq k t with ⟨cib, array, hTake⟩
  have hI₀ : IpcLinked cfg (takeQueued k t).1 q w := by
    rw [hTake]
    exact hI.setQueue t cib array
  have hRuns₀ : ((takeQueued k t).1.thread t).status.onRunqueue = true := by
    rw [hTake]
    exact (congrArg ThreadStatus.onRunqueue (k.setThread_keeps Thread.status rfl t)).trans hRuns
  generalize takeQueued k t = taken at hReceive hI₀ hRuns₀
  rcases taken with ⟨k₀, queueIndex⟩
  split at hReceive
  · cases hReceive
    exact ⟨q, w, hI₀⟩
  · rcases Option.bind_eq_some_iff.mp hReceive with ⟨k₁, hFill, hRest⟩
    rcases hI₀.fillOrWait hFill with ⟨hI₁, hStatus₁, _⟩
    rcases Option.bind_eq_some_iff.mp hRest with ⟨⟨mem, next⟩, hRemove, hRest₁⟩
    rcases hI₁.takeFirst hRemove with ⟨w', hI₂, _, hGone⟩
    have hRuns₂ : (k₁.thread t).status.onRunqueue = true := by
      rw [hStatus₁]
      exact hRuns₀
    cases next with
    | none =>
      cases queueIndex with
      | none =>
        rcases Option.bind_eq_some_iff.mp hRest₁ with ⟨k₃, hSet, hLast⟩
        cases hLast
        rcases hI₂.block (hI₂.off_of_runnable hRuns₂) rfl hRuns₂ hSet with ⟨q', hI₃, _⟩
        exact ⟨q', w', hI₃.flags⟩
      | some index =>
        cases hRest₁
        exact ⟨q, w', hI₂⟩
    | some x =>
      rcases Option.bind_eq_some_iff.mp hRest₁ with ⟨k₃, hCopy, hRest₂⟩
      rcases Option.bind_eq_some_iff.mp hRest₂ with ⟨k₄, hRelease, hLast⟩
      cases hLast
      rcases (hI₂.copyFromSender hCopy).releaseSender (hGone x rfl) hRelease with ⟨q', hI₄⟩
      exact ⟨q', w', hI₄⟩

end

end IpcLinked

----
-- Steps
----

/-
  The active thread is the first of its run queue, or is not
  on it.
-/
def Kernel.ActiveMayWait
    (k : Kernel N) : Prop :=
  ∀ t ∈ k.schedActiveThread,
    (k.runqueue (k.thread t).priority).head? = some t ∨ t ∉ k.runqueue (k.thread t).priority

instance
    (k : Kernel N) :
    Decidable k.ActiveMayWait := by
  unfold Kernel.ActiveMayWait
  infer_instance

/-
  The thread that a reply would wake is in no list of waiting
  senders.
-/
def Kernel.ReplyFinds
    (k : Kernel N) (m : Msg) : Prop :=
  ∀ t ∈ k.schedThreads m.senderPid, (k.thread t).status = .replyBlocked → ∀ v, t ∉ k.msgWaiters v

instance
    (k : Kernel N) (m : Msg) :
    Decidable (k.ReplyFinds m) := by
  unfold Kernel.ReplyFinds
  infer_instance

/-
  The condition on a step: a thread that starts to wait in a
  list of senders is the first of its run queue or not on it,
  and a reply does not go to a thread in such a list.
-/
def IpcStep
    (s : IpcState N) : IpcOp → Prop
| .msgSend _ targetPid =>
  s.kernel.schedActivePid ≠ targetPid →
    s.kernel.entersWaiters targetPid = true → s.kernel.ActiveMayWait
| .msgSendReceive _ targetPid =>
  s.kernel.entersWaiters targetPid = true → s.kernel.ActiveMayWait
| .msgReply m _ => s.kernel.ReplyFinds m
| .msgReplyInt m _ => s.kernel.ReplyFinds m
| _ => True

instance
    (s : IpcState N) (op : IpcOp) :
    Decidable (IpcStep s op) :=
  match op with
  | .msgSend .. => by unfold IpcStep; infer_instance
  | .msgSendReceive .. => by unfold IpcStep; infer_instance
  | .msgReply .. => by unfold IpcStep; infer_instance
  | .msgReplyInt .. => by unfold IpcStep; infer_instance
  | .timerTick => inferInstanceAs (Decidable True)
  | .pendsv => inferInstanceAs (Decidable True)
  | .idleReturn => inferInstanceAs (Decidable True)
  | .msgInitQueue _ => inferInstanceAs (Decidable True)
  | .msgReceive => inferInstanceAs (Decidable True)
  | .msgTryReceive => inferInstanceAs (Decidable True)
  | .msgReceived => inferInstanceAs (Decidable True)

/- The thread that calls is active and can run. -/
theorem Kernel.caller_some
    {cfg : Config N} {k : Kernel N} {t : Fin N} (hCaller : t ∈ k.caller cfg) :
    k.schedActiveThread = some t ∧ k.runnable t = true := by
  unfold Kernel.caller Kernel.running at hCaller
  rcases Option.mem_filter_iff.mp hCaller with ⟨hRunning, hRuns⟩
  refine ⟨?_, hRuns⟩
  split at hRunning
  · cases hRunning
  · exact (Option.mem_filter_iff.mp hRunning).1

/- Recording a message keeps the kernel. -/
theorem IpcState.receive_kernel
    (s : IpcState N) (k : Kernel N) :
    (s.receive k).kernel = k := by
  unfold IpcState.receive
  split <;> rfl

/- So does recording the result of a receive call. -/
theorem IpcState.afterReceive_kernel
    (s : IpcState N) (result : Kernel N × Outcome) :
    (s.afterReceive result).kernel = result.1 := by
  rcases result with ⟨k, outcome⟩
  cases outcome with
  | returned value =>
    unfold IpcState.afterReceive
    dsimp only
    split
    · exact s.receive_kernel k
    · rfl
  | blocked =>
    unfold IpcState.afterReceive
    dsimp only
    split <;> rfl

namespace IpcLinked

variable {cfg : Config N} {k k' : Kernel N} {q : Nat → List (Fin N)}
variable {w : WaitHead N → List (Fin N)} {t : Fin N}

/- The condition in terms of the lists. -/
theorem first_of_mayWait
    (hI : IpcLinked cfg k q w) (hActive : k.schedActiveThread = some t)
    (hMay : k.ActiveMayWait) :
    (q (k.thread t).priority).head? = some t ∨ t ∉ q (k.thread t).priority := by
  have hQueue := hMay t hActive
  rw [hI.runqueue_eq (hI.prios t)] at hQueue
  exact hQueue

/- A thread that is in no list of senders waits nowhere. -/
theorem off_of_replyFinds
    {m : Msg} (hI : IpcLinked cfg k q w) (hFinds : k.ReplyFinds m) :
    ∀ v, k.schedThreads m.senderPid = some v →
      (k.thread v).status = .replyBlocked → ∀ h, v ∉ w h := by
  intro v hTarget hStatus h hIn
  rcases (hI.waiting h v hIn).1 with ⟨u, rfl⟩
  apply hFinds v hTarget hStatus u
  rw [hI.msgWaiters_eq]
  exact hIn

/- The steps of the scheduler. -/
theorem idleReturn
    (hI : IpcLinked cfg k q w) (hReturn : schedIdleReturn cfg k = some k') :
    ∃ q', IpcLinked cfg k' q' w := by
  unfold schedIdleReturn at hReturn
  split at hReturn
  · cases hReturn
  · rename_i previous frames _
    have hI₀ : IpcLinked cfg { k with idleFrames := frames } q w :=
      hI.congr rfl rfl (fun _ => rfl) (fun _ _ _ => rfl)
    exact hI₀.schedRunFrom (.inl rfl) hReturn

end IpcLinked

/- The lists of a state, whatever they are. -/
def IpcState.Linked
    (cfg : Config N) (s : IpcState N) : Prop :=
  ∃ q w, IpcLinked cfg s.kernel q w

namespace IpcState

variable {cfg : Config N} {s s' : IpcState N} {op : IpcOp}

/- No thread waits at the start. -/
theorem linked_of_start
    (hStart : (ipcSystem cfg).Start s) :
    s.Linked cfg := by
  rcases hStart with ⟨⟨q, hQ, hOwn, hServed⟩, hPrios, hLow, hNull, _, _⟩
  refine ⟨q, fun _ => [], ?_⟩
  constructor
  · exact
      { queues := hQ
        waits := fun h =>
          .inl (LinkMem.IsList.nil_iff.mpr (hNull h))
        apart := fun _ _ hIn => nomatch hIn
        single := fun _ _ _ hIn => nomatch hIn }
  · exact hOwn
  · exact hPrios
  · exact hLow
  · exact hServed
  · intro v
    rw [hNull]
    simp
  · intro h t hIn
    cases hIn

/- Every step that meets the condition keeps the lists. -/
theorem Linked.step
    (hLinked : s.Linked cfg) (hOk : IpcStep s op) (hEnabled : op.Enabled cfg s)
    (hExec : op.exec cfg s = some s') :
    s'.Linked cfg := by
  rcases hLinked with ⟨q, w, hI⟩
  cases op with
  | timerTick =>
    rcases Option.map_eq_some_iff.mp hExec with ⟨k, hRun, rfl⟩
    have hI₀ : IpcLinked cfg { s.kernel with runTimer := false } q w :=
      hI.congr rfl rfl (fun _ => rfl) (fun _ _ _ => rfl)
    rcases hI₀.schedRun hRun with ⟨q', hI'⟩
    exact ⟨q', w, hI'⟩
  | pendsv =>
    rcases Option.map_eq_some_iff.mp hExec with ⟨k, hRun, rfl⟩
    have hI₀ : IpcLinked cfg { s.kernel with pendsv := false } q w :=
      hI.congr rfl rfl (fun _ => rfl) (fun _ _ _ => rfl)
    rcases hI₀.schedRun hRun with ⟨q', hI'⟩
    exact ⟨q', w, hI'⟩
  | idleReturn =>
    rcases Option.map_eq_some_iff.mp hExec with ⟨k, hRun, rfl⟩
    rcases hI.idleReturn hRun with ⟨q', hI'⟩
    exact ⟨q', w, hI'⟩
  | msgInitQueue num =>
    rcases Option.map_eq_some_iff.mp hExec with ⟨k, hInit, rfl⟩
    rcases Option.bind_eq_some_iff.mp hInit with ⟨me, _, hRest⟩
    rcases Option.bind_eq_some_iff.mp hRest with ⟨cib, _, hLast⟩
    cases hLast
    exact ⟨q, w, hI.setQueue me cib _⟩
  | msgSend m targetPid =>
    rcases hEnabled with ⟨t, hCaller, _⟩
    rcases Kernel.caller_some hCaller with ⟨hActive, hRuns⟩
    rcases Option.map_eq_some_iff.mp hExec with ⟨⟨k, outcome⟩, hSend, rfl⟩
    refine hI.msgSend hActive hRuns ?_ hSend
    intro hOther hEnters
    exact hI.first_of_mayWait hActive (hOk hOther hEnters)
  | msgSendReceive m targetPid =>
    rcases hEnabled with ⟨t, hCaller, _⟩
    rcases Kernel.caller_some hCaller with ⟨hActive, hRuns⟩
    rcases Option.map_eq_some_iff.mp hExec with ⟨⟨k, outcome⟩, hSend, rfl⟩
    refine hI.msgSendReceive hActive hRuns ?_ hSend
    intro hEnters
    exact hI.first_of_mayWait hActive (hOk hEnters)
  | msgReply m reply =>
    rcases Option.map_eq_some_iff.mp hExec with ⟨⟨k, result⟩, hReply, rfl⟩
    rcases hI.msgReply (hI.off_of_replyFinds hOk) hReply with ⟨q', hI'⟩
    exact ⟨q', w, hI'⟩
  | msgReplyInt m reply =>
    rcases Option.map_eq_some_iff.mp hExec with ⟨⟨k, result⟩, hReply, rfl⟩
    rcases hI.msgReplyInt (hI.off_of_replyFinds hOk) hReply with ⟨q', hI'⟩
    refine ⟨q', w, ?_⟩
    unfold isrEnd
    split
    · exact hI'.flags
    · exact hI'
  | msgReceive =>
    rcases hEnabled with ⟨t, hCaller, _⟩
    rcases Kernel.caller_some hCaller with ⟨hActive, hRuns⟩
    rcases Option.map_eq_some_iff.mp hExec with ⟨⟨k, outcome⟩, hReceive, rfl⟩
    unfold Linked
    rw [s.afterReceive_kernel]
    exact hI.msgReceiveWith hActive hRuns hReceive
  | msgTryReceive =>
    rcases hEnabled with ⟨t, hCaller, _⟩
    rcases Kernel.caller_some hCaller with ⟨hActive, hRuns⟩
    rcases Option.map_eq_some_iff.mp hExec with ⟨⟨k, outcome⟩, hReceive, rfl⟩
    unfold Linked
    rw [s.afterReceive_kernel]
    exact hI.msgReceiveWith hActive hRuns hReceive
  | msgReceived =>
    cases hExec
    unfold Linked
    rw [s.receive_kernel]
    exact ⟨q, w, hI⟩

end IpcState

----
-- Runs
----

/- No idle thread; the last control block is main's. -/
def ipcConfig : Config 4 where
  coreIdleThread := false
  bitOrder := .clz
  idleStack := 0
  mainStack := 3
  stacks_ne := by decide

/-
  A server and a client at priority 1, and a third thread
  that sleeps; none has a message queue and main has ended.
-/
def ipcStart : IpcState 4 where
  kernel :=
    { Kernel.zero 4 with
      next := fun cell =>
        match cell with
        | .head (.runqueue 1) => .ref 1
        | .entry 0 => .ref 1
        | .entry 1 => .ref 0
        | _ => .null
      thread := fun t =>
        { Thread.zero 4 with
          status :=
            if t = 0 then
              .running
            else if t = 1 then
              .pending
            else if t = 2 then
              .sleeping
            else
              .stopped
          priority := 1
          pid := t + 2
          sTime := 5000
          msgQueue := ⟨0#32, 0#32, -1#32⟩ }
      schedThreads := fun pid =>
        if pid = 2 then
          some 0
        else if pid = 3 then
          some 1
        else if pid = 4 then
          some 2
        else
          none
      schedNumThreads := 3
      schedActiveThread := some 0
      schedActivePid := 2
      runqueueBitcache := BitOrder.clz.bit 1 }
  receiving := fun _ => false
  received := fun _ => []

/- Queue 1 has the two threads that can run. -/
theorem ipcStart_start :
    (ipcSystem ipcConfig).Start ipcStart := by
  have hFirst : LinkMem.IsCircular ipcStart.kernel.next (.runqueue 1) [0, 1] := by
    refine ⟨by decide, .inr ⟨[0], 1, rfl, rfl, ?_⟩⟩
    exact ⟨rfl, rfl⟩
  have hLow : ∀ p : Fin 32, 16 ≤ p.val → BitOrder.clz.test (BitOrder.clz.bit 1) p = false := by
    decide
  refine ⟨⟨fun p => if p = 1 then [0, 1] else [], ?_, ?_, ?_⟩, ?_, ?_, ?_, ?_, ?_⟩
  · constructor
    · intro p hp
      by_cases hOne : p = 1
      · subst hOne
        exact hFirst
      · rw [if_neg hOne]
        refine ⟨List.nodup_nil, .inl ⟨rfl, ?_⟩⟩
        simp [ipcStart, hOne]
    · intro p _ p' _ t hIn hIn'
      by_cases hOne : p = 1
      · by_cases hOne' : p' = 1
        · rw [hOne, hOne']
        · rw [if_neg hOne'] at hIn'
          cases hIn'
      · rw [if_neg hOne] at hIn
        cases hIn
  · intro p _ t hIn
    by_cases hOne : p = 1
    · rw [hOne]
      rfl
    · dsimp only at hIn
      rw [if_neg hOne] at hIn
      cases hIn
  · intro _
    decide
  · intro t
    exact (by decide : 1 < schedPrioLevels)
  · intro p hp hBound
    exact hLow ⟨p, hBound⟩ hp
  · intro h
    rfl
  · intro t
    rfl
  · intro t
    rfl

/- The server waits; the client then waits for the sleeper. -/
def waitingRun : List IpcOp :=
  [.msgReceive, .pendsv, .msgSend ⟨0, 11, 0⟩ 4]

/-
  The server answers the client's first request, later takes
  a plain message of it, and then answers the first request
  once more while the client waits for the sleeper.
-/
def lateReplyRun : List IpcOp :=
  [.msgReceive, .pendsv, .msgSendReceive ⟨0, 10, 0⟩ 2,
    .pendsv, .msgReceived, .msgReply ⟨3, 10, 0⟩ ⟨0, 20, 0⟩,
    .msgReceive, .pendsv, .msgSend ⟨0, 11, 0⟩ 2, .pendsv,
    .msgSendReceive ⟨0, 12, 0⟩ 4, .pendsv, .msgReceived, .msgReply ⟨3, 10, 0⟩ ⟨0, 21, 0⟩]

end Riot
