import Riot.Protocols.MsgTransfer

/-
  Every call on messages is a step of the abstract channels
  that the state implements.
-/

----
-- Refinement
----

namespace Riot

variable {N : Nat} {s : MsgState N} {k : Kernel N}
variable {w : WaitHead N → List (Fin N)} {sender : Option (Fin N)}
variable {t v x : Fin N} {m : Msg} {tag : Tag (Fin N) Msg}

namespace MsgState

/- A step of the channels, with the lists in order. -/
def Refines
    (s s' : MsgState N) : Prop :=
  Channels.Step s.channels s'.channels ∧ ∃ w, MsgLinked s'.kernel s'.call w

/- The queues and modes of the step, and its history. -/
theorem refines_of_step
    {s' : MsgState N} {c : Channels (Fin N) Msg}
    (hStep : Channels.Step s.channels c) (hLinked : MsgLinked s'.kernel s'.call w)
    (hQueues : s'.kernel.queues = c.queue)
    (hModes : s'.kernel.modes s'.call = c.mode) (hSent : s'.sent = c.sent)
    (hAccepted : s'.accepted = c.accepted)
    (hDelivered : s'.delivered = c.delivered) :
    s.Refines s' := by
  refine ⟨?_, w, hLinked⟩
  have hEq : s'.channels = c := by
    apply Channels.ext
    · exact hQueues
    · exact hModes
    · exact hSent
    · exact hAccepted
    · exact hDelivered
  rw [hEq]
  exact hStep

/- A thread outside every call is free to send. -/
theorem free_of_none
    (hCall : s.call t = none) :
    s.channels.Free (some t) := by
  rintro u ⟨⟩
  exact Kernel.modes_of_none hCall

/- Nothing keeps an interrupt from sending. -/
theorem free_isr
    (s : MsgState N) :
    s.channels.Free none := by
  rintro u ⟨⟩

/- Only a blocked receiver waits. -/
theorem not_receiving
    (hStatus : (s.kernel.thread v).status ≠ .receiveBlocked) :
    s.channels.mode v ≠ .receiving := by
  unfold channels MsgCall.mode
  dsimp only
  cases s.call v with
  | none => simp
  | some c =>
    cases c with
    | sending u tag => simp
    | receiving => simp [hStatus]

/- A blocked receiver waits. -/
theorem receiving_of_blocked
    (hCall : s.call v = some .receiving)
    (hStatus : (s.kernel.thread v).status = .receiveBlocked) :
    s.channels.mode v = .receiving := by
  unfold channels MsgCall.mode
  dsimp only
  rw [hCall, hStatus]
  rfl

/- A thread whose call is in order is settled. -/
theorem settleThread_of_ok
    (hOk : s.kernel.CallOk t (s.call t)) :
    s.settleThread t = s := by
  unfold settleThread
  cases hCall : s.call t with
  | none => rfl
  | some c =>
    rw [hCall] at hOk
    cases c with
    | sending v tag => exact if_pos hOk.1
    | receiving => rfl

/- Settling threads that all are settled. -/
theorem foldl_settleThread
    (l : List (Fin N)) (hSettled : ∀ t, s.settleThread t = s) :
    l.foldl settleThread s = s := by
  induction l with
  | nil => rfl
  | cons t l ih =>
    rw [List.foldl_cons, hSettled t]
    exact ih

/- Settling one thread that was released. -/
theorem settle_of_released
    (x : Fin N) (hOthers : ∀ t, t ≠ x → s.settleThread t = s)
    (hAfter : ∀ t, (s.settleThread x).settleThread t = s.settleThread x) :
    s.settle = s.settleThread x := by
  have hIn : x ∈ List.finRange N := List.mem_finRange x
  unfold settle
  generalize List.finRange N = l at hIn
  induction l with
  | nil => cases hIn
  | cons t l ih =>
    rw [List.foldl_cons]
    by_cases hEq : t = x
    · subst hEq
      exact foldl_settleThread l hAfter
    · rw [hOthers t hEq]
      rcases List.mem_cons.mp hIn with hSame | hRest
      · exact (hEq hSame.symm).elim
      · exact ih hRest

/- With its lists in order there is nothing to settle. -/
theorem settle_of_linked
    (hLinked : MsgLinked s.kernel s.call w) :
    s.settle = s :=
  foldl_settleThread _ (fun t => settleThread_of_ok (hLinked.calls t))

/- A state that was refined is settled. -/
theorem Refines.settle
    {s' : MsgState N} (hRefines : s.Refines s') :
    s.Refines s'.settle := by
  rcases hRefines with ⟨hStep, w, hLinked⟩
  rw [settle_of_linked hLinked]
  exact ⟨hStep, w, hLinked⟩

end MsgState

----
-- Sending
----

variable {call : Fin N → Option (MsgCall N)}

/- The object of a thread outside every call. -/
theorem Kernel.setBuffer_modes
    (m : Msg) (hCall : call t = none) :
    (k.setBuffer t m).modes call = k.modes call := by
  funext u
  apply MsgCall.mode_congr rfl
  intro hSome
  apply Function.update_of_ne
  rintro rfl
  exact hSome hCall

/- A wait pointer is no part of the queues. -/
theorem Kernel.setWaitData_queues
    (k : Kernel N) (t : Fin N) (waitData : Option (Fin N)) :
    (k.setWaitData t waitData).queues = k.queues := by
  funext u
  exact k.setThread_keeps Thread.queued rfl u

/- Neither is it one of the modes. -/
theorem Kernel.setWaitData_modes
    (k : Kernel N) (t : Fin N) (waitData : Option (Fin N)) :
    (k.setWaitData t waitData).modes call = k.modes call := by
  funext u
  apply MsgCall.mode_congr
  · exact k.setThread_keeps Thread.status rfl u
  · intro _
    rfl

/- The thread with the new queue. -/
theorem Kernel.setQueue_same
    (k : Kernel N) (v : Fin N) (cib : Cib) (array : Option (Nat → Msg)) :
    (k.setQueue v cib array).thread v = { k.thread v with msgQueue := cib, msgArray := array } :=
  k.setThread_thread_same v _

/- Every other thread. -/
theorem Kernel.setQueue_of_ne
    {u : Fin N} (k : Kernel N) (cib : Cib) (array : Option (Nat → Msg))
    (hNe : u ≠ v) :
    (k.setQueue v cib array).thread u = k.thread u :=
  k.setThread_thread_of_ne _ hNe

/- A new queue, in terms of its items. -/
theorem Kernel.setQueue_queues
    (k : Kernel N) (v : Fin N) (cib : Cib) (array : Nat → Msg) :
    (k.setQueue v cib (some array)).queues = Function.update k.queues v (cibItems cib array) := by
  funext u
  unfold queues setQueue
  by_cases hEq : u = v
  · subst hEq
    rw [setThread_thread_same, Function.update_self]
    rfl
  · rw [setThread_thread_of_ne k _ hEq, Function.update_of_ne hEq]

/- A new queue leaves the modes. -/
theorem Kernel.setQueue_modes
    (k : Kernel N) (v : Fin N) (cib : Cib) (array : Option (Nat → Msg)) :
    (k.setQueue v cib array).modes call = k.modes call := by
  funext u
  apply MsgCall.mode_congr
  · exact k.setThread_keeps Thread.status rfl u
  · intro _
    rfl

namespace MsgState

/-
  A message that is queued if there is space, by a sender
  that is not blocked.  The kernel `k` has the sender's
  object; the send call continues with the two results.
-/
theorem refines_queueMsg
    (hFree : s.channels.Free sender) (hLinked : MsgLinked k s.call w)
    (hQueues : k.queues = s.kernel.queues)
    (hModes : k.modes s.call = s.kernel.modes s.call)
    (hStatus : (s.kernel.thread v).status ≠ .receiveBlocked) (m : Msg) :
    queueMsg k v m = some (k, false) ∨ ∃ k', queueMsg k v m = some (k', true) ∧
          (∃ w, MsgLinked k' s.call w) ∧
          s.Refines ((s.count sender k').accept v ⟨sender, s.sent sender, m⟩) := by
  rcases queueMsg_cases m (hLinked.queues v) with hFull | ⟨j, cib, array, hPut, hHolds, hItems⟩
  · exact .inl hFull
  · right
    have hLinked' : MsgLinked (k.setQueue v cib (some array)) s.call w := hLinked.setQueue hHolds
    refine ⟨_, hPut, ⟨w, hLinked'⟩, ?_⟩
    refine refines_of_step
      (.enqueue s.channels sender v m hFree (not_receiving hStatus))
      hLinked' ?_ ?_ rfl rfl rfl
    · have hQueue : (k.thread v).queued = s.channels.queue v := congrFun hQueues v
      refine (k.setQueue_queues v cib array).trans ?_
      rw [hItems, hQueue, hQueues]
      rfl
    · exact (k.setQueue_modes v cib _).trans hModes

/- A message that is handed to a blocked receiver. -/
theorem refines_copyToWaiting
    (hFree : s.channels.Free sender) (hLinked : MsgLinked k s.call w)
    (hQueues : k.queues = s.kernel.queues)
    (hModes : k.modes s.call = s.kernel.modes s.call)
    (hThread : k.thread v = s.kernel.thread v)
    (hStatus : (s.kernel.thread v).status = .receiveBlocked) (m : Msg) :
    ∃ k', copyToWaiting storeStatus k v m = some k' ∧ MsgLinked k' s.call w ∧ ∀ k'',
          k''.next = k'.next → k''.thread = k'.thread → k''.msgBuffer = k'.msgBuffer →
          s.Refines ((s.count sender k'').accept v ⟨sender, s.sent sender, m⟩) := by
  have hBlocked : (k.thread v).status = .receiveBlocked := by
    rw [hThread]
    exact hStatus
  rcases hLinked.copyToWaiting m hBlocked with ⟨k', hCopy, hLinked', hCall, hQueues', hModes'⟩
  refine ⟨k', hCopy, hLinked', ?_⟩
  intro k'' hNext hThreads hBuffer
  refine refines_of_step
    (.hand s.channels sender v m hFree (receiving_of_blocked hCall hStatus))
    (hLinked'.congr hNext hThreads hBuffer) ?_ ?_ rfl rfl rfl
  · have hSame : k''.queues = k'.queues := by
      unfold Kernel.queues
      rw [hThreads]
    exact hSame.trans (hQueues'.trans hQueues)
  · have hSame : k''.modes s.call = k'.modes s.call := by
      unfold Kernel.modes
      rw [hThreads, hBuffer]
    refine hSame.trans (hModes'.trans ?_)
    rw [hModes]
    rfl

/- The kernel when a thread has stored its message. -/
theorem linked_dispatch
    (hLinked : MsgLinked s.kernel s.call w) (m : Msg) (hCall : s.call t = none) :
    MsgLinked ((s.kernel.dispatch t).setBuffer t m) s.call w ∧
      ((s.kernel.dispatch t).setBuffer t m).queues = s.kernel.queues ∧
      ((s.kernel.dispatch t).setBuffer t m).modes s.call = s.kernel.modes s.call := by
  refine ⟨?_, rfl, ?_⟩
  · apply MsgLinked.setBuffer _ hCall
    exact hLinked.congr rfl rfl rfl
  · exact Kernel.setBuffer_modes m hCall

/- A caller outside every call waits for no reply. -/
theorem sendOutcome_eq
    (hLinked : MsgLinked k s.call w) (hCall : s.call t = none) :
    sendOutcome k t = .returned 1 ∧ yieldForReply k t = k := by
  have hOk := hLinked.calls t
  rw [hCall] at hOk
  exact ⟨if_neg hOk.2.2, if_neg hOk.2.2⟩

/- A message that its sender waits with. -/
theorem refines_sendBlocking
    (hCall : s.call t = none) (hLinked : MsgLinked k s.call w)
    (hQueues : k.queues = s.kernel.queues)
    (hModes : k.modes s.call = s.kernel.modes s.call) (v : Fin N)
    (hMsg : k.msgBuffer t = m) :
    ∃ k', sendBlocking storeStatus k t v = some k' ∧
        s.Refines (s.sentBy (some t) (some v) m (threadYieldHigher k', .blocked)) := by
  have hTag : k.msgBuffer t = (⟨some t, s.sent (some t), m⟩ : Tag (Fin N) Msg).msg := hMsg
  rcases hLinked.sendBlocking v hCall hTag with ⟨k', w', hBlock, hLinked', hQueues', hModes'⟩
  refine ⟨k', hBlock, ?_⟩
  refine refines_of_step
    (.block s.channels t v m (free_of_none hCall t rfl))
    (hLinked'.congr rfl rfl rfl) ?_ ?_ rfl rfl rfl
  · exact hQueues'.trans hQueues
  · refine Eq.trans hModes' ?_
    rw [hModes]
    rfl

/- The function `_msg_send`. -/
theorem refines_msgSendWith
    (hLinked : MsgLinked s.kernel s.call w) (hCall : s.call t = none)
    (m : Msg) (targetPid : Int) (block : Bool) :
    ∃ result, msgSendWith storeStatus (s.kernel.dispatch t) m targetPid block = some result ∧
        s.Refines (s.sentBy (some t) (s.kernel.schedThreads targetPid) (s.stamped t m) result) := by
  have hFree : s.channels.Free (some t) := free_of_none hCall
  rcases linked_dispatch hLinked (s.stamped t m) hCall with ⟨hLinked₀, hQueues₀, hModes₀⟩
  generalize hk₀ : (s.kernel.dispatch t).setBuffer t (s.stamped t m) = k₀
    at hLinked₀ hQueues₀ hModes₀
  have hThread₀ : k₀.thread = s.kernel.thread := by
    rw [← hk₀]
    rfl
  have hActive : (s.kernel.dispatch t).schedActiveThread = some t := rfl
  have hStamp :
      ({ m with senderPid := (s.kernel.dispatch t).schedActivePid } : Msg) = s.stamped t m := rfl
  have hThreads₀ : k₀.schedThreads = s.kernel.schedThreads := by
    rw [← hk₀]
    rfl
  rw [msgSendWith, hActive]
  simp only [Option.bind_eq_bind, Option.bind_some, hStamp, hk₀, hThreads₀, hThread₀]
  cases s.kernel.schedThreads targetPid with
  | none =>
    refine ⟨_, rfl, ?_⟩
    exact refines_of_step (.fail s.channels (some t) hFree) hLinked₀ hQueues₀ hModes₀ rfl rfl rfl
  | some v =>
    dsimp only
    by_cases hStatus : (s.kernel.thread v).status = .receiveBlocked
    · rw [if_neg (not_not_intro hStatus)]
      rcases refines_copyToWaiting hFree hLinked₀ hQueues₀
          hModes₀ (congrFun hThread₀ v) hStatus
          (s.stamped t m) with
        ⟨k₁, hCopy, hLinked₁, hRefines⟩
      rw [hCopy, Option.bind_some, (sendOutcome_eq hLinked₁ hCall).1]
      exact ⟨_, rfl, hRefines _ rfl rfl rfl⟩
    · rw [if_pos hStatus]
      rcases refines_queueMsg hFree hLinked₀ hQueues₀
          hModes₀ hStatus (s.stamped t m) with
        hFull | ⟨k₁, hPut, ⟨w₁, hLinked₁⟩, hRefines⟩
      · rw [hFull, Option.bind_some]
        cases block with
        | false =>
          refine ⟨_, rfl, ?_⟩
          exact refines_of_step
            (.fail s.channels (some t) hFree) hLinked₀
            hQueues₀ hModes₀ rfl rfl rfl
        | true =>
          have hMsg : k₀.msgBuffer t = s.stamped t m := by
            rw [← hk₀]
            exact Function.update_self _ _ _
          rcases refines_sendBlocking hCall hLinked₀
              hQueues₀ hModes₀ v hMsg with
            ⟨k₂, hBlock, hRefines⟩
          simp only [Bool.false_eq_true, if_false, Bool.not_true]
          rw [hBlock, Option.bind_some]
          exact ⟨_, rfl, hRefines⟩
      · rw [hPut, Option.bind_some]
        dsimp only
        rw [if_pos rfl, (sendOutcome_eq hLinked₁ hCall).1, (sendOutcome_eq hLinked₁ hCall).2]
        exact ⟨_, rfl, hRefines⟩

/- Sending to oneself. -/
theorem refines_msgSendToSelf
    (hLinked : MsgLinked s.kernel s.call w) (hCall : s.call t = none) (m : Msg) :
    ∃ result, msgSendToSelf (s.kernel.dispatch t) m = some result ∧
        s.Refines (s.sentBy (some t) (some t) (s.stamped t m) result) := by
  have hFree : s.channels.Free (some t) := free_of_none hCall
  have hOk := hLinked.calls t
  rw [hCall] at hOk
  rcases linked_dispatch hLinked (s.stamped t m) hCall with ⟨hLinked₀, hQueues₀, hModes₀⟩
  generalize hk₀ : (s.kernel.dispatch t).setBuffer t (s.stamped t m) = k₀
    at hLinked₀ hQueues₀ hModes₀
  have hActive : (s.kernel.dispatch t).schedActiveThread = some t := rfl
  have hStamp :
      ({ m with senderPid := (s.kernel.dispatch t).schedActivePid } : Msg) = s.stamped t m := rfl
  rw [msgSendToSelf, hActive]
  simp only [Option.bind_eq_bind, Option.bind_some, hStamp, hk₀]
  rcases refines_queueMsg hFree hLinked₀ hQueues₀ hModes₀
      hOk.2.1 (s.stamped t m) with
    hFull | ⟨k₁, hPut, _, hRefines⟩
  · rw [hFull, Option.bind_some]
    refine ⟨_, rfl, ?_⟩
    exact refines_of_step (.fail s.channels (some t) hFree) hLinked₀ hQueues₀ hModes₀ rfl rfl rfl
  · rw [hPut, Option.bind_some]
    exact ⟨_, rfl, hRefines⟩

/- Sending from an interrupt handler. -/
theorem refines_msgSendInt
    (hLinked : MsgLinked s.kernel s.call w) (m : Msg) (targetPid : Int) :
    ∃ result, msgSendInt storeStatus s.kernel m targetPid = some result ∧ s.Refines
          (s.sentBy none (s.kernel.schedThreads targetPid) { m with senderPid := kernelPidIsr }
            (result.1, .returned result.2)) := by
  have hFree : s.channels.Free none := s.free_isr
  unfold msgSendInt msgSendOneway
  generalize { m with senderPid := kernelPidIsr } = m'
  cases s.kernel.schedThreads targetPid with
  | none =>
    refine ⟨_, rfl, ?_⟩
    exact refines_of_step (.fail s.channels none hFree) hLinked rfl rfl rfl rfl rfl
  | some v =>
    dsimp only
    by_cases hStatus : (s.kernel.thread v).status = .receiveBlocked
    · rw [if_pos hStatus]
      rcases refines_copyToWaiting hFree hLinked rfl rfl rfl
          hStatus m' with
        ⟨k₁, hCopy, _, hRefines⟩
      rw [hCopy]
      exact ⟨_, rfl, hRefines _ rfl rfl rfl⟩
    · rw [if_neg hStatus]
      rcases refines_queueMsg hFree hLinked rfl rfl hStatus m' with hFull | ⟨k₁, hPut, _, hRefines⟩
      · rw [hFull]
        refine ⟨_, rfl, ?_⟩
        exact refines_of_step (.fail s.channels none hFree) hLinked rfl rfl rfl rfl rfl
      · rw [hPut]
        exact ⟨_, rfl, hRefines⟩

/- A send call of a thread, to itself or to another. -/
theorem refines_msgSendFrom
    (hLinked : MsgLinked s.kernel s.call w) (hCall : s.call t = none)
    (m : Msg) (targetPid : Int) (block : Bool) :
    ∃ result, msgSendFrom storeStatus (s.kernel.dispatch t) m targetPid block = some result ∧
        s.Refines (s.sentBy (some t) (s.targetOf t targetPid) (s.stamped t m) result) := by
  unfold msgSendFrom targetOf
  rw [Kernel.dispatch_schedActivePid]
  split
  · exact refines_msgSendToSelf hLinked hCall m
  · exact refines_msgSendWith hLinked hCall m targetPid block

end MsgState

----
-- Receiving
----

variable {mem : LinkMem (ListHead N) (Fin N)}
variable {u : Fin N} {l : List (Fin N)}

namespace Kernel

/- A sender that left its list and was woken. -/
def released
    (k : Kernel N) (mem : LinkMem (ListHead N) (Fin N)) (x : Fin N) : Kernel N :=
  (({ k with next := mem } : Kernel N).setWaitData x none).setStatus x .pending

/- The woken sender. -/
theorem released_same
    (k : Kernel N) (mem : LinkMem (ListHead N) (Fin N)) (x : Fin N) :
    (k.released mem x).thread x = { k.thread x with
        status := .pending
        waitData := none } := by
  simp [released, setStatus, setWaitData]

/- Every other thread. -/
theorem released_of_ne
    (k : Kernel N) (mem : LinkMem (ListHead N) (Fin N)) (hNe : u ≠ x) :
    (k.released mem x).thread u = k.thread u := by
  unfold released setStatus setWaitData
  rw [setThread_thread_of_ne _ _ hNe, setThread_thread_of_ne _ _ hNe]

/- Waking a sender leaves the queues. -/
theorem released_queues
    (k : Kernel N) (mem : LinkMem (ListHead N) (Fin N)) (x : Fin N) :
    (k.released mem x).queues = k.queues := by
  funext u
  unfold queues
  by_cases hEq : u = x
  · subst hEq
    rw [released_same]
    rfl
  · rw [k.released_of_ne mem hEq]

/- Leaving a call makes one thread idle. -/
theorem released_modes
    (k : Kernel N) (mem : LinkMem (ListHead N) (Fin N)) (x : Fin N) :
    (k.released mem x).modes (Function.update call x none) =
      Function.update (k.modes call) x .idle := by
  refine (modes_update (k := k) call (t := x) ?_ ?_ ?_).trans ?_
  · intro u hNe
    exact Function.update_of_ne hNe _ _
  · intro u hNe
    rw [k.released_of_ne mem hNe]
  · intro u _ _
    rfl
  · rw [Function.update_self]
    rfl

end Kernel

namespace MsgLinked

/- The data of the first waiter. -/
theorem first_waiter
    (hLinked : MsgLinked k call w) (hList : w (.msgWaiters v) = x :: l) :
    ∃ tag, call x = some (.sending v tag) ∧ (k.thread x).status = .sendBlocked ∧
        (k.thread x).waitData = some x ∧ k.msgBuffer x = tag.msg := by
  have hIn : x ∈ w (.msgWaiters v) := by
    rw [hList]
    exact List.mem_cons_self
  rcases hLinked.of_waiting hIn with ⟨tag, hSends⟩
  have hOk := hLinked.calls x
  rw [hSends] at hOk
  exact ⟨tag, hSends, hOk⟩

/- The first waiter is released. -/
theorem release
    (hLinked : MsgLinked k call w) (hList : w (.msgWaiters v) = x :: l)
    (hLists : WaitLists mem (Function.update w (.msgWaiters v) l))
    (hNe : mem (.head (.waiting (.msgWaiters v))) ≠ .mark)
    (hHeads : ∀ c, c ≠ .waiting (.msgWaiters v) → mem (.head c) = k.next (.head c)) :
    MsgLinked (k.released mem x) (Function.update call x none)
      (Function.update w (.msgWaiters v) l) := by
  have hIn : x ∈ w (.msgWaiters v) := by
    rw [hList]
    exact List.mem_cons_self
  have hOnly : ∀ h, x ∈ w h → h = .msgWaiters v := fun h hIn' => hLinked.lists.single _ _ x hIn' hIn
  have hNodup := (hLinked.lists.waits (.msgWaiters v)).nodup
  rw [hList, List.nodup_cons] at hNodup
  refine hLinked.change x hLists ?_ ?_
    (fun u hNe => Function.update_of_ne hNe _ _)
    (fun u hNe => k.released_of_ne mem hNe)
    (fun _ _ => rfl) ?_ ?_
  · intro u
    by_cases hEq : u = v
    · subst hEq
      exact hNe
    · refine ne_of_eq_of_ne ?_ (hLinked.unmarked u)
      exact hHeads _ (by simpa using hEq)
  · intro h u
    by_cases hEq : u = x
    · subst hEq
      rw [Function.update_self]
      refine iff_of_false ?_ ?_
      · intro hStill
        by_cases hHead : h = .msgWaiters v
        · subst hHead
          rw [Function.update_self] at hStill
          exact hNodup.1 hStill
        · rw [Function.update_of_ne hHead] at hStill
          exact hHead (hOnly h hStill)
      · rintro ⟨_, _, _, hNone⟩
        cases hNone
    · rw [Function.update_of_ne hEq, ← hLinked.waiting h u]
      by_cases hHead : h = .msgWaiters v
      · subst hHead
        rw [Function.update_self, hList, List.mem_cons]
        exact (or_iff_right hEq).symm
      · rw [Function.update_of_ne hHead]
  · rw [Function.update_self]
    unfold Kernel.CallOk
    rw [k.released_same mem x]
    refine ⟨?_, ?_, ?_⟩
    · simp
    · simp
    · simp
  · rw [k.released_same mem x]
    exact hLinked.queues x

/- A receiver waits for a message. -/
theorem startReceiving
    (hLinked : MsgLinked k call w) (hCall : call t = none) :
    MsgLinked (k.blockWith t .receiveBlocked) (Function.update call t (some .receiving)) w := by
  have hBlocked := k.blockWith_same t .receiveBlocked
  refine hLinked.change t hLinked.lists hLinked.unmarked ?_
    (fun u hNe => Function.update_of_ne hNe _ _)
    (fun u hNe => k.blockWith_of_ne _ hNe)
    (fun _ _ => rfl) ?_ ?_
  · intro h u
    rw [hLinked.waiting h u]
    by_cases hEq : u = t
    · subst hEq
      rw [Function.update_self, hCall]
      simp
    · rw [Function.update_of_ne hEq]
  · rw [Function.update_self]
    left
    refine ⟨?_, ?_⟩
    · exact congrArg Thread.status hBlocked
    · exact congrArg Thread.waitData hBlocked
  · rw [hBlocked]
    exact hLinked.queues t

/- The wait pointer of a thread outside every call. -/
theorem setWaitData
    {waitData : Option (Fin N)} (hLinked : MsgLinked k call w)
    (hCall : call t = none) :
    MsgLinked (k.setWaitData t waitData) call w := by
  refine hLinked.change t hLinked.lists hLinked.unmarked
    hLinked.waiting (fun _ _ => rfl) ?_ (fun _ _ => rfl) ?_ ?_
  · intro u hNe
    exact Kernel.setThread_thread_of_ne _ _ hNe
  · have hOk := hLinked.calls t
    rw [hCall] at hOk ⊢
    unfold Kernel.CallOk Kernel.setWaitData
    rw [Kernel.setThread_thread_same]
    exact hOk
  · unfold Kernel.setWaitData
    rw [Kernel.setThread_thread_same]
    exact hLinked.queues t

end MsgLinked

/- The release of a sender, up to the flags of a yield. -/
theorem releaseSender_eq
    (mem : LinkMem (ListHead N) (Fin N)) (hActive : k.schedActiveThread = some t)
    (hStatus : (k.thread x).status = .sendBlocked) :
    ∃ k', releaseSender storeStatus { k with next := mem } x =
          some k' ∧ k'.next = (k.released mem x).next ∧ k'.thread = (k.released mem x).thread ∧
        k'.msgBuffer = k.msgBuffer := by
  have hRelease : releaseSender storeStatus { k with next := mem } x =
        if ((k.released mem x).thread x).priority < threadPriorityIdle then
          schedSwitch false (k.released mem x) ((k.released mem x).thread x).priority
        else
          some (k.released mem x) := by
    unfold releaseSender
    dsimp only
    rw [if_pos (by rw [hStatus]; decide)]
    rfl
  rw [hRelease]
  split
  · rcases schedSwitch_eq false
        ((k.released mem x).thread x).priority
        (k := k.released mem x) hActive with
      ⟨k', hSwitch, c, p, hEq⟩
    refine ⟨k', hSwitch, ?_, ?_, ?_⟩
    · rw [hEq]
    · rw [hEq]
    · rw [hEq]
      rfl
  · exact ⟨_, rfl, rfl, rfl, rfl⟩

namespace MsgState

/- A released sender ends its call. -/
theorem settle_of_release
    (hLinked : MsgLinked s.kernel (Function.update s.call x none) w)
    (hCall : s.call x = some (.sending v tag)) :
    s.settle = { s.accept v tag with
        call := Function.update s.call x none } := by
  have hOk := hLinked.calls x
  rw [Function.update_self] at hOk
  have hSelf : s.settleThread x = { s.accept v tag with
          call := Function.update s.call x none } := by
    unfold settleThread
    rw [hCall]
    exact if_neg hOk.1
  rw [← hSelf]
  apply settle_of_released x
  · intro u hNe
    have hOther := hLinked.calls u
    rw [Function.update_of_ne hNe] at hOther
    exact settleThread_of_ok hOther
  · intro u
    rw [hSelf]
    exact settleThread_of_ok (hLinked.calls u)

/-
  The last part of a receive call that finds a sender
  waiting.  The kernel `k` has the caller's message and the
  sender's message already.
-/
theorem settle_releaseSender
    (hLinked : MsgLinked k s.call w) (hActive : k.schedActiveThread = some t)
    (hCall : s.call t = none) (hList : w (.msgWaiters t) = x :: l)
    (hSends : s.call x = some (.sending t tag))
    (hLists : WaitLists mem (Function.update w (.msgWaiters t) l))
    (hNe : mem (.head (.waiting (.msgWaiters t))) ≠ .mark)
    (hHeads : ∀ c, c ≠ .waiting (.msgWaiters t) → mem (.head c) = k.next (.head c)) :
    ∃ k', releaseSender storeStatus { k with next := mem } x = some k' ∧ (s.deliver t k').settle =
          { (s.deliver t k').accept t tag with call := Function.update s.call x none } ∧
        MsgLinked k' (Function.update s.call x none) (Function.update w (.msgWaiters t) l) ∧
        k'.queues = k.queues ∧
        k'.modes (Function.update s.call x none) = Function.update (k.modes s.call) x .idle ∧
        k'.msgBuffer = k.msgBuffer ∧ k'.thread t = k.thread t := by
  have hBlocked : (k.thread x).status = .sendBlocked := by
    have hOk := hLinked.calls x
    rw [hSends] at hOk
    exact hOk.1
  have hOther : t ≠ x := by
    rintro rfl
    rw [hCall] at hSends
    cases hSends
  rcases releaseSender_eq mem hActive hBlocked with ⟨k', hRelease, hNext, hThread, hBuffer⟩
  have hLinked' :
      MsgLinked k' (Function.update s.call x none) (Function.update w (.msgWaiters t) l) :=
    (hLinked.release hList hLists hNe hHeads).congr hNext hThread hBuffer
  refine ⟨k', hRelease, ?_, hLinked', ?_, ?_, hBuffer, ?_⟩
  · exact settle_of_release (s := s.deliver t k') hLinked' hSends
  · refine Eq.trans ?_ (k.released_queues mem x)
    unfold Kernel.queues
    rw [hThread]
  · refine Eq.trans ?_ (k.released_modes mem x)
    unfold Kernel.modes
    rw [hThread, hBuffer]
    rfl
  · rw [hThread]
    exact k.released_of_ne mem hOther

/-
  The caller has returned with the first of its queued
  messages, if there was one.
-/
def Received
    (s : MsgState N) (t : Fin N) (s' : MsgState N) : Prop :=
  ∀ m rest, (s.kernel.thread t).queued = m :: rest → s'.delivered t = s.delivered t ++ [m] ∧
        s'.call t = none ∧ (s'.kernel.thread t).status = (s.kernel.thread t).status

/- Nothing is queued, and nobody waits. -/
theorem refines_receive_none
    (hLinked : MsgLinked s.kernel s.call w) (hCall : s.call t = none) (block : Bool)
    (hTake : takeQueued (s.kernel.dispatch t) t = (s.kernel.dispatch t, none))
    (hEmpty : (s.kernel.thread t).queued = []) (hNil : w (.msgWaiters t) = []) :
    ∃ result, msgReceiveWith storeStatus (s.kernel.dispatch t) block = some result ∧
        s.Refines (s.receivedBy t result).settle := by
  have hIdle : s.channels.mode t = .idle := Kernel.modes_of_none hCall
  have hNull := hLinked.lists.null_of_nil (hLinked.unmarked t) hNil
  have hLinked₀ : MsgLinked (s.kernel.dispatch t) s.call w := hLinked.congr rfl rfl rfl
  rw [msgReceiveWith_none block rfl hTake hNull]
  cases block with
  | false =>
    refine ⟨_, rfl, Refines.settle ?_⟩
    exact refines_of_step (.skip s.channels) hLinked₀ rfl rfl
      rfl rfl rfl
  | true =>
    have hLinked' : MsgLinked
          (threadYieldHigher ((s.kernel.dispatch t).blockWith t .receiveBlocked))
          (Function.update s.call t (some .receiving)) w :=
      (hLinked₀.startReceiving hCall).congr rfl rfl rfl
    refine ⟨_, rfl, Refines.settle ?_⟩
    refine refines_of_step (.wait s.channels t hIdle hEmpty) hLinked' ?_ ?_ rfl rfl rfl
    · exact (s.kernel.dispatch t).blockWith_queues t .receiveBlocked
    · exact (s.kernel.dispatch t).blockWith_modes t .receiveBlocked .receiving

/- Nothing is queued, but a sender waits. -/
theorem refines_receive_direct
    (hLinked : MsgLinked s.kernel s.call w) (hCall : s.call t = none) (block : Bool)
    (hTake : takeQueued (s.kernel.dispatch t) t = (s.kernel.dispatch t, none))
    (hEmpty : (s.kernel.thread t).queued = [])
    (hList : w (.msgWaiters t) = x :: l) :
    ∃ result, msgReceiveWith storeStatus (s.kernel.dispatch t) block = some result ∧
        s.Refines (s.receivedBy t result).settle := by
  have hIdle : s.channels.mode t = .idle := Kernel.modes_of_none hCall
  rcases Links.takeFirst hLinked.lists hList with ⟨mem, hRemove, hLists, hNe, hHeads⟩
  rcases hLinked.first_waiter hList with ⟨tag, hSends, _, hData, hMsg⟩
  have hOther : x ≠ t := by
    rintro rfl
    rw [hCall] at hSends
    cases hSends
  have hRef : (s.kernel.dispatch t).next (.head (.waiting (.msgWaiters t))) ≠ .null := by
    rw [Kernel.dispatch_next, hLinked.lists.head_of_cons hList]
    simp
  -- The kernel with the message in the caller's object.
  have hLinked₁ :
      MsgLinked (((s.kernel.dispatch t).setWaitData t (some t)).setBuffer t tag.msg) s.call w := by
    apply MsgLinked.setBuffer _ hCall
    apply MsgLinked.setWaitData _ hCall
    exact hLinked.congr rfl rfl rfl
  have hQueues₁ : (((s.kernel.dispatch t).setWaitData t
          (some t)).setBuffer t tag.msg).queues = s.kernel.queues :=
    (s.kernel.dispatch t).setWaitData_queues t (some t)
  have hModes₁ : (((s.kernel.dispatch t).setWaitData t
          (some t)).setBuffer t tag.msg).modes s.call = s.kernel.modes s.call := by
    refine (Kernel.setBuffer_modes tag.msg hCall).trans ?_
    exact (s.kernel.dispatch t).setWaitData_modes t (some t)
  rcases settle_releaseSender hLinked₁ rfl hCall hList hSends
      hLists hNe hHeads with
    ⟨k', hRelease, hSettle, hLinked', hQueues', hModes', hBuffer', _⟩
  have hDelivered : k'.msgBuffer t = tag.msg := by
    rw [hBuffer']
    exact Function.update_self _ _ _
  refine ⟨(k', .returned 1), ?_, ?_⟩
  · rw [msgReceiveWith_sender block rfl hTake rfl hRef hRemove, copyFromSender_direct]
    · dsimp only
      rw [← hMsg] at hRelease
      rw [Option.bind_some]
      have hSame : releaseSender storeStatus
              (({ (s.kernel.dispatch t).setWaitData t
                    (some t) with next := mem } :
                  Kernel N).setBuffer t
                (s.kernel.msgBuffer x)) x = some k' :=
        hRelease
      exact congrArg (Option.map _) hSame
    · have hSame : ((s.kernel.dispatch t).setWaitData t (some t)).thread x = s.kernel.thread x :=
        Kernel.setThread_thread_of_ne _ _ hOther
      dsimp only
      rw [hSame]
      exact hData
  · refine Eq.mpr (congrArg s.Refines hSettle) ?_
    refine refines_of_step
      (.direct s.channels t x tag hIdle hEmpty (Kernel.modes_of_sending hSends))
      hLinked' ?_ ?_ rfl rfl ?_
    · exact hQueues'.trans hQueues₁
    · refine Eq.trans hModes' ?_
      rw [hModes₁]
      rfl
    · unfold accept deliver Channels.accept Channels.setMode Channels.deliver
      dsimp only
      rw [hDelivered]
      rfl

/- A message is queued, and nobody waits. -/
theorem refines_receive_take
    {j n : Nat} {cib : Cib} {array : Nat → Msg}
    (hLinked : MsgLinked s.kernel s.call w) (hCall : s.call t = none) (block : Bool)
    (hTake : takeQueued (s.kernel.dispatch t) t =
        ((s.kernel.dispatch t).setQueue t cib (some array), some n))
    (hHolds : CibHolds j cib)
    (hItems : (s.kernel.thread t).queued = array n :: cibItems cib array)
    (hNil : w (.msgWaiters t) = []) :
    ∃ result, msgReceiveWith storeStatus (s.kernel.dispatch t) block = some result ∧
        s.Refines (s.receivedBy t result).settle ∧
        s.Received t (s.receivedBy t result).settle := by
  have hIdle : s.channels.mode t = .idle := Kernel.modes_of_none hCall
  have hNull := hLinked.lists.null_of_nil (hLinked.unmarked t) hNil
  generalize hk : ((s.kernel.dispatch t).setQueue t cib (some array)).setBuffer t (array n) = k'
  have hLinked' : MsgLinked k' s.call w := by
    rw [← hk]
    apply MsgLinked.setBuffer _ hCall
    apply MsgLinked.setQueue _ hHolds
    exact hLinked.congr rfl rfl rfl
  have hBuffer : k'.msgBuffer t = array n := by
    rw [← hk]
    exact Function.update_self _ _ _
  have hStatus : (k'.thread t).status = (s.kernel.thread t).status := by
    have hSame := congrArg Thread.status ((s.kernel.dispatch t).setQueue_same t cib (some array))
    rw [← hk]
    exact hSame
  have hSettle : (s.deliver t k').settle = s.deliver t k' :=
    settle_of_linked (s := s.deliver t k') hLinked'
  refine ⟨(k', .returned 1), ?_, ?_, ?_⟩
  · rw [msgReceiveWith_take block rfl hTake hNull, hk]
  · refine Refines.settle ?_
    refine refines_of_step
      (.take s.channels t (array n) (cibItems cib array) hIdle hItems) hLinked' ?_ ?_ rfl rfl ?_
    · rw [← hk]
      exact (s.kernel.dispatch t).setQueue_queues t cib array
    · rw [← hk]
      refine (Kernel.setBuffer_modes _ hCall).trans ?_
      exact (s.kernel.dispatch t).setQueue_modes t cib _
    · unfold receivedBy deliver Channels.deliver
      dsimp only
      rw [hBuffer]
      rfl
  · intro m rest hQueued
    rw [hItems] at hQueued
    cases hQueued
    have hFinal : (s.receivedBy t (k', .returned 1)).settle = s.deliver t k' := hSettle
    rw [hFinal]
    refine ⟨?_, hCall, hStatus⟩
    unfold deliver
    dsimp only
    rw [Function.update_self, hBuffer]

/- A message is queued, and a sender waits. -/
theorem refines_receive_refill
    {j n : Nat} {cib : Cib} {array : Nat → Msg}
    (hLinked : MsgLinked s.kernel s.call w) (hCall : s.call t = none) (block : Bool)
    (hTake : takeQueued (s.kernel.dispatch t) t =
        ((s.kernel.dispatch t).setQueue t cib (some array), some n))
    (hHolds : CibHolds j cib)
    (hSpace : (cibAvail cib).toNat < 2 ^ j)
    (hItems : (s.kernel.thread t).queued = array n :: cibItems cib array)
    (hList : w (.msgWaiters t) = x :: l) :
    ∃ result, msgReceiveWith storeStatus (s.kernel.dispatch t) block = some result ∧
        s.Refines (s.receivedBy t result).settle ∧
        s.Received t (s.receivedBy t result).settle := by
  have hIdle : s.channels.mode t = .idle := Kernel.modes_of_none hCall
  rcases Links.takeFirst hLinked.lists hList with ⟨mem, hRemove, hLists, hNe, hHeads⟩
  rcases hLinked.first_waiter hList with ⟨tag, hSends, _, hData, hMsg⟩
  have hOther : x ≠ t := by
    rintro rfl
    rw [hCall] at hSends
    cases hSends
  rcases hHolds.putUnsafe (α := Msg) hSpace with ⟨hHolds', _, hPush⟩
  have hRef : (s.kernel.dispatch t).next (.head (.waiting (.msgWaiters t))) ≠ .null := by
    rw [Kernel.dispatch_next, hLinked.lists.head_of_cons hList]
    simp
  -- The oldest message is in the caller's object.
  generalize hk₁ : ((s.kernel.dispatch t).setQueue t cib (some array)).setBuffer t (array n) = k₁
  have hSelf : k₁.thread t = { s.kernel.thread t with
          msgQueue := cib
          msgArray := some array } := by
    rw [← hk₁]
    exact (s.kernel.dispatch t).setQueue_same t cib _
  have hSender : k₁.thread x = s.kernel.thread x := by
    rw [← hk₁]
    exact (s.kernel.dispatch t).setQueue_of_ne cib _ hOther
  have hBuffer₁ : k₁.msgBuffer x = tag.msg := by
    rw [← hMsg, ← hk₁]
    exact Function.update_of_ne hOther _ _
  have hLinked₁ : MsgLinked k₁ s.call w := by
    rw [← hk₁]
    apply MsgLinked.setBuffer _ hCall
    apply MsgLinked.setQueue _ hHolds
    exact hLinked.congr rfl rfl rfl
  have hModes₁ : k₁.modes s.call = s.kernel.modes s.call := by
    rw [← hk₁]
    refine (Kernel.setBuffer_modes _ hCall).trans ?_
    exact (s.kernel.dispatch t).setQueue_modes t cib _
  have hQueues₁ : k₁.queues = Function.update s.kernel.queues t (cibItems cib array) := by
    rw [← hk₁]
    exact (s.kernel.dispatch t).setQueue_queues t cib array
  -- The sender's message is in the cell just freed.
  generalize hArray : Function.update array (cibPutUnsafe cib).2 tag.msg = array'
  have hLinked₂ : MsgLinked (k₁.setQueue t (cibPutUnsafe cib).1 (some array')) s.call w :=
    hLinked₁.setQueue hHolds'
  have hActive : (k₁.setQueue t (cibPutUnsafe cib).1 (some array')).schedActiveThread = some t := by
    rw [← hk₁]
    rfl
  have hHeads' : ∀ c, c ≠ .waiting (.msgWaiters t) →
        mem (.head c) = (k₁.setQueue t (cibPutUnsafe cib).1 (some array')).next (.head c) := by
    rw [← hk₁]
    exact hHeads
  rcases settle_releaseSender hLinked₂ hActive hCall hList
      hSends hLists hNe hHeads' with
    ⟨k', hRelease, hSettle, hLinked', hQueues', hModes', hBuffer', hThread'⟩
  have hDelivered : k'.msgBuffer t = array n := by
    rw [hBuffer', ← hk₁]
    exact Function.update_self _ _ _
  refine ⟨(k', .returned 1), ?_, ?_, ?_⟩
  · have hFill := fillOrWait_queued (s.kernel.dispatch t) t cib array n
    rw [hk₁] at hFill
    have hRemove' : listRemoveHead k₁.next (.waiting (.msgWaiters t)) = some (mem, some x) := by
      rw [← hk₁]
      exact hRemove
    have hCopy := copyFromSender_refill
        (k := { k₁ with next := mem }) cib n
        ((congrArg Thread.waitData hSender).trans hData)
        (congrArg Thread.msgArray hSelf)
        ((congrArg cibPut (congrArg Thread.msgQueue hSelf)).trans (hHolds.cibPut_eq hSpace))
    rw [msgReceiveWith_sender block rfl hTake hFill hRef hRemove', hCopy, Option.bind_some]
    dsimp only
    rw [hBuffer₁, hArray]
    exact congrArg (Option.map _) hRelease
  · refine Eq.mpr (congrArg s.Refines hSettle) ?_
    refine refines_of_step
      (.refill s.channels t x (array n) (cibItems cib array)
        tag hIdle hItems (Kernel.modes_of_sending hSends))
      hLinked' ?_ ?_ rfl rfl ?_
    · refine Eq.trans hQueues' ?_
      rw [k₁.setQueue_queues, ← hArray, hPush, hQueues₁]
      exact Function.update_idem _ _ _
    · refine Eq.trans hModes' ?_
      rw [k₁.setQueue_modes, hModes₁]
      rfl
    · unfold accept deliver Channels.accept Channels.setMode Channels.deliver
      dsimp only
      rw [hDelivered]
      rfl
  · intro m rest hQueued
    rw [hItems] at hQueued
    cases hQueued
    have hFinal : (s.receivedBy t (k', .returned 1)).settle =
          { (s.deliver t k').accept t tag with call := Function.update s.call x none } := hSettle
    rw [hFinal]
    refine ⟨?_, ?_, ?_⟩
    · unfold accept deliver
      dsimp only
      rw [Function.update_self, hDelivered]
    · dsimp only
      rw [Function.update_of_ne hOther.symm]
      exact hCall
    · have hSame : (k'.thread t).status = (k₁.thread t).status := by
        rw [hThread']
        exact k₁.setThread_keeps Thread.status rfl t
      refine Eq.trans hSame ?_
      rw [hSelf]

/- The function `_msg_receive`. -/
theorem refines_msgReceiveWith
    (hLinked : MsgLinked s.kernel s.call w) (hCall : s.call t = none)
    (block : Bool) :
    ∃ result, msgReceiveWith storeStatus (s.kernel.dispatch t) block = some result ∧
        s.Refines (s.receivedBy t result).settle ∧
        s.Received t (s.receivedBy t result).settle := by
  have hOk : ((s.kernel.dispatch t).thread t).QueueOk := hLinked.queues t
  rcases takeQueued_cases hOk with
    ⟨hTake, hEmpty⟩ | ⟨j, cib, array, n, hTake, hHolds, hSpace, hItems⟩
  · have hNothing : ∀ s', s.Received t s' := by
      intro s' m rest hQueued
      have hNil : (s.kernel.thread t).queued = [] := hEmpty
      rw [hNil] at hQueued
      cases hQueued
    cases hList : w (.msgWaiters t) with
    | nil =>
      rcases refines_receive_none hLinked hCall block hTake
          hEmpty hList with
        ⟨result, hReceive, hRefines⟩
      exact ⟨result, hReceive, hRefines, hNothing _⟩
    | cons x l =>
      rcases refines_receive_direct hLinked hCall block hTake
          hEmpty hList with
        ⟨result, hReceive, hRefines⟩
      exact ⟨result, hReceive, hRefines, hNothing _⟩
  · cases hList : w (.msgWaiters t) with
    | nil => exact refines_receive_take hLinked hCall block hTake hHolds hItems hList
    | cons x l =>
      exact refines_receive_refill hLinked hCall block hTake hHolds hSpace hItems hList

end MsgState

end Riot
