import Riot.Core.Msg
import Riot.Lib.Channel
import Riot.Lib.System
import Riot.Protocols.WaitLists

/-
  Messages in flight, over every interleaving of calls.

  A state has the kernel and, for the statements only, the
  call that each thread is blocked in and the history of the
  messages: how many each sender has sent, which ones were
  accepted for a thread, and which ones it received.  A
  message is accepted when its call returns 1, or when its
  blocked sender is released.
-/

----
-- System
----

namespace Riot

/- A call that has not returned yet. -/
inductive MsgCall (N : Nat) where
  | sending (target : Fin N) (tag : Tag (Fin N) Msg)
  | receiving

/- The kernel and the history of its messages. -/
structure MsgState (N : Nat) where
  kernel : Kernel N
  call : Fin N → Option (MsgCall N)
  sent : Option (Fin N) → Nat
  accepted : Fin N → List (Tag (Fin N) Msg)
  delivered : Fin N → List Msg

/-
  Calls of threads, and `msg_send_int` of an interrupt.  A
  woken receiver returns from its call with `resume`.
-/
inductive MsgOp (N : Nat) where
  | msgSend (t : Fin N) (m : Msg) (targetPid : Int)
  | msgTrySend (t : Fin N) (m : Msg) (targetPid : Int)
  | msgSendToSelf (t : Fin N) (m : Msg)
  | msgSendInt (m : Msg) (targetPid : Int)
  | msgReceive (t : Fin N)
  | msgTryReceive (t : Fin N)
  | resume (t : Fin N)
deriving DecidableEq, Repr

variable {N : Nat}

/- The messages in the queue of a thread. -/
def Thread.queued
    (thread : Thread N) : List Msg :=
  match thread.msgArray with
  | none => []
  | some array => cibItems thread.msgQueue array

namespace MsgState

/- The message, with its sender's pid. -/
def stamped
    (s : MsgState N) (t : Fin N) (m : Msg) : Msg :=
  { m with senderPid := (s.kernel.thread t).pid }

/- The thread that a call of `t` sends to. -/
def targetOf
    (s : MsgState N) (t : Fin N) (targetPid : Int) : Option (Fin N) :=
  if (s.kernel.thread t).pid = targetPid then
    some t
  else
    s.kernel.schedThreads targetPid

/- One more call of a sender. -/
def count
    (s : MsgState N) (sender : Option (Fin N)) (k : Kernel N) : MsgState N :=
  { s with kernel := k, sent := Function.update s.sent sender (s.sent sender + 1) }

/- The message was accepted for the target. -/
def accept
    (s : MsgState N) (target : Fin N) (tag : Tag (Fin N) Msg) : MsgState N :=
  { s with accepted := Function.update s.accepted target (s.accepted target ++ [tag]) }

/- The result of a send call; `none` is no target. -/
def sentBy
    (s : MsgState N) (sender : Option (Fin N)) (target : Option (Fin N)) (m : Msg)
    (result : Kernel N × Outcome) : MsgState N :=
  let tag : Tag (Fin N) Msg := ⟨sender, s.sent sender, m⟩
  let s₁ := s.count sender result.1
  match target, result.2, sender with
  | some v, .returned value, _ =>
    if value = 1 then s₁.accept v tag else s₁
  | some v, .blocked, some t =>
    { s₁ with call := Function.update s₁.call t (some (.sending v tag)) }
  | _, _, _ => s₁

/- The receiver returns with the message in its object. -/
def deliver
    (s : MsgState N) (t : Fin N) (k : Kernel N) : MsgState N :=
  { s with
    kernel := k
    delivered := Function.update s.delivered t (s.delivered t ++ [k.msgBuffer t]) }

/- The result of a receive call. -/
def receivedBy
    (s : MsgState N) (t : Fin N) (result : Kernel N × Outcome) : MsgState N :=
  match result with
  | (k, .returned value) =>
    if value = 1 then s.deliver t k else { s with kernel := k }
  | (k, .blocked) =>
    { s with kernel := k, call := Function.update s.call t (some .receiving) }

/-
  A blocked sender that was released: its message has been
  accepted, and its call is over.
-/
def settleThread
    (s : MsgState N) (t : Fin N) : MsgState N :=
  match s.call t with
  | some (.sending v tag) =>
    if (s.kernel.thread t).status = .sendBlocked then
      s
    else
      { s.accept v tag with call := Function.update s.call t none }
  | _ => s

/- All senders that were released. -/
def settle
    (s : MsgState N) : MsgState N :=
  (List.finRange N).foldl settleThread s

/- The messages accepted for a thread, not yet received. -/
def pending
    (s : MsgState N) (v : Fin N) : List Msg :=
  (match s.call v with
    | some .receiving =>
      if (s.kernel.thread v).status = .receiveBlocked then
        []
      else
        [s.kernel.msgBuffer v]
    | _ => []) ++
  (s.kernel.thread v).queued

end MsgState

namespace MsgOp

/- The thread whose call it is. -/
def caller : MsgOp N → Option (Fin N)
| .msgSend t _ _ => some t
| .msgTrySend t _ _ => some t
| .msgSendToSelf t _ => some t
| .msgSendInt _ _ => none
| .msgReceive t => some t
| .msgTryReceive t => some t
| .resume t => some t

/-
  Blocked threads make no calls, and a thread makes one at a
  time.  Interrupts happen at any time.
-/
def Enabled
    (s : MsgState N) (op : MsgOp N) : Prop :=
  match op with
  | .resume t => s.kernel.runnable t = true ∧ (s.call t matches some .receiving) = true
  | _ => ∀ t ∈ op.caller, s.kernel.runnable t = true ∧ (s.call t).isNone = true

instance
    (s : MsgState N) (op : MsgOp N) :
    Decidable (Enabled s op) := by
  cases op <;> unfold Enabled <;> infer_instance

/- A call, up to its return or until it blocks. -/
def step
    (s : MsgState N) : MsgOp N → Option (MsgState N)
| .msgSend t m targetPid =>
  (Riot.msgSend storeStatus (s.kernel.dispatch t) m
    targetPid).map (s.sentBy (some t) (s.targetOf t targetPid) (s.stamped t m))
| .msgTrySend t m targetPid =>
  (Riot.msgTrySend storeStatus (s.kernel.dispatch t) m
    targetPid).map (s.sentBy (some t) (s.targetOf t targetPid) (s.stamped t m))
| .msgSendToSelf t m =>
  (Riot.msgSendToSelf (s.kernel.dispatch t) m).map (s.sentBy (some t) (some t) (s.stamped t m))
| .msgSendInt m targetPid =>
  (Riot.msgSendInt storeStatus s.kernel m targetPid).map
    (fun result =>
      s.sentBy none (s.kernel.schedThreads targetPid)
        { m with senderPid := kernelPidIsr }
        (result.1, .returned result.2))
| .msgReceive t => (Riot.msgReceive storeStatus (s.kernel.dispatch t)).map (s.receivedBy t)
| .msgTryReceive t =>
  (Riot.msgTryReceive storeStatus (s.kernel.dispatch t)).map (s.receivedBy t)
| .resume t => some { s.deliver t s.kernel with call := Function.update s.call t none }

/- The effect of a step. -/
def exec
    (s : MsgState N) (op : MsgOp N) : Option (MsgState N) :=
  (op.step s).map MsgState.settle

end MsgOp

/-
  A thread without a message queue, as `thread_create` leaves
  it, or with an empty one of a power of two.
-/
def Thread.FreshQueue
    (thread : Thread N) : Prop :=
  (thread.msgArray = none ∧ some thread.msgQueue = cibInit 0#32) ∨
    ∃ k ≤ 30, thread.msgArray ≠ none ∧ some thread.msgQueue = cibInit (BitVec.ofNat 32 (2 ^ k))

/- No call on messages blocks the thread. -/
def ThreadStatus.NotInMsg
    (status : ThreadStatus) : Prop :=
  status ≠ .sendBlocked ∧ status ≠ .receiveBlocked ∧ status ≠ .replyBlocked

/-
  Threads before their first message, in any status that no
  call on messages leaves, and with any pids.
-/
def msgSystem (N : Nat) :
    System (MsgState N) (MsgOp N) where
  Start := fun s =>
    (∀ h, s.kernel.next (.head h) = .null) ∧ (∀ t, (s.kernel.thread t).status.NotInMsg) ∧
      (∀ t, (s.kernel.thread t).FreshQueue) ∧ (∀ t, s.call t = none) ∧
      (∀ v, s.accepted v = []) ∧ ∀ v, s.delivered v = []
  Enabled := MsgOp.Enabled
  exec := MsgOp.exec

instance
    (s : MsgState N) (op : MsgOp N) :
    Decidable ((msgSystem N).Enabled s op) :=
  inferInstanceAs (Decidable (op.Enabled s))

----
-- Abstraction
----

/- What a thread in a call is doing. -/
def MsgCall.mode
    (call : Option (MsgCall N)) (status : ThreadStatus) (m : Msg) : Mode (Fin N) Msg :=
  match call with
  | none => .idle
  | some (.sending v tag) => .sending v tag
  | some .receiving =>
    if status = .receiveBlocked then .receiving else .holding m

/- The channels that the state implements. -/
def MsgState.channels
    (s : MsgState N) : Channels (Fin N) Msg where
  queue := fun v => (s.kernel.thread v).queued
  mode := fun t =>
    MsgCall.mode (s.call t) (s.kernel.thread t).status (s.kernel.msgBuffer t)
  sent := s.sent
  accepted := s.accepted
  delivered := s.delivered

/- What is pending is held or queued. -/
theorem MsgState.pending_eq
    (s : MsgState N) (v : Fin N) :
    s.pending v = s.channels.held v ++ s.channels.queue v := by
  unfold pending Channels.held channels MsgCall.mode
  dsimp only
  cases s.call v with
  | none => rfl
  | some call =>
    cases call with
    | sending u tag => rfl
    | receiving =>
      dsimp only
      split
      · rfl
      · rfl

/- The counters fit the array of a message queue. -/
def Thread.QueueOk
    (thread : Thread N) : Prop :=
  (thread.msgArray = none ∧ cibPut thread.msgQueue = (thread.msgQueue, none)) ∨
    ∃ k array, thread.msgArray = some array ∧ CibHolds k thread.msgQueue

/- Every start queue is in order, and empty. -/
theorem Thread.FreshQueue.queueOk
    {thread : Thread N} (hFresh : thread.FreshQueue) :
    thread.QueueOk ∧ thread.queued = [] := by
  rcases hFresh with ⟨hNone, hInit⟩ | ⟨k, hk, hSome, hInit⟩
  · have hCib : thread.msgQueue = ⟨0#32, 0#32, -1#32⟩ := by
      apply Option.some.inj
      rw [hInit]
      rfl
    refine ⟨.inl ⟨hNone, ?_⟩, ?_⟩
    · rw [hCib]
      rfl
    · unfold Thread.queued
      rw [hNone]
  · rcases Option.ne_none_iff_exists'.mp hSome with ⟨array, hArray⟩
    rcases cibHolds_of_cibInit hk hInit.symm with ⟨hHolds, hEmpty⟩
    refine ⟨.inr ⟨k, array, hArray, hHolds⟩, ?_⟩
    unfold Thread.queued
    rw [hArray]
    apply List.eq_nil_of_length_eq_zero
    rw [CibHolds.items_length, hEmpty]
    rfl

/-
  The fields of a thread that is not blocked in a call, or
  is blocked in a given one.
-/
def Kernel.CallOk
    (k : Kernel N)
    (t : Fin N) : Option (MsgCall N) → Prop
| none => (k.thread t).status.NotInMsg
| some (.sending _ tag) =>
  (k.thread t).status = .sendBlocked ∧ (k.thread t).waitData = some t ∧ k.msgBuffer t = tag.msg
| some .receiving =>
  ((k.thread t).status = .receiveBlocked ∧ (k.thread t).waitData = some t) ∨ k.runnable t = true

/-
  How the kernel represents the calls: the wait lists `w`
  have exactly the blocked senders.
-/
structure MsgLinked
    (k : Kernel N) (call : Fin N → Option (MsgCall N))
    (w : WaitHead N → List (Fin N)) : Prop where
  lists : WaitLists k.next w
  unmarked : ∀ v, k.next (.head (.waiting (.msgWaiters v))) ≠ .mark
  waiting : ∀ h t, t ∈ w h ↔ ∃ v tag, h = .msgWaiters v ∧ call t = some (.sending v tag)
  calls : ∀ t, k.CallOk t (call t)
  queues : ∀ t, (k.thread t).QueueOk

----
-- Queues
----

variable {k : Kernel N} {t v : Fin N} {m : Msg}

/- A message is queued behind the others, if it fits. -/
theorem queueMsg_cases
    (m : Msg) (hOk : (k.thread v).QueueOk) :
    queueMsg k v m = some (k, false) ∨ ∃ j cib array, queueMsg k v m =
            some (k.setQueue v cib (some array), true) ∧ CibHolds j cib ∧
          cibItems cib array = (k.thread v).queued ++ [m] := by
  rcases hOk with ⟨_, hPut⟩ | ⟨j, array, hArray, hHolds⟩
  · left
    unfold queueMsg
    rw [hPut]
  · rcases Nat.lt_or_eq_of_le hHolds.avail with hSpace | hFull
    · right
      rcases hHolds.putUnsafe (α := Msg) hSpace with ⟨hHolds', _, hItems⟩
      refine ⟨j, (cibPutUnsafe (k.thread v).msgQueue).1,
          Function.update array (cibPutUnsafe (k.thread v).msgQueue).2 m, ?_, hHolds', ?_⟩
      · unfold queueMsg
        rw [hHolds.cibPut_eq hSpace, hArray]
        rfl
      · rw [hItems, Thread.queued, hArray]
    · left
      unfold queueMsg
      rw [hHolds.cibPut_full hFull]

/- The oldest message is taken, if there is one. -/
theorem takeQueued_cases
    (hOk : (k.thread t).QueueOk) :
    (takeQueued k t = (k, none) ∧ (k.thread t).queued = []) ∨ ∃ j cib array n, takeQueued k t =
            (k.setQueue t cib (some array), some n) ∧ CibHolds j cib ∧
          (cibAvail cib).toNat < 2 ^ j ∧
          (k.thread t).queued = array n :: cibItems cib array := by
  unfold takeQueued Kernel.hasMsgQueue Thread.queued
  rcases hOk with ⟨hNone, _⟩ | ⟨j, array, hArray, hHolds⟩
  · left
    rw [hNone]
    exact ⟨rfl, rfl⟩
  · have hQueue : (k.thread t).msgArray.isSome = true := by
      rw [hArray]
      rfl
    rw [if_pos hQueue]
    by_cases hEmpty : (cibAvail (k.thread t).msgQueue).toNat = 0
    · left
      rw [CibHolds.cibGet_empty hEmpty, Kernel.setQueue_self, hArray]
      refine ⟨rfl, ?_⟩
      apply List.eq_nil_of_length_eq_zero
      rw [CibHolds.items_length, hEmpty]
    · right
      rcases hHolds.cibGet_eq (α := Msg) hEmpty with ⟨hGet, hHolds', hAvail, hItems⟩
      refine ⟨j, (cibGetUnsafe (k.thread t).msgQueue).1, array,
          (cibGetUnsafe (k.thread t).msgQueue).2, ?_, hHolds', ?_, ?_⟩
      · rw [hGet, hArray]
      · have hLe := hHolds.avail
        omega
      · rw [hArray]
        exact hItems array

----
-- Calls
----

open LinkMem

variable {k' : Kernel N} {call : Fin N → Option (MsgCall N)}
variable {w : WaitHead N → List (Fin N)} {u x : Fin N}

/- What the threads are doing. -/
def Kernel.modes
    (k : Kernel N) (call : Fin N → Option (MsgCall N)) :
    Fin N → Mode (Fin N) Msg :=
  fun t =>
    MsgCall.mode (call t) (k.thread t).status (k.msgBuffer t)

/- The message queues. -/
def Kernel.queues
    (k : Kernel N) : Fin N → List Msg :=
  fun t => (k.thread t).queued

/- The fields that a call rests on. -/
theorem Kernel.CallOk.congr
    {c : Option (MsgCall N)} (hOk : k.CallOk t c)
    (hStatus : (k'.thread t).status = (k.thread t).status)
    (hData : (k'.thread t).waitData = (k.thread t).waitData)
    (hBuffer : c ≠ none → k'.msgBuffer t = k.msgBuffer t) :
    k'.CallOk t c := by
  cases c with
  | none =>
    unfold CallOk at *
    rw [hStatus]
    exact hOk
  | some call =>
    have hSame := hBuffer (by simp)
    cases call with
    | sending v tag =>
      unfold CallOk at *
      rw [hStatus, hData, hSame]
      exact hOk
    | receiving =>
      unfold CallOk Kernel.runnable at *
      rw [hStatus, hData]
      exact hOk

/- Only the object of a thread in a call is part of its mode. -/
theorem MsgCall.mode_congr
    {c : Option (MsgCall N)} {status status' : ThreadStatus} {m m' : Msg}
    (hStatus : status' = status) (hBuffer : c ≠ none → m' = m) :
    MsgCall.mode c status' m' = MsgCall.mode c status m := by
  cases c with
  | none => rfl
  | some call => rw [hStatus, hBuffer (by simp)]

/- A thread outside every call is idle. -/
theorem Kernel.modes_of_none
    (hCall : call t = none) :
    k.modes call t = .idle := by
  unfold Kernel.modes
  rw [hCall]
  rfl

/- A blocked sender sends. -/
theorem Kernel.modes_of_sending
    {tag : Tag (Fin N) Msg} (hCall : call t = some (.sending v tag)) :
    k.modes call t = .sending v tag := by
  unfold Kernel.modes
  rw [hCall]
  rfl

variable (call) in
/- One thread does something else. -/
theorem Kernel.modes_update
    {call' : Fin N → Option (MsgCall N)} (hCalls : ∀ u, u ≠ t → call' u = call u)
    (hStatus : ∀ u, u ≠ t → (k'.thread u).status = (k.thread u).status)
    (hBuffers : ∀ u, u ≠ t → call u ≠ none → k'.msgBuffer u = k.msgBuffer u) :
    k'.modes call' = Function.update (k.modes call) t
        (MsgCall.mode (call' t) (k'.thread t).status (k'.msgBuffer t)) := by
  funext u
  by_cases hEq : u = t
  · subst hEq
    rw [Function.update_self]
    rfl
  · rw [Function.update_of_ne hEq]
    unfold Kernel.modes
    rw [hCalls u hEq]
    exact MsgCall.mode_congr (hStatus u hEq) (hBuffers u hEq)

/- The thread waits with its own message object. -/
def Kernel.blockWith
    (k : Kernel N) (t : Fin N) (status : ThreadStatus) : Kernel N :=
  (k.setWaitData t (some t)).setStatus t status

/- The blocked thread. -/
theorem Kernel.blockWith_same
    (k : Kernel N) (t : Fin N) (status : ThreadStatus) :
    (k.blockWith t status).thread t = { k.thread t with
        status := status
        waitData := some t } := by
  simp [Kernel.blockWith, Kernel.setStatus, Kernel.setWaitData]

/- Every other thread. -/
theorem Kernel.blockWith_of_ne
    (k : Kernel N) (status : ThreadStatus) (hNe : u ≠ t) :
    (k.blockWith t status).thread u = k.thread u := by
  unfold blockWith setStatus setWaitData
  rw [setThread_thread_of_ne _ _ hNe, setThread_thread_of_ne _ _ hNe]

/- Blocking leaves the queues. -/
theorem Kernel.blockWith_queues
    (k : Kernel N) (t : Fin N) (status : ThreadStatus) :
    (k.blockWith t status).queues = k.queues := by
  funext u
  unfold queues
  by_cases hEq : u = t
  · subst hEq
    rw [blockWith_same]
    rfl
  · rw [k.blockWith_of_ne status hEq]

/- Entering a call changes one mode. -/
theorem Kernel.blockWith_modes
    (k : Kernel N) (t : Fin N) (status : ThreadStatus) (c : MsgCall N) :
    (k.blockWith t status).modes (Function.update call t (some c)) =
      Function.update (k.modes call) t (MsgCall.mode (some c) status (k.msgBuffer t)) := by
  refine (modes_update (k := k) call (t := t) ?_ ?_ ?_).trans ?_
  · intro u hNe
    exact Function.update_of_ne hNe _ _
  · intro u hNe
    rw [k.blockWith_of_ne status hNe]
  · intro u _ _
    rfl
  · rw [Function.update_self, blockWith_same]
    rfl

namespace MsgLinked

section

variable (hLinked : MsgLinked k call w)

include hLinked

/- A thread outside every list has no message to send. -/
theorem not_mem
    (hCall : call t = none) (h : WaitHead N) :
    t ∉ w h := by
  intro hIn
  rcases (hLinked.waiting h t).mp hIn with ⟨v, tag, _, hSends⟩
  rw [hCall] at hSends
  cases hSends

/- The first waiter of a thread sends to it. -/
theorem of_waiting
    (hIn : x ∈ w (.msgWaiters v)) :
    ∃ tag, call x = some (.sending v tag) := by
  rcases (hLinked.waiting _ x).mp hIn with ⟨u, tag, hEq, hSends⟩
  cases hEq
  exact ⟨tag, hSends⟩

/- Flags and the active thread do not matter. -/
theorem congr
    (hNext : k'.next = k.next) (hThread : k'.thread = k.thread)
    (hBuffer : k'.msgBuffer = k.msgBuffer) :
    MsgLinked k' call w where
  lists := by
    rw [hNext]
    exact hLinked.lists
  unmarked := by
    rw [hNext]
    exact hLinked.unmarked
  waiting := hLinked.waiting
  calls := by
    intro t
    apply (hLinked.calls t).congr
    · rw [hThread]
    · rw [hThread]
    · intro _
      rw [hBuffer]
  queues := by
    rw [hThread]
    exact hLinked.queues

/- The object of a thread outside every call. -/
theorem setBuffer
    (hCall : call t = none) :
    MsgLinked (k.setBuffer t m) call w where
  lists := hLinked.lists
  unmarked := hLinked.unmarked
  waiting := hLinked.waiting
  calls := by
    intro u
    refine (hLinked.calls u).congr rfl rfl ?_
    intro hSome
    apply Function.update_of_ne
    rintro rfl
    exact hSome hCall
  queues := hLinked.queues

/- A queue that is in order. -/
theorem setQueue
    {j : Nat} {cib : Cib} {array : Nat → Msg} (hHolds : CibHolds j cib) :
    MsgLinked (k.setQueue v cib (some array)) call w where
  lists := hLinked.lists
  unmarked := hLinked.unmarked
  waiting := hLinked.waiting
  calls := by
    intro u
    refine (hLinked.calls u).congr ?_ ?_ (fun _ => rfl)
    · exact k.setThread_keeps Thread.status rfl u
    · exact k.setThread_keeps Thread.waitData rfl u
  queues := by
    intro u
    by_cases hEq : u = v
    · subst hEq
      right
      refine ⟨j, array, ?_, ?_⟩
      · simp [Kernel.setQueue]
      · simpa [Kernel.setQueue] using hHolds
    · unfold Kernel.setQueue
      rw [Kernel.setThread_thread_of_ne _ _ hEq]
      exact hLinked.queues u

/- One thread enters or leaves a call. -/
theorem change
    {call' : Fin N → Option (MsgCall N)} {w' : WaitHead N → List (Fin N)} (t : Fin N)
    (hLists : WaitLists k'.next w')
    (hUnmarked : ∀ v, k'.next (.head (.waiting (.msgWaiters v))) ≠ .mark)
    (hWaiting : ∀ h u, u ∈ w' h ↔ ∃ v tag, h = .msgWaiters v ∧ call' u = some (.sending v tag))
    (hCalls : ∀ u, u ≠ t → call' u = call u)
    (hThreads : ∀ u, u ≠ t → k'.thread u = k.thread u)
    (hBuffers : ∀ u, u ≠ t → k'.msgBuffer u = k.msgBuffer u)
    (hSelf : k'.CallOk t (call' t)) (hQueue : (k'.thread t).QueueOk) :
    MsgLinked k' call' w' where
  lists := hLists
  unmarked := hUnmarked
  waiting := hWaiting
  calls := by
    intro u
    by_cases hEq : u = t
    · subst hEq
      exact hSelf
    · rw [hCalls u hEq]
      apply (hLinked.calls u).congr
      · rw [hThreads u hEq]
      · rw [hThreads u hEq]
      · exact fun _ => hBuffers u hEq
  queues := by
    intro u
    by_cases hEq : u = t
    · subst hEq
      exact hQueue
    · rw [hThreads u hEq]
      exact hLinked.queues u

/- A message is handed to a blocked receiver. -/
theorem copyToWaiting
    (m : Msg) (hBlocked : (k.thread v).status = .receiveBlocked) :
    ∃ k', Riot.copyToWaiting storeStatus k v m = some k' ∧ MsgLinked k' call w ∧
        call v = some .receiving ∧ k'.queues = k.queues ∧
        k'.modes call = Function.update (k.modes call) v (.holding m) := by
  have hOk := hLinked.calls v
  cases hCall : call v with
  | none =>
    rw [hCall] at hOk
    exact (hOk.2.1 hBlocked).elim
  | some c =>
    rw [hCall] at hOk
    cases c with
    | sending u tag =>
      have hStatus := hOk.1.symm.trans hBlocked
      cases hStatus
    | receiving =>
      have hData : (k.thread v).waitData = some v := by
        rcases hOk with ⟨_, hData⟩ | hRuns
        · exact hData
        · unfold Kernel.runnable at hRuns
          rw [hBlocked] at hRuns
          cases hRuns
      have hStatus : (((k.setBuffer v m).setStatus v .pending).thread v).status = .pending := by
        rw [Kernel.setStatus_status, if_pos rfl]
      have hOthers :
          ∀ u, u ≠ v → ((k.setBuffer v m).setStatus v .pending).thread u = k.thread u :=
        fun u hNe =>
          Kernel.setThread_thread_of_ne _ _ hNe
      have hBuffers :
          ∀ u, u ≠ v → ((k.setBuffer v m).setStatus v .pending).msgBuffer u = k.msgBuffer u :=
        fun u hNe => Function.update_of_ne hNe _ _
      refine ⟨(k.setBuffer v m).setStatus v .pending, ?_, ?_, rfl, ?_, ?_⟩
      · unfold Riot.copyToWaiting
        rw [hData]
        rfl
      · refine hLinked.change v hLinked.lists
          hLinked.unmarked hLinked.waiting
          (fun _ _ => rfl) hOthers hBuffers ?_ ?_
        · rw [hCall]
          right
          unfold Kernel.runnable
          rw [hStatus]
          rfl
        · rw [Kernel.setStatus_thread]
          exact hLinked.queues v
      · funext u
        exact Kernel.setThread_keeps _ Thread.queued rfl u
      · rw [Kernel.modes_update _ (t := v) (fun _ _ => rfl)
          (fun u hNe => by rw [hOthers u hNe])
          (fun u hNe _ => hBuffers u hNe)]
        rw [hCall, hStatus]
        have hBuffer : ((k.setBuffer v m).setStatus v .pending).msgBuffer v = m :=
          Function.update_self _ _ _
        rw [hBuffer]
        rfl

/- The waiters of a target after a sender joined them. -/
theorem waiting_insert
    {tag : Tag (Fin N) Msg} {l : List (Fin N)} (hCall : call t = none)
    (hPerm : l.Perm (t :: w (.msgWaiters v))) (h : WaitHead N) (u : Fin N) :
    u ∈ Function.update w (.msgWaiters v) l h ↔ ∃ v' tag', h = .msgWaiters v' ∧
          Function.update call t (some (.sending v tag)) u = some (.sending v' tag') := by
  by_cases hHead : h = .msgWaiters v
  · subst hHead
    rw [Function.update_self, hPerm.mem_iff, List.mem_cons]
    by_cases hEq : u = t
    · subst hEq
      rw [Function.update_self]
      exact iff_of_true (.inl rfl) ⟨v, tag, rfl, rfl⟩
    · rw [Function.update_of_ne hEq, ← hLinked.waiting _ u]
      exact or_iff_right hEq
  · rw [Function.update_of_ne hHead]
    by_cases hEq : u = t
    · subst hEq
      rw [Function.update_self]
      refine iff_of_false (hLinked.not_mem hCall h) ?_
      rintro ⟨v', tag', rfl, hSends⟩
      cases hSends
      exact hHead rfl
    · rw [Function.update_of_ne hEq, ← hLinked.waiting h u]

/- A sender blocks until its target takes the message. -/
theorem sendBlocking
    {tag : Tag (Fin N) Msg} (v : Fin N) (hCall : call t = none)
    (hMsg : k.msgBuffer t = tag.msg) :
    ∃ k' w', Riot.sendBlocking storeStatus k t v = some k' ∧
        MsgLinked k' (Function.update call t (some (.sending v tag))) w' ∧
        k'.queues = k.queues ∧
        k'.modes (Function.update call t (some (.sending v tag))) =
          Function.update (k.modes call) t (.sending v tag) := by
  have hOk := hLinked.calls t
  rw [hCall] at hOk
  have hSelf := k.blockWith_same t .sendBlocked
  have hBlocked : ((k.blockWith t .sendBlocked).thread t).status.onRunqueue = false := by
    rw [hSelf]
    rfl
  rcases WaitLists.threadAddToList
      (k := k.blockWith t .sendBlocked) hLinked.lists
      (hLinked.unmarked v) (hLinked.not_mem hCall)
      hBlocked with
    ⟨mem, hAdd, hLists, _, hHeads⟩
  have hUnmarked : ∀ u, mem (.head (.waiting (.msgWaiters u))) ≠ .mark := by
    intro u
    by_cases hEq : u = v
    · subst hEq
      apply Links.ne_mark_of_mem hLists (t := t)
      rw [Function.update_self, (insertByPriority_perm _ _).mem_iff]
      exact List.mem_cons_self
    · rw [hHeads _ (by simpa using hEq)]
      exact hLinked.unmarked u
  have hLinked' : MsgLinked
        { k.blockWith t .sendBlocked with next := mem }
        (Function.update call t (some (.sending v tag)))
        (Function.update w (.msgWaiters v) (insertByPriority (fun u =>
              ((k.blockWith t .sendBlocked).thread u).priority)
            t (w (.msgWaiters v)))) := by
    refine hLinked.change t hLists hUnmarked
      (hLinked.waiting_insert hCall (insertByPriority_perm _ _))
      (fun u hNe => Function.update_of_ne hNe _ _)
      (fun u hNe => k.blockWith_of_ne _ hNe)
      (fun _ _ => rfl) ?_ ?_
    · rw [Function.update_self]
      refine ⟨?_, ?_, hMsg⟩
      · exact congrArg Thread.status hSelf
      · exact congrArg Thread.waitData hSelf
    · have hQueue := hLinked.queues t
      dsimp only
      rw [hSelf]
      exact hQueue
  refine
    ⟨{ k.blockWith t .sendBlocked with next := mem }, _, ?_, hLinked', k.blockWith_queues t _, ?_⟩
  · unfold Riot.sendBlocking
    simp only [if_neg hOk.2.2]
    exact hAdd
  · exact k.blockWith_modes t _ _

end

end MsgLinked

----
-- The Function _msg_receive
----

variable {N : Nat} {k k₀ k₁ : Kernel N} {mem : LinkMem (ListHead N) (Fin N)}
variable {t x : Fin N} {cib : Cib} {array : Nat → Msg} {n : Nat}

/- Nothing is queued, and nobody waits. -/
theorem msgReceiveWith_none
    (block : Bool) (hActive : k.schedActiveThread = some t)
    (hTake : takeQueued k t = (k, none))
    (hNull : k.next (.head (.waiting (.msgWaiters t))) = .null) :
    msgReceiveWith storeStatus k block = if block then
        some (threadYieldHigher (k.blockWith t .receiveBlocked), .blocked)
      else some (k, .returned (-1)) := by
  have hRemove : listRemoveHead (k.setWaitData t (some t)).next
          (.waiting (.msgWaiters t)) = some (k.next, none) := by
    unfold listRemoveHead
    have hSame : (k.setWaitData t (some t)).next (.head (.waiting (.msgWaiters t))) = .null := hNull
    rw [hSame]
    rfl
  unfold msgReceiveWith
  rw [hActive]
  simp only [Option.bind_eq_bind, Option.bind_some]
  rw [hTake]
  cases block with
  | false =>
    simp only [hNull]
    rfl
  | true =>
    simp only [fillOrWait, Option.bind_some, hRemove]
    rfl

/- Taking a queued message to the caller's object. -/
theorem fillOrWait_queued
    (k : Kernel N) (t : Fin N) (cib : Cib) (array : Nat → Msg) (n : Nat) :
    fillOrWait (k.setQueue t cib (some array)) t (some n) =
      some ((k.setQueue t cib (some array)).setBuffer t (array n)) := by
  unfold fillOrWait Kernel.setQueue
  rw [Kernel.setThread_thread_same]
  rfl

/- A message is queued, and nobody waits. -/
theorem msgReceiveWith_take
    (block : Bool) (hActive : k.schedActiveThread = some t)
    (hTake : takeQueued k t = (k.setQueue t cib (some array), some n))
    (hNull : k.next (.head (.waiting (.msgWaiters t))) = .null) :
    msgReceiveWith storeStatus k block =
      some ((k.setQueue t cib (some array)).setBuffer t (array n), .returned 1) := by
  have hRemove : listRemoveHead
          ((k.setQueue t cib (some array)).setBuffer t (array n)).next
          (.waiting (.msgWaiters t)) = some (k.next, none) := by
    unfold listRemoveHead
    have hSame : ((k.setQueue t cib (some array)).setBuffer t
          (array n)).next (.head (.waiting (.msgWaiters t))) = .null :=
      hNull
    rw [hSame]
    rfl
  unfold msgReceiveWith
  rw [hActive]
  simp only [Option.bind_eq_bind, Option.bind_some]
  rw [hTake]
  simp only [Option.isNone_some, Bool.and_false, Bool.false_eq_true, if_false, fillOrWait_queued,
    Option.bind_some, hRemove]
  rfl

/- A sender waits. -/
theorem msgReceiveWith_sender
    {queueIndex : Option Nat} (block : Bool)
    (hActive : k.schedActiveThread = some t)
    (hTake : takeQueued k t = (k₀, queueIndex))
    (hFill : fillOrWait k₀ t queueIndex = some k₁)
    (hRef : k₀.next (.head (.waiting (.msgWaiters t))) ≠ .null)
    (hRemove : listRemoveHead k₁.next (.waiting (.msgWaiters t)) = some (mem, some x)) :
    msgReceiveWith storeStatus k block = (copyFromSender { k₁ with next := mem } t x
        queueIndex).bind
        (fun k₃ =>
          (releaseSender storeStatus k₃ x).map (fun k₄ => (k₄, .returned 1))) := by
  have hCond : (!block &&
        (k₀.next (.head (.waiting (.msgWaiters t))) == .null && queueIndex.isNone)) = false := by
    simp [hRef]
  unfold msgReceiveWith
  rw [hActive]
  simp only [Option.bind_eq_bind, Option.bind_some]
  rw [hTake]
  simp only [hCond, Bool.false_eq_true, if_false, hFill, Option.bind_some, hRemove]
  simp only [Option.map_eq_bind]
  rfl

/- The message of a waiting sender, with nothing queued. -/
theorem copyFromSender_direct
    (hData : (k.thread x).waitData = some x) :
    copyFromSender k t x none = some (k.setBuffer t (k.msgBuffer x)) := by
  unfold copyFromSender
  rw [hData]
  rfl

/- The message of a waiting sender enters the queue. -/
theorem copyFromSender_refill
    (cib : Cib) (n : Nat) (hData : (k.thread x).waitData = some x)
    (hArray : (k.thread t).msgArray = some array)
    (hPut : cibPut (k.thread t).msgQueue = ((cibPutUnsafe cib).1, some (cibPutUnsafe cib).2)) :
    copyFromSender k t x (some n) = some (k.setQueue t (cibPutUnsafe cib).1
          (some (Function.update array (cibPutUnsafe cib).2 (k.msgBuffer x)))) := by
  unfold copyFromSender
  rw [hData]
  simp only [Option.bind_eq_bind, Option.bind_some, hPut, hArray]

end Riot
