import Riot.Core.Mutex

/-
  Messages between threads, `msg.c`.

  A thread that blocks in a call leaves a pointer to its
  message object in `wait_data`; here the field names the
  thread whose object `Kernel.msgBuffer` holds.

  Key definitions include:
    * `queueMsg`
    * `msgSendWith`
    * `msgSendOneway`
    * `msgSendReceive`
    * `msgReply`
    * `msgReceiveWith`
-/

----
-- Message Objects
----

namespace Riot

variable {N : Nat}

/- Store into the message object of a thread. -/
def Kernel.setBuffer
    (k : Kernel N) (t : Fin N) (m : Msg) : Kernel N :=
  { k with msgBuffer := Function.update k.msgBuffer t m }

/- Store the `wait_data` pointer of a thread. -/
def Kernel.setWaitData
    (k : Kernel N) (t : Fin N) (waitData : Option (Fin N)) : Kernel N :=
  k.setThread t (fun thread => { thread with waitData := waitData })

/- The statuses stay. -/
theorem Kernel.setWaitData_status
    (k : Kernel N) (t u : Fin N) (waitData : Option (Fin N)) :
    ((k.setWaitData t waitData).thread u).status = (k.thread u).status :=
  k.setThread_keeps Thread.status rfl u

/-
  Store into the message array of a thread, next to the new
  counters of its queue.
-/
def Kernel.setQueue
    (k : Kernel N) (t : Fin N) (cib : Cib) (array : Option (Nat → Msg)) : Kernel N :=
  k.setThread t
    (fun thread =>
      { thread with msgQueue := cib, msgArray := array })

theorem Kernel.setQueue_status
    (k : Kernel N) (t u : Fin N) (cib : Cib) (array : Option (Nat → Msg)) :
    ((k.setQueue t cib array).thread u).status = (k.thread u).status :=
  k.setThread_keeps Thread.status rfl u

/- Storing what is there changes nothing. -/
theorem Kernel.setQueue_self
    (k : Kernel N) (t : Fin N) :
    k.setQueue t (k.thread t).msgQueue (k.thread t).msgArray = k := by
  have hSame : Function.update k.thread t (k.thread t) = k.thread :=
    Function.update_eq_self t k.thread
  unfold Kernel.setQueue Kernel.setThread
  dsimp only
  rw [hSame]

/- The test `thread_has_msg_queue`. -/
def Kernel.hasMsgQueue
    (k : Kernel N) (t : Fin N) : Bool :=
  (k.thread t).msgArray.isSome

/- Give the active thread a message queue. -/
def msgInitQueue
    (k : Kernel N) (array : Nat → Msg) (num : Nat) : Option (Kernel N) := do
  let me ← k.schedActiveThread
  let cib ← cibInit (BitVec.ofNat 32 num)
  some (k.setQueue me cib (some array))

----
-- Sending
----

/-
  Put a message into the queue of a thread, if that has
  space; a missing array is a null pointer.
-/
def queueMsg
    (k : Kernel N) (target : Fin N) (m : Msg) : Option (Kernel N × Bool) :=
  match cibPut (k.thread target).msgQueue with
  | (_, none) => some (k, false)
  | (cib, some n) => do
      let array ← (k.thread target).msgArray
      some (k.setQueue target cib (some (Function.update array n m)), true)

/- A full queue takes no message, any other one does. -/
theorem queueMsg_some
    {k k' : Kernel N} {v : Fin N} {m : Msg} {queued : Bool}
    (hQueue : queueMsg k v m = some (k', queued)) :
    (queued = false ∧ k' = k ∧ (cibPut (k.thread v).msgQueue).2 = none) ∨
      (queued = true ∧ ∃ cib array, k' = k.setQueue v cib array) := by
  unfold queueMsg at hQueue
  split at hQueue
  · rename_i hPut
    cases hQueue
    left
    rw [hPut]
    exact ⟨rfl, rfl, rfl⟩
  · rcases Option.bind_eq_some_iff.mp hQueue with ⟨array, _, hLast⟩
    cases hLast
    exact .inr ⟨rfl, _, _, rfl⟩

/- A caller that waits for a reply yields. -/
def yieldForReply
    (k : Kernel N) (me : Fin N) : Kernel N :=
  if (k.thread me).status = .replyBlocked then
    threadYieldHigher k
  else
    k

/- The caller waits for a reply, or its call returns 1. -/
def sendOutcome
    (k : Kernel N) (me : Fin N) : Outcome :=
  if (k.thread me).status = .replyBlocked then
    .blocked
  else
    .returned 1

/-
  Copy a message to the object that a blocked thread waits
  with, and wake the thread.
-/
def copyToWaiting
    (setStatus : StatusFn N) (k : Kernel N) (target : Fin N) (m : Msg) : Option (Kernel N) := do
  let targetMessage ← (k.thread target).waitData
  setStatus (k.setBuffer targetMessage m) target .pending

/- Wait in the list of the target until it takes the message. -/
def sendBlocking
    (setStatus : StatusFn N) (k : Kernel N) (me target : Fin N) : Option (Kernel N) := do
  let newstatus :=
    if (k.thread me).status = .replyBlocked then
      ThreadStatus.replyBlocked
    else
      ThreadStatus.sendBlocked
  let k₁ ← setStatus (k.setWaitData me (some me)) me newstatus
  threadAddToList k₁ (.msgWaiters target) me

/-
  The function `_msg_send`; the message object is that of
  the caller.
-/
def msgSendWith
    (setStatus : StatusFn N) (k : Kernel N) (m : Msg) (targetPid : Int)
    (block : Bool) : Option (Kernel N × Outcome) := do
  let me ← k.schedActiveThread
  let m' : Msg := { m with senderPid := k.schedActivePid }
  let k₀ := k.setBuffer me m'
  match k₀.schedThreads targetPid with
  | none => some (k₀, .returned (-1))
  | some target =>
    if (k₀.thread target).status ≠ .receiveBlocked then
      let (k₁, queued) ← queueMsg k₀ target m'
      if queued then
        some (yieldForReply k₁ me, sendOutcome k₁ me)
      else if !block then
        some (k₁, .returned 0)
      else
        let k₂ ← sendBlocking setStatus k₁ me target
        some (threadYieldHigher k₂, .blocked)
    else
      let k₁ ← copyToWaiting setStatus k₀ target m'
      some (threadYieldHigher k₁, sendOutcome k₁ me)

/- Send a message to the caller itself. -/
def msgSendToSelf
    (k : Kernel N) (m : Msg) : Option (Kernel N × Outcome) := do
  let me ← k.schedActiveThread
  let m' : Msg := { m with senderPid := k.schedActivePid }
  let (k₁, queued) ← queueMsg (k.setBuffer me m') me m'
  some (k₁, .returned (if queued then 1 else 0))

/- The function `_msg_send_oneway`. -/
def msgSendOneway
    (setStatus : StatusFn N) (k : Kernel N) (m : Msg)
    (targetPid : Int) : Option (Kernel N × Int) :=
  match k.schedThreads targetPid with
  | none => some (k, -1)
  | some target =>
    if (k.thread target).status = .receiveBlocked then do
      let k₁ ← copyToWaiting setStatus k target m
      some ({ k₁ with schedContextSwitchRequest := true }, 1)
    else do
      let (k₁, queued) ← queueMsg k target m
      some (k₁, if queued then 1 else 0)

/- Send from an interrupt handler. -/
def msgSendInt
    (setStatus : StatusFn N) (k : Kernel N) (m : Msg)
    (targetPid : Int) : Option (Kernel N × Int) :=
  msgSendOneway setStatus k { m with senderPid := kernelPidIsr } targetPid

/- The part that both send functions of a thread share. -/
def msgSendFrom
    (setStatus : StatusFn N) (k : Kernel N) (m : Msg) (targetPid : Int)
    (block : Bool) : Option (Kernel N × Outcome) :=
  if k.schedActivePid = targetPid then
    msgSendToSelf k m
  else
    msgSendWith setStatus k m targetPid block

/- Send a message, blocking. -/
def msgSend
    (setStatus : StatusFn N) (k : Kernel N) (m : Msg)
    (targetPid : Int) : Option (Kernel N × Outcome) :=
  msgSendFrom setStatus k m targetPid true

/- Send a message, non-blocking. -/
def msgTrySend
    (setStatus : StatusFn N) (k : Kernel N) (m : Msg)
    (targetPid : Int) : Option (Kernel N × Outcome) :=
  msgSendFrom setStatus k m targetPid false

----
-- Replies
----

/-
  Send a message and wait for the reply.  The object for the
  reply is that of the caller; the message is copied there.
-/
def msgSendReceive
    (setStatus : StatusFn N) (k : Kernel N) (m : Msg)
    (targetPid : Int) : Option (Kernel N × Outcome) :=
  if k.schedActivePid = targetPid then
    none
  else do
    let me ← k.schedActiveThread
    let k₁ ← setStatus k me .replyBlocked
    msgSendWith setStatus (k₁.setWaitData me (some me)) m targetPid true

/- Reply to the sender of the message `m`. -/
def msgReply
    (setStatus : StatusFn N) (k : Kernel N) (m reply : Msg) : Option (Kernel N × Int) := do
  let target ← k.schedThreads m.senderPid
  if (k.thread target).status ≠ .replyBlocked then
    some (k, -1)
  else
    let k₁ ← copyToWaiting setStatus k target reply
    let k₂ ← schedSwitch false k₁ (k₁.thread target).priority
    some (k₂, 1)

/- Reply from an interrupt handler. -/
def msgReplyInt
    (setStatus : StatusFn N) (k : Kernel N) (m reply : Msg) : Option (Kernel N × Int) := do
  let target ← k.schedThreads m.senderPid
  if (k.thread target).status ≠ .replyBlocked then
    some (k, -1)
  else
    let k₁ ← copyToWaiting setStatus k target reply
    some ({ k₁ with schedContextSwitchRequest := true }, 1)

----
-- Receiving
----

/- Take the index of the oldest queued message, if any. -/
def takeQueued
    (k : Kernel N) (me : Fin N) : Kernel N × Option Nat :=
  if k.hasMsgQueue me then
    (k.setQueue me (cibGet (k.thread me).msgQueue).1
        (k.thread me).msgArray, (cibGet (k.thread me).msgQueue).2)
  else
    (k, none)

/-
  Copy the queued message to the caller's object, or leave a
  pointer to that object for a sender.
-/
def fillOrWait
    (k : Kernel N) (me : Fin N) (queueIndex : Option Nat) : Option (Kernel N) :=
  match queueIndex with
  | some index => do
      let array ← (k.thread me).msgArray
      some (k.setBuffer me (array index))
  | none => some (k.setWaitData me (some me))

/-
  Copy the message of a waiting sender: into the queue if
  that has just been freed a cell of, else to the caller's
  object.
-/
def copyFromSender
    (k : Kernel N) (me sender : Fin N) (queueIndex : Option Nat) : Option (Kernel N) := do
  let senderMsg ← (k.thread sender).waitData
  let m := k.msgBuffer senderMsg
  match queueIndex with
  | some _ =>
    let (cib, index) := cibPut (k.thread me).msgQueue
    let n ← index
    let array ← (k.thread me).msgArray
    some (k.setQueue me cib (some (Function.update array n m)))
  | none => some (k.setBuffer me m)

/- Release a sender that does not wait for a reply. -/
def releaseSender
    (setStatus : StatusFn N) (k : Kernel N) (sender : Fin N) : Option (Kernel N) :=
  if (k.thread sender).status ≠ .replyBlocked then do
    let k₁ ← setStatus (k.setWaitData sender none) sender .pending
    if (k₁.thread sender).priority < threadPriorityIdle then
      schedSwitch false k₁ (k₁.thread sender).priority
    else
      some k₁
  else
    some k

/- The function `_msg_receive`. -/
def msgReceiveWith
    (setStatus : StatusFn N) (k : Kernel N) (block : Bool) : Option (Kernel N × Outcome) := do
  let me ← k.schedActiveThread
  let (k₀, queueIndex) := takeQueued k me
  if !block &&
      (k₀.next (.head (.waiting (.msgWaiters me))) == .null &&
        queueIndex.isNone) then
    some (k₀, .returned (-1))
  else
    let k₁ ← fillOrWait k₀ me queueIndex
    let (mem, next) ← listRemoveHead k₁.next (.waiting (.msgWaiters me))
    let k₂ := { k₁ with next := mem }
    match next with
    | none =>
      match queueIndex with
      | none =>
        let k₃ ← setStatus k₂ me .receiveBlocked
        some (threadYieldHigher k₃, .blocked)
      | some _ => some (k₂, .returned 1)
    | some sender =>
      let k₃ ← copyFromSender k₂ me sender queueIndex
      let k₄ ← releaseSender setStatus k₃ sender
      some (k₄, .returned 1)

/- Receive a message, non-blocking. -/
def msgTryReceive
    (setStatus : StatusFn N) (k : Kernel N) : Option (Kernel N × Outcome) :=
  msgReceiveWith setStatus k false

/- Receive a message, blocking. -/
def msgReceive
    (setStatus : StatusFn N) (k : Kernel N) : Option (Kernel N × Outcome) :=
  msgReceiveWith setStatus k true

end Riot
