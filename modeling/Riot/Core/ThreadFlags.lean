import Riot.Core.Msg

/-
  Thread flags, `thread_flags.c`, and the sending side of
  `msg.c` in a build that has them.

  A wait call is cut at its critical sections: the functions
  below are executed one at a time, and other threads may run
  in between.
-/

----
-- Flags
----

namespace Riot

/-
  The kernel, with the `flags` word of every thread.  The
  field `wait_data` may hold a mask: `waitMask t` is its
  lower half, the value of `(uint16_t)(unsigned)wait_data`.
-/
structure FlagKernel (N : Nat) where
  kernel : Kernel N
  flags : Fin N → BitVec 16
  waitMask : Fin N → BitVec 16

def threadFlagMsgWaiting : BitVec 16 := 1#16 <<< 15

variable {N : Nat}

namespace FlagKernel

/- Store the flags of a thread. -/
def setFlags
    (f : FlagKernel N) (t : Fin N) (flags : BitVec 16) : FlagKernel N :=
  { f with flags := Function.update f.flags t flags }

/- Store a mask in `wait_data`. -/
def setWaitMask
    (f : FlagKernel N) (t : Fin N) (mask : BitVec 16) : FlagKernel N :=
  { f with kernel := f.kernel.setWaitData t none, waitMask := Function.update f.waitMask t mask }

/-
  Store the address of a thread's message object in its
  `wait_data`; `address` has the lower halves of these.
-/
def setWaitObject
    (address : Fin N → BitVec 16) (f : FlagKernel N) (t : Fin N) : FlagKernel N :=
  { f with
    kernel := f.kernel.setWaitData t (some t)
    waitMask := Function.update f.waitMask t (address t) }

end FlagKernel

/- What the thread waits for has happened. -/
def flagsWakeup
    (f : FlagKernel N) (t : Fin N) : Bool :=
  match (f.kernel.thread t).status with
  | .flagBlockedAny => f.flags t &&& f.waitMask t ≠ 0#16
  | .flagBlockedAll => f.flags t &&& f.waitMask t = f.waitMask t
  | _ => false

/- The function `_thread_flags_wake`. -/
def threadFlagsWake
    (setStatus : StatusFn N) (f : FlagKernel N) (t : Fin N) : Option (FlagKernel N × Bool) :=
  if flagsWakeup f t then do
    let k ← setStatus f.kernel t .pending
    some
      ({ f with kernel := { k with schedContextSwitchRequest := true } }, true)
  else
    some (f, false)

/- The function `_thread_flags_clear_atomic`. -/
def threadFlagsClearAtomic
    (f : FlagKernel N) (t : Fin N) (mask : BitVec 16) : FlagKernel N × BitVec 16 :=
  let cleared := mask &&& f.flags t
  (f.setFlags t (f.flags t &&& ~~~cleared), cleared)

/- Clear flags of the active thread. -/
def threadFlagsClear
    (f : FlagKernel N) (mask : BitVec 16) : Option (FlagKernel N × BitVec 16) := do
  let me ← f.kernel.schedActiveThread
  some (threadFlagsClearAtomic f me mask)

/- The function `_thread_flags_wait`. -/
def threadFlagsWait
    (setStatus : StatusFn N) (f : FlagKernel N) (mask : BitVec 16) (t : Fin N)
    (threadstate : ThreadStatus) : Option (FlagKernel N) := do
  let f₁ := f.setWaitMask t mask
  let k ← setStatus f₁.kernel t threadstate
  some { f₁ with kernel := threadYieldHigher k }

/- The function `_thread_flags_wait_any`, up to its yield. -/
def threadFlagsWaitAny
    (setStatus : StatusFn N) (f : FlagKernel N) (mask : BitVec 16) : Option (FlagKernel N) := do
  let me ← f.kernel.schedActiveThread
  if f.flags me &&& mask = 0#16 then
    threadFlagsWait setStatus f mask me .flagBlockedAny
  else
    some f

/- The first part of `thread_flags_wait_all`. -/
def threadFlagsWaitAll
    (setStatus : StatusFn N) (f : FlagKernel N) (mask : BitVec 16) : Option (FlagKernel N) := do
  let me ← f.kernel.schedActiveThread
  if f.flags me &&& mask = mask then
    some f
  else
    threadFlagsWait setStatus f mask me .flagBlockedAll

/- All but the least significant bit are cleared. -/
def leastBit
    (tmp : BitVec 16) : BitVec 16 :=
  tmp &&& (~~~tmp + 1#16)

/- Set flags of a thread. -/
def threadFlagsSet
    (setStatus : StatusFn N) (f : FlagKernel N) (t : Fin N)
    (mask : BitVec 16) : Option (FlagKernel N) := do
  let (f₁, woken) ← threadFlagsWake setStatus (f.setFlags t (f.flags t ||| mask)) t
  if woken then
    some { f₁ with kernel := threadYieldHigher f₁.kernel }
  else
    some f₁

----
-- Messages
----

/- Tell a thread that it has a message. -/
def setMsgWaiting
    (setStatus : StatusFn N) (f : FlagKernel N) (target : Fin N) : Option (FlagKernel N) :=
  (threadFlagsWake setStatus
    (f.setFlags target (f.flags target ||| threadFlagMsgWaiting))
    target).map Prod.fst

/- The function `queue_msg`. -/
def queueMsgFlags
    (setStatus : StatusFn N) (f : FlagKernel N) (target : Fin N)
    (m : Msg) : Option (FlagKernel N × Bool) := do
  let (k, queued) ← queueMsg f.kernel target m
  if queued then
    let f₁ ← setMsgWaiting setStatus { f with kernel := k } target
    some (f₁, true)
  else
    some ({ f with kernel := k }, false)

/- Wait in the list of the target, which is told. -/
def sendBlockingFlags
    (setStatus : StatusFn N) (address : Fin N → BitVec 16) (f : FlagKernel N)
    (me target : Fin N) : Option (FlagKernel N) := do
  let newstatus :=
    if (f.kernel.thread me).status = .replyBlocked then
      ThreadStatus.replyBlocked
    else
      ThreadStatus.sendBlocked
  let f₁ := f.setWaitObject address me
  let k₁ ← setStatus f₁.kernel me newstatus
  let k₂ ← threadAddToList k₁ (.msgWaiters target) me
  setMsgWaiting setStatus { f₁ with kernel := k₂ } target

/- The function `_msg_send`. -/
def msgSendWithFlags
    (setStatus : StatusFn N) (address : Fin N → BitVec 16) (f : FlagKernel N) (m : Msg)
    (targetPid : Int) (block : Bool) : Option (FlagKernel N × Outcome) := do
  let me ← f.kernel.schedActiveThread
  let m' : Msg := { m with senderPid := f.kernel.schedActivePid }
  let f₀ := { f with kernel := f.kernel.setBuffer me m' }
  match f₀.kernel.schedThreads targetPid with
  | none => some (f₀, .returned (-1))
  | some target =>
    if (f₀.kernel.thread target).status ≠ .receiveBlocked then
      let (f₁, queued) ← queueMsgFlags setStatus f₀ target m'
      if queued then
        some ({ f₁ with kernel := yieldForReply f₁.kernel me }, sendOutcome f₁.kernel me)
      else if !block then
        some (f₁, .returned 0)
      else
        let f₂ ← sendBlockingFlags setStatus address f₁ me target
        some ({ f₂ with kernel := threadYieldHigher f₂.kernel }, .blocked)
    else
      let k₁ ← copyToWaiting setStatus f₀.kernel target m'
      some ({ f₀ with kernel := threadYieldHigher k₁ }, sendOutcome k₁ me)

/- Send a message to the caller itself. -/
def msgSendToSelfFlags
    (setStatus : StatusFn N) (f : FlagKernel N)
    (m : Msg) : Option (FlagKernel N × Outcome) := do
  let me ← f.kernel.schedActiveThread
  let m' : Msg := { m with senderPid := f.kernel.schedActivePid }
  let (f₁, queued) ← queueMsgFlags setStatus { f with kernel := f.kernel.setBuffer me m' } me m'
  some (f₁, .returned (if queued then 1 else 0))

/- The part that both send functions of a thread share. -/
def msgSendFromFlags
    (setStatus : StatusFn N) (address : Fin N → BitVec 16) (f : FlagKernel N) (m : Msg)
    (targetPid : Int) (block : Bool) : Option (FlagKernel N × Outcome) :=
  if f.kernel.schedActivePid = targetPid then
    msgSendToSelfFlags setStatus f m
  else
    msgSendWithFlags setStatus address f m targetPid block

/- Send a message and wait for the reply. -/
def msgSendReceiveFlags
    (setStatus : StatusFn N) (address : Fin N → BitVec 16) (f : FlagKernel N) (m : Msg)
    (targetPid : Int) : Option (FlagKernel N × Outcome) :=
  if f.kernel.schedActivePid = targetPid then
    none
  else do
    let me ← f.kernel.schedActiveThread
    let k₁ ← setStatus f.kernel me .replyBlocked
    msgSendWithFlags setStatus address
      (({ f with kernel := k₁ } : FlagKernel N).setWaitObject address me) m
      targetPid true

/-
  The function `_msg_send_oneway`, which `msg_send_int` and
  `msg_send_bus` call.
-/
def msgSendOnewayFlags
    (setStatus : StatusFn N) (f : FlagKernel N) (m : Msg)
    (targetPid : Int) : Option (FlagKernel N × Int) :=
  match f.kernel.schedThreads targetPid with
  | none => some (f, -1)
  | some target =>
    if (f.kernel.thread target).status = .receiveBlocked then do
      let k₁ ← copyToWaiting setStatus f.kernel target m
      some
        ({ f with kernel := { k₁ with schedContextSwitchRequest := true } }, 1)
    else do
      let (f₁, queued) ← queueMsgFlags setStatus f target m
      some (f₁, if queued then 1 else 0)

end Riot
