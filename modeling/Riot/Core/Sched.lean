import Riot.Core.Kernel

/-
  The scheduler of `sched.c`.

  A fault (a null pointer read, or a traversal that does not
  end) is `none`.  `sched_run` is split where it waits for a
  runnable thread: `schedRun` enters the idle loop and
  `schedIdleReturn` leaves it.
-/

----
-- Run-Queue Cache
----

namespace Riot

namespace BitOrder

/- The cache bit of a priority. -/
def bit
    (order : BitOrder) (prio : Nat) : BitVec 32 :=
  match order with
  | .clz => 0x80000000#32 >>> prio
  | .lsb _ => 1#32 <<< prio

/- Whether the cache bit of a priority is set. -/
def test
    (order : BitOrder) (bitcache : BitVec 32) (prio : Nat) : Bool :=
  bitcache &&& order.bit prio ≠ 0#32

end BitOrder

variable {N : Nat}

/- Set the cache bit of the process's priority. -/
def setRunqueueBit
    (cfg : Config N) (k : Kernel N) (process : Fin N) : Kernel N :=
  { k with runqueueBitcache := k.runqueueBitcache ||| cfg.bitOrder.bit (k.thread process).priority }

/- Clear the cache bit of the process's priority. -/
def clearRunqueueBit
    (cfg : Config N) (k : Kernel N) (process : Fin N) : Kernel N :=
  { k with
    runqueueBitcache := k.runqueueBitcache &&& ~~~(cfg.bitOrder.bit (k.thread process).priority) }

/- Read the next priority off the cache. -/
def getPrioQueueFromRunqueue
    (order : BitOrder) (bitcache : BitVec 32) : Option Nat :=
  match order with
  | .clz => (bitarithmMsb bitcache).map (fun msb => 31 - msb)
  | .lsb build => bitarithmLsb build bitcache

----
-- Status Changes
----

/- The debug loop that counts every run queue. -/
def countRunqueues
    (mem : LinkMem (ListHead N) (Fin N)) : Option Unit :=
  (List.range schedPrioLevels).forM (fun i => (clistCount N mem (.runqueue i)).map (fun _ => ()))

/-
  Change a thread's status.  A thread that starts to run is
  pushed on its queue; when a thread stops running, the
  first node of its queue is popped.
-/
def schedSetStatus
    (cfg : Config N) (k : Kernel N) (process : Fin N)
    (status : ThreadStatus) : Option (Kernel N) :=
  let prio := (k.thread process).priority
  let queued := (k.thread process).status.onRunqueue
  if status.onRunqueue then
    if !queued then do
      let mem ← clistRpush k.next (.runqueue prio) process
      let k' := setRunqueueBit cfg { k with next := mem } process
      countRunqueues k'.next
      some (k'.setStatus process status)
    else
      some (k.setStatus process status)
  else
    if queued then do
      let (mem, _) ← clistLpop k.next (.runqueue prio)
      countRunqueues mem
      let k' := { k with next := mem }
      if mem (.head (.runqueue prio)) = .null then
        some ((clearRunqueueBit cfg k' process).setStatus process status)
      else
        some (k'.setStatus process status)
    else
      some (k.setStatus process status)

----
-- Scheduling
----

/- A running thread that gives up the CPU is pending. -/
def unschedule
    (k : Kernel N) (activeThread : Fin N) : Kernel N :=
  if (k.thread activeThread).status = .running then
    k.setStatus activeThread .pending
  else
    k

/- The same for the active thread, if there is one. -/
def unscheduleActive
    (k : Kernel N) (activeThread : Option (Fin N)) : Kernel N :=
  match activeThread with
  | some active => unschedule k active
  | none => k

/- The two pids that are exempt from service times. -/
def exemptPid
    (pid : Int) : Bool :=
  pid == 1 || pid == 2

/- Service time left after one turn. -/
def chargedTime
    (sTime : Int) : Int :=
  if 500 ≤ sTime then sTime - 500 else 0

/- Charge the outgoing thread for its turn. -/
def chargeActive
    (k : Kernel N) (activeThread : Option (Fin N)) : Kernel N :=
  match activeThread with
  | none => k
  | some active =>
    if exemptPid (k.thread active).pid then
      k
    else
      k.setThread active (fun thread =>
        { thread with sTime := chargedTime thread.sTime })

/- The run queue that `sched_run` reads. -/
def nextRunqueue
    (cfg : Config N)
    (k : Kernel N) : Option Nat := do
  let count ← clistCount N k.next (.runqueue 1)
  if count = 0 then
    some 15
  else
    getPrioQueueFromRunqueue cfg.bitOrder k.runqueueBitcache

/- The node `list->next->next`. -/
def clistFirst
    (mem : LinkMem (ListHead N) (Fin N)) (list : ListHead N) : Option (Fin N) :=
  match mem (.head list) with
  | .ref last =>
    match mem (.entry last) with
    | .ref first => some first
    | _ => none
  | _ => none

/- Make `nextThread` the active thread. -/
def switchTo
    (k : Kernel N) (activeThread previousThread : Option (Fin N))
    (nextThread : Fin N) : Kernel N :=
  let k₁ := k.setStatus nextThread .running
  if previousThread = some nextThread then
    k₁
  else
    let k₂ := unscheduleActive k₁ activeThread
    { k₂ with schedActivePid := (k₂.thread nextThread).pid, schedActiveThread := some nextThread }

/- Whether the service time of the next thread has expired. -/
def serviceTimeFired
    (k : Kernel N) (activeThread : Option (Fin N)) (nextThread : Fin N) : Bool :=
  match activeThread with
  | some active => !exemptPid (k.thread active).pid && (k.thread nextThread).sTime == 0
  | none => false

/- Drop the first node of queue 1 on an expired time. -/
def expireNext
    (k : Kernel N) (activeThread : Option (Fin N)) (nextThread : Fin N) :
    Option (LinkMem (ListHead N) (Fin N)) :=
  if serviceTimeFired k activeThread nextThread then
    (clistLpop k.next (.runqueue 1)).map Prod.fst
  else
    some k.next

/-
  The inner debug loop: advance queue 1 once for every node
  that queue `i` has.  The bound is counted anew each turn.
-/
def rotateFor
    (i : Nat) :
    Nat → Nat → LinkMem (ListHead N) (Fin N) → Option (LinkMem (ListHead N) (Fin N))
| 0, _, _ => none
| fuel + 1, j, mem => do
    let count ← clistCount N mem (.runqueue i)
    if j < count then
      let mem' ← clistLpoprpush mem (.runqueue 1)
      rotateFor i fuel (j + 1) mem'
    else
      some mem

/- The debug loop over all run queues. -/
def rotateRunqueues
    (mem : LinkMem (ListHead N) (Fin N)) :
    Option (LinkMem (ListHead N) (Fin N)) :=
  (List.range schedPrioLevels).foldlM
    (fun mem i => do
      let count ← clistCount N mem (.runqueue i)
      if count ≠ 0 then
        rotateFor i (N + 1) 0 mem
      else
        some mem)
    mem

/- Set the `Run` timer and record the returned thread. -/
def finishRun
    (k : Kernel N) (mem : LinkMem (ListHead N) (Fin N)) (nextThread : Fin N) : Kernel N :=
  { k with
    next := mem
    runTimer := (k.thread nextThread).pid != 1 || k.runTimer
    schedTrace := (nextThread, (k.thread nextThread).sTime) :: k.schedTrace }

/-
  The part of `sched_run` after the idle loop, with its two
  local thread pointers.
-/
def schedRunFrom
    (cfg : Config N) (k : Kernel N) (activeThread previousThread : Option (Fin N)) :
    Option (Kernel N) := do
  let nextrq ← nextRunqueue cfg k
  let nextThread ← clistFirst k.next (.runqueue nextrq)
  let k₁ := chargeActive { k with schedContextSwitchRequest := false } activeThread
  let k₂ := switchTo k₁ activeThread previousThread nextThread
  let popped ← expireNext k₂ activeThread nextThread
  let rotated ← rotateRunqueues popped
  some (finishRun k₂ rotated nextThread)

/- Whether `sched_run` has to wait for a runnable thread. -/
def mustIdle
    (cfg : Config N) (k : Kernel N) : Bool :=
  !cfg.coreIdleThread && k.runqueueBitcache == 0#32

/- Select a thread, or wait in the idle loop for one. -/
def schedRun
    (cfg : Config N) (k : Kernel N) : Option (Kernel N) :=
  if mustIdle cfg k then
    some { unscheduleActive k k.schedActiveThread with
      idleFrames := k.schedActiveThread :: k.idleFrames }
  else
    schedRunFrom cfg k k.schedActiveThread k.schedActiveThread

/-
  The idle loop ends: the innermost waiting `sched_run`
  continues without an active thread.
-/
def schedIdleReturn
    (cfg : Config N) (k : Kernel N) : Option (Kernel N) :=
  match k.idleFrames with
  | [] => none
  | previous :: frames => schedRunFrom cfg { k with idleFrames := frames } none previous

----
-- Yielding and Exit
----

/- Raise the scheduler interrupt. -/
def threadYieldHigher
    (k : Kernel N) : Kernel N :=
  { k with pendsv := true }

/- Yield if the other thread has a higher priority. -/
def schedSwitch
    (inIrq : Bool) (k : Kernel N) (otherPrio : Nat) : Option (Kernel N) := do
  let active ← k.schedActiveThread
  let currentPrio := (k.thread active).priority
  let onRunqueue := (k.thread active).status.onRunqueue
  if !onRunqueue || currentPrio > otherPrio then
    if inIrq then
      some { k with schedContextSwitchRequest := true }
    else
      some (threadYieldHigher k)
  else
    some k

/- End the active thread and leave its context. -/
def schedTaskExit
    (cfg : Config N) (k : Kernel N) : Option (Kernel N) := do
  let active ← k.schedActiveThread
  let k₁ :=
    { k with
      schedThreads := Function.update k.schedThreads k.schedActivePid none
      schedNumThreads := k.schedNumThreads - 1 }
  let k₂ ← schedSetStatus cfg k₁ active .stopped
  some (threadYieldHigher { k₂ with schedActiveThread := none })

end Riot
