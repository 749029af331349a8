import Riot.Core.Bitarithm
import Riot.Core.Cib
import Riot.Core.Clist

/-
  Data model of the kernel: thread control blocks, the
  global variables of `sched.c`, and the memory of every
  `list_node_t` the core links.

  Thread control blocks live at the top of the stacks that
  callers hand to `thread_create`; a kernel has `N` of them,
  named by `Fin N`.  A thread's `rq_entry` is the list
  member of the same name.
-/

----
-- Thread Status
----

namespace Riot

/- Thread states, in the order of the enumeration. -/
inductive ThreadStatus where
  | stopped
  | zombie
  | sleeping
  | mutexBlocked
  | receiveBlocked
  | sendBlocked
  | replyBlocked
  | flagBlockedAny
  | flagBlockedAll
  | mboxBlocked
  | condBlocked
  | running
  | pending
deriving DecidableEq, Repr

namespace ThreadStatus

/- Value of the enumerator. -/
def toNat : ThreadStatus → Nat
| stopped => 0
| zombie => 1
| sleeping => 2
| mutexBlocked => 3
| receiveBlocked => 4
| sendBlocked => 5
| replyBlocked => 6
| flagBlockedAny => 7
| flagBlockedAll => 8
| mboxBlocked => 9
| condBlocked => 10
| running => 11
| pending => 12

/- The test `status >= STATUS_ON_RUNQUEUE`. -/
def onRunqueue
    (status : ThreadStatus) : Bool :=
  running.toNat ≤ status.toNat

end ThreadStatus

----
-- Constants
----

def schedPrioLevels : Nat := 16

def threadPriorityMin : Nat := schedPrioLevels - 1

def threadPriorityIdle : Nat := threadPriorityMin

def threadPriorityMain : Nat :=
  threadPriorityMin - schedPrioLevels / 2

def kernelPidUndef : Int := 0

def kernelPidFirst : Int := kernelPidUndef + 1

def maxthreads : Int := 32

def kernelPidLast : Int := kernelPidFirst + maxthreads - 1

def kernelPidIsr : Int := kernelPidLast + 1

/- The pids that index `sched_threads`. -/
def pidIsValid
    (pid : Int) : Bool :=
  kernelPidFirst ≤ pid && pid ≤ kernelPidLast

----
-- Kernel State
----

/- A message object. -/
structure Msg where
  senderPid : Int
  type : Nat
  content : Nat
deriving DecidableEq, Repr, Inhabited

/- The references of the lists that threads wait in. -/
inductive WaitHead (N : Nat) where
  | msgWaiters (thread : Fin N)
  | mutexQueue (mutex : Nat)
  | mboxReaders (mbox : Nat)
  | mboxWriters (mbox : Nat)
deriving DecidableEq, Repr

/- The list references of the core. -/
inductive ListHead (N : Nat) where
  | runqueue (prio : Nat)
  | waiting (list : WaitHead N)
deriving DecidableEq, Repr

/-
  The fields of a thread control block that the core reads.
  `waitData` designates the message object of a thread's
  current call, see `Kernel.msgBuffer`.
-/
structure Thread (N : Nat) where
  status : ThreadStatus
  priority : Nat
  pid : Int
  sTime : Int
  waitData : Option (Fin N)
  msgQueue : Cib
  msgArray : Option (Nat → Msg)

/- A control block in zeroed memory. -/
def Thread.zero (N : Nat) : Thread N where
  status := .stopped
  priority := 0
  pid := 0
  sTime := 0
  waitData := none
  msgQueue := ⟨0#32, 0#32, 0#32⟩
  msgArray := none

/- Counters and message array of a mailbox. -/
structure Mbox where
  cib : Cib
  msgArray : Nat → Msg

/- Bit order of the run-queue cache. -/
inductive BitOrder where
  | clz
  | lsb (build : LsbBuild)
deriving DecidableEq, Repr

/-
  Build configuration, and the control blocks on top of the
  two stacks that `kernel_init` uses.
-/
structure Config (N : Nat) where
  coreIdleThread : Bool
  bitOrder : BitOrder
  idleStack : Fin N
  mainStack : Fin N
  stacks_ne : idleStack ≠ mainStack

/-
  Kernel memory.

  `pendsv` is the pending scheduler interrupt that
  `thread_yield_higher` raises.  `runTimer` tells whether
  the `Run` timer is set.  `idleFrames` holds the local
  `previous_thread` of every `sched_run` that waits in the
  idle loop.  `msgBuffer t` is the message object that
  thread `t` passes to its current call.  `schedTrace`
  records the threads that `sched_run` returned, newest
  first, with the service time they had left.
-/
structure Kernel (N : Nat) where
  next : LinkMem (ListHead N) (Fin N)
  thread : Fin N → Thread N
  schedThreads : Int → Option (Fin N)
  schedNumThreads : Int
  schedActiveThread : Option (Fin N)
  schedActivePid : Int
  schedContextSwitchRequest : Bool
  runqueueBitcache : BitVec 32
  pendsv : Bool
  runTimer : Bool
  idleFrames : List (Option (Fin N))
  msgBuffer : Fin N → Msg
  mbox : Nat → Mbox
  schedTrace : List (Fin N × Int)

/- Memory before `kernel_init`. -/
def Kernel.zero (N : Nat) : Kernel N where
  next := fun _ => .null
  thread := fun _ => Thread.zero N
  schedThreads := fun _ => none
  schedNumThreads := 0
  schedActiveThread := none
  schedActivePid := kernelPidUndef
  schedContextSwitchRequest := false
  runqueueBitcache := 0#32
  pendsv := false
  runTimer := false
  idleFrames := []
  msgBuffer := fun _ => ⟨0, 0, 0⟩
  mbox := fun _ => ⟨⟨0#32, 0#32, 0#32⟩, fun _ => ⟨0, 0, 0⟩⟩
  schedTrace := []

namespace Kernel

variable {N : Nat}

/- Update one control block. -/
@[simps -fullyApplied next schedThreads schedNumThreads
  schedActiveThread schedActivePid
  schedContextSwitchRequest runqueueBitcache pendsv
  runTimer idleFrames msgBuffer mbox schedTrace]
def setThread
    (k : Kernel N) (t : Fin N) (f : Thread N → Thread N) : Kernel N :=
  { k with thread := Function.update k.thread t (f (k.thread t)) }

/- Store the status field of one control block. -/
@[simps! -fullyApplied next schedThreads schedNumThreads
  schedActiveThread schedActivePid
  schedContextSwitchRequest runqueueBitcache pendsv
  runTimer idleFrames msgBuffer mbox schedTrace]
def setStatus
    (k : Kernel N) (t : Fin N) (status : ThreadStatus) : Kernel N :=
  k.setThread t (fun thread => { thread with status := status })

/- The block that was updated. -/
@[simp]
theorem setThread_thread_same
    (k : Kernel N) (t : Fin N) (f : Thread N → Thread N) :
    (k.setThread t f).thread t = f (k.thread t) := by
  simp [setThread]

/- Every other block. -/
theorem setThread_thread_of_ne
    (k : Kernel N) {t u : Fin N} (f : Thread N → Thread N) (hNe : u ≠ t) :
    (k.setThread t f).thread u = k.thread u := by
  simp [setThread, Function.update_of_ne hNe]

/- What the update keeps of its block stays for every block. -/
theorem setThread_keeps
    {α : Type} (k : Kernel N) {t : Fin N} {f : Thread N → Thread N} (g : Thread N → α)
    (hKeep : g (f (k.thread t)) = g (k.thread t)) (u : Fin N) :
    g ((k.setThread t f).thread u) = g (k.thread u) := by
  by_cases hEq : u = t
  · subst hEq
    rw [setThread_thread_same]
    exact hKeep
  · rw [setThread_thread_of_ne k _ hEq]

/- A status store changes one status. -/
theorem setStatus_status
    (k : Kernel N) (t u : Fin N) (status : ThreadStatus) :
    ((k.setStatus t status).thread u).status = if u = t then status else (k.thread u).status := by
  by_cases hEq : u = t
  · subst hEq
    simp [setStatus]
  · simp [setStatus, setThread_thread_of_ne k _ hEq, hEq]

/- A status store keeps the other fields. -/
theorem setStatus_thread
    (k : Kernel N) (t u : Fin N) (status : ThreadStatus) :
    (k.setStatus t status).thread u = { k.thread u with
        status := ((k.setStatus t status).thread u).status } := by
  by_cases hEq : u = t
  · subst hEq
    simp [setStatus]
  · simp [setStatus, setThread_thread_of_ne k _ hEq]

@[simp]
theorem setStatus_priority
    (k : Kernel N) (t u : Fin N) (status : ThreadStatus) :
    ((k.setStatus t status).thread u).priority = (k.thread u).priority := by
  rw [setStatus_thread]

@[simp]
theorem setStatus_pid
    (k : Kernel N) (t u : Fin N) (status : ThreadStatus) :
    ((k.setStatus t status).thread u).pid = (k.thread u).pid := by
  rw [setStatus_thread]

@[simp]
theorem setStatus_sTime
    (k : Kernel N) (t u : Fin N) (status : ThreadStatus) :
    ((k.setStatus t status).thread u).sTime = (k.thread u).sTime := by
  rw [setStatus_thread]

@[simp]
theorem setStatus_waitData
    (k : Kernel N) (t u : Fin N) (status : ThreadStatus) :
    ((k.setStatus t status).thread u).waitData = (k.thread u).waitData := by
  rw [setStatus_thread]

/- Retrieve a control block by a checked pid. -/
def threadGet
    (k : Kernel N) (pid : Int) : Option (Fin N) :=
  if pidIsValid pid then k.schedThreads pid else none

/- The nodes of one run queue, first to last. -/
def runqueue
    (k : Kernel N) (prio : Nat) : List (Fin N) :=
  LinkMem.circularNodes N k.next (.runqueue prio)

end Kernel

end Riot
