import Mathlib.Logic.Function.Basic
import Riot.Lib.System

/-
  The counting semaphore of `sema.c`.

  A call is a sequence of atomic steps: sections with interrupts
  disabled, accesses to the state, and calls of the mutex. The
  mutex is free, or locked with a queue of threads.
-/

----
-- The Semaphore
----

namespace Riot

inductive SemaStatus where
  | ok
  | destroy
deriving DecidableEq, Repr

structure Sema (ι : Type) where
  value : Nat
  state : SemaStatus
  -- the queue of the mutex, if it is locked
  mutex : Option (List ι)

variable {ι : Type}

def semaCreate
    (value : Nat) : Sema ι where
  value := value
  state := .ok
  mutex := if value = 0 then some [] else none

/- The threads that wait for the mutex. -/
def Sema.waiters
    (s : Sema ι) : List ι :=
  s.mutex.getD []

/- Threads of the same priority queue up in order. -/
def addToQueue
    (prio : ι → Nat) (i : ι) (queue : List ι) : List ι :=
  queue.takeWhile (fun j => prio j ≤ prio i) ++ i :: queue.dropWhile (fun j => prio j ≤ prio i)

----
-- Threads
----

inductive SemaRet where
  | success
  | etimedout
  | eagain
  | ecanceled
  | eoverflow
deriving DecidableEq, Repr

/- Where a thread is in a call. -/
inductive SemaPc where
  -- outside of the functions, with the last result
  | idle
      (ret : Option SemaRet)
  -- before the state is read for the first time
  | waitCheck
      (block timed : Bool)
  -- before the loop condition is evaluated
  | waitEnter
      (didBlock block timed : Bool)
  | waitLock
      (timed : Bool)
  -- in the queue of the mutex
  | waitBlocked
      (timed : Bool)
  -- after the mutex was locked, or not locked in time
  | waitReturn
      (locked timed : Bool)
  | waitCancel
  | waitUnlock
  | postAdd
  | postUnlock
  | destroyMark
  | destroyUnlock
deriving DecidableEq, Repr

def SemaPc.isIdle : SemaPc → Bool
| .idle _ => true
| _ => false

def SemaPc.isBlocked : SemaPc → Bool
| .waitBlocked _ => true
| _ => false

/- The semaphore, its users, and what they did so far. -/
structure SemaRun (ι : Type) where
  sema : Sema ι
  pc : ι → SemaPc
  taken : Nat
  posted : Nat
  destroyStarted : Bool
  destroyDone : Bool

variable [DecidableEq ι]

def SemaRun.goto
    (r : SemaRun ι) (i : ι) (pc : SemaPc) : SemaRun ι :=
  { r with pc := Function.update r.pc i pc }

/- The first thread of the queue is given the mutex. -/
def SemaRun.mutexUnlock
    (r : SemaRun ι) : SemaRun ι :=
  match r.sema.mutex with
  | none => r
  | some [] => { r with sema := { r.sema with mutex := none } }
  | some (j :: queue) =>
    { r with
      sema := { r.sema with mutex := some queue }
      pc := Function.update r.pc j
        (match r.pc j with
        | .waitBlocked timed => .waitReturn true timed
        | pc => pc) }

----
-- Steps
----

variable (uintMax : Nat) (prio : ι → Nat)

/- The section in which a unit is taken. -/
def waitEnterStep
    (r : SemaRun ι) (i : ι) (didBlock block timed : Bool) : SemaRun ι :=
  if r.sema.value = 0 ∧ block = true then
    r.goto i (.waitLock timed)
  else if r.sema.value = 0 then
    r.goto i (.idle (some (if didBlock then .etimedout else .eagain)))
  else
    { r with sema := { r.sema with value := r.sema.value - 1 }, taken := r.taken + 1 }.goto i
        (if didBlock ∧ r.sema.value - 1 > 0 then .waitUnlock
        else .idle (some .success))

/- A timer that expired before does not let a thread block. -/
def waitLockStep
    (r : SemaRun ι) (i : ι) (timed expired : Bool) : SemaRun ι :=
  match r.sema.mutex with
  | none =>
    { r with sema := { r.sema with mutex := some [] } }.goto i (.waitReturn true timed)
  | some queue =>
    if timed ∧ expired then
      r.goto i (.waitReturn false timed)
    else
      { r with
        sema := { r.sema with mutex := some (addToQueue prio i queue) } }.goto i
        (.waitBlocked timed)

/- After the lock, a timed wait may have no time left. -/
def waitReturnStep
    (r : SemaRun ι) (i : ι) (locked timed expired : Bool) : SemaRun ι :=
  if r.sema.state = .ok then
    r.goto i (.waitEnter true (if timed then locked && !expired else true) timed)
  else
    r.goto i .waitCancel

def postAddStep
    (r : SemaRun ι) (i : ι) : SemaRun ι :=
  if r.sema.value = uintMax then
    r.goto i (.idle (some .eoverflow))
  else
    { r with sema := { r.sema with value := r.sema.value + 1 }, posted := r.posted + 1 }.goto i
        (if r.sema.value = 0 then .postUnlock
        else .idle (some .success))

/- The next step of a thread that is not blocked. -/
def semaStep
    (r : SemaRun ι) (i : ι) (expired : Bool) : SemaRun ι :=
  match r.pc i with
  | .idle _ => r
  | .waitCheck block timed =>
    if r.sema.state = .ok then
      r.goto i (.waitEnter block block timed)
    else
      r.goto i (.idle (some .ecanceled))
  | .waitEnter didBlock block timed => waitEnterStep r i didBlock block timed
  | .waitLock timed => waitLockStep prio r i timed expired
  | .waitBlocked _ => r
  | .waitReturn locked timed => waitReturnStep r i locked timed expired
  | .waitCancel => r.mutexUnlock.goto i (.idle (some .ecanceled))
  | .waitUnlock => r.mutexUnlock.goto i (.idle (some .success))
  | .postAdd => postAddStep uintMax r i
  | .postUnlock => r.mutexUnlock.goto i (.idle (some .success))
  | .destroyMark =>
    { r with sema := { r.sema with state := .destroy } }.goto i .destroyUnlock
  | .destroyUnlock => { r.mutexUnlock with destroyDone := true }.goto i (.idle none)

/- The timer of a blocked thread removes it from the queue. -/
def semaTimeout
    (r : SemaRun ι) (i : ι) : SemaRun ι :=
  { r with
    sema := { r.sema with
      mutex := r.sema.mutex.map (fun queue => queue.erase i) }
    pc := Function.update r.pc i (.waitReturn false true) }

----
-- Runs
----

inductive SemaEvent (ι : Type) where
  | callWait
      (i : ι)
      (block timed : Bool)
  | callPost
      (i : ι)
  | callDestroy
      (i : ι)
  | step
      (i : ι)
      (expired : Bool)
  | timeout
      (i : ι)

def SemaEvent.Possible
    (r : SemaRun ι) : SemaEvent ι → Prop
| .callWait i _ _ => (r.pc i).isIdle = true
| .callPost i => (r.pc i).isIdle = true
| .callDestroy i => (r.pc i).isIdle = true ∧ r.destroyStarted = false
| .step i _ => (r.pc i).isIdle = false ∧ (r.pc i).isBlocked = false
| .timeout i => r.pc i = .waitBlocked true

def semaExec
    (r : SemaRun ι) : SemaEvent ι → SemaRun ι
| .callWait i block timed => r.goto i (.waitCheck block timed)
| .callPost i => r.goto i .postAdd
| .callDestroy i => { r with destroyStarted := true }.goto i .destroyMark
| .step i expired => semaStep uintMax prio r i expired
| .timeout i => semaTimeout r i

/- A new semaphore that nobody uses yet. -/
def SemaRun.init
    (value : Nat) : SemaRun ι where
  sema := semaCreate value
  pc := fun _ => .idle none
  taken := 0
  posted := 0
  destroyStarted := false
  destroyDone := false

def semaSystem
    (value : Nat) : System (SemaRun ι) (SemaEvent ι) where
  Start := fun r => r = SemaRun.init value
  Enabled := fun r e => e.Possible r
  exec := fun r e => some (semaExec uintMax prio r e)

end Riot
