import Riot.Core.Thread

/-
  The mutex of `mutex.c`.

  The pointer `queue.next` is null when the mutex is free,
  the marker `MUTEX_LOCKED` when it is taken and nobody
  waits, and the first waiting thread otherwise.

  Key definitions include:
    * `mutexLockWith`
    * `mutexLock`
    * `mutexTrylock`
    * `mutexUnlock`
    * `mutexUnlockAndSleep`
-/

----
-- Operations
----

namespace Riot

/-
  How a call leaves the caller: with a result, or blocked
  until another thread wakes it.
-/
inductive Outcome where
  | returned (value : Int)
  | blocked
deriving DecidableEq, Repr

variable {N : Nat}

/-
  Put the caller into the queue of a taken mutex.  The
  first waiter replaces the marker.
-/
def mutexEnqueue
    (k : Kernel N) (mutex : Nat) (me : Fin N) : Option (Kernel N) :=
  let queue : Cell (ListHead N) (Fin N) := .head (.waiting (.mutexQueue mutex))
  if k.next queue = .mark then
    some { k with next := (k.next.set queue (.ref me)).set (.entry me) .null }
  else
    threadAddToList k (.mutexQueue mutex) me

/- The function `_mutex_lock`. -/
def mutexLockWith
    (setStatus : StatusFn N) (k : Kernel N) (mutex : Nat)
    (blocking : Bool) : Option (Kernel N × Outcome) :=
  let queue : Cell (ListHead N) (Fin N) := .head (.waiting (.mutexQueue mutex))
  if k.next queue = .null then
    some ({ k with next := k.next.set queue .mark }, .returned 1)
  else if blocking then do
    let me ← k.schedActiveThread
    let k₁ ← setStatus k me .mutexBlocked
    let k₂ ← mutexEnqueue k₁ mutex me
    some (threadYieldHigher k₂, .blocked)
  else
    some (k, .returned 0)

/- Lock, blocking. -/
def mutexLock
    (setStatus : StatusFn N) (k : Kernel N) (mutex : Nat) : Option (Kernel N × Outcome) :=
  mutexLockWith setStatus k mutex true

/- Lock, non-blocking. -/
def mutexTrylock
    (setStatus : StatusFn N) (k : Kernel N) (mutex : Nat) : Option (Kernel N × Outcome) :=
  mutexLockWith setStatus k mutex false

/-
  Take the first waiter off the queue, make it pending, and
  restore the marker when the queue has drained.
-/
def mutexWakeFirst
    (setStatus : StatusFn N) (k : Kernel N) (mutex : Nat) : Option (Kernel N × Fin N) := do
  let queue : Cell (ListHead N) (Fin N) := .head (.waiting (.mutexQueue mutex))
  let (mem, next) ← listRemoveHead k.next (.waiting (.mutexQueue mutex))
  let process ← next
  let k₁ ← setStatus { k with next := mem } process .pending
  if k₁.next queue = .null then
    some ({ k₁ with next := k₁.next.set queue .mark }, process)
  else
    some (k₁, process)

/-
  The part that both unlock functions share: free the mutex,
  or hand it to the first waiter, which is returned.
-/
def mutexRelease
    (setStatus : StatusFn N) (k : Kernel N)
    (mutex : Nat) : Option (Kernel N × Option (Fin N)) :=
  let queue : Cell (ListHead N) (Fin N) := .head (.waiting (.mutexQueue mutex))
  if k.next queue = .null then
    some (k, none)
  else if k.next queue = .mark then
    some ({ k with next := k.next.set queue .null }, none)
  else
    (mutexWakeFirst setStatus k mutex).map (fun result => (result.1, some result.2))

/- Unlock the mutex and yield to the waiter it wakes. -/
def mutexUnlock
    (setStatus : StatusFn N) (inIrq : Bool) (k : Kernel N)
    (mutex : Nat) : Option (Kernel N) := do
  match ← mutexRelease setStatus k mutex with
  | (k₁, none) => some k₁
  | (k₁, some process) => schedSwitch inIrq k₁ (k₁.thread process).priority

/- Unlock the mutex and put the active thread to sleep. -/
def mutexUnlockAndSleep
    (setStatus : StatusFn N) (k : Kernel N) (mutex : Nat) : Option (Kernel N) := do
  let (k₁, _) ← mutexRelease setStatus k mutex
  let active ← k₁.schedActiveThread
  let k₂ ← setStatus k₁ active .sleeping
  some (threadYieldHigher k₂)

end Riot
