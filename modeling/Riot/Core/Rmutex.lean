import Riot.Core.Mutex

/-
  The recursive mutex of `rmutex.c`.

  The functions do not run with interrupts disabled, so they
  are given as programs: `RmutexPc` names the next access of
  a call and `rmutexStep` makes it.
-/

----
-- Programs
----

namespace Riot

/- The fields of `rmutex_t`; `mutex` names the mutex. -/
structure Rmutex where
  mutex : Nat
  refcount : BitVec 16
  owner : Int

/- The contents of `RMUTEX_INIT`. -/
def rmutexInit (mutex : Nat) : Rmutex where
  mutex := mutex
  refcount := 0#16
  owner := kernelPidUndef

/-
  The next access of a call.  `waitMutex` is a thread inside
  a blocked `mutex_lock`, and `returned` the end of a call;
  `rmutex_unlock` has no result, for which 0 stands.
-/
inductive RmutexPc where
  | trylockMutex (trylock : Bool)
  | loadOwner (trylock : Bool)
  | lockMutex
  | waitMutex
  | storeOwner
  | incRefcount
  | assertOwner
  | assertRefcount
  | decRefcount
  | testRefcount
  | resetOwner
  | unlockMutex
  | returned (value : Int)
deriving DecidableEq, Repr

/- The function `_lock` starts with a try. -/
def lockEntry
    (trylock : Bool) : RmutexPc :=
  .trylockMutex trylock

def rmutexLock : RmutexPc := lockEntry false

def rmutexTrylock : RmutexPc := lockEntry true

def rmutexUnlock : RmutexPc := .assertOwner

variable {N : Nat}

/-
  One access by the active thread.  A failed assertion has
  no result.
-/
def rmutexStep
    (setStatus : StatusFn N) (k : Kernel N) (rmutex : Rmutex) :
    RmutexPc → Option (Kernel N × Rmutex × RmutexPc)
| .trylockMutex trylock => do
    let (k', outcome) ← mutexTrylock setStatus k rmutex.mutex
    some
      (k', rmutex,
        if outcome = .returned 0 then
          .loadOwner trylock
        else
          .storeOwner)
| .loadOwner trylock =>
  some
    (k, rmutex,
      if rmutex.owner ≠ k.schedActivePid then
        if trylock then .returned 0 else .lockMutex
      else
        .storeOwner)
| .lockMutex => do
    let (k', outcome) ← mutexLock setStatus k rmutex.mutex
    some
      (k', rmutex,
        if outcome = .blocked then .waitMutex else .storeOwner)
| .waitMutex => some (k, rmutex, .storeOwner)
| .storeOwner => some (k, { rmutex with owner := k.schedActivePid }, .incRefcount)
| .incRefcount => some (k, { rmutex with refcount := rmutex.refcount + 1#16 }, .returned 1)
| .assertOwner =>
  if rmutex.owner = k.schedActivePid then
    some (k, rmutex, .assertRefcount)
  else
    none
| .assertRefcount =>
  if 0 < rmutex.refcount.toNat then
    some (k, rmutex, .decRefcount)
  else
    none
| .decRefcount =>
  some (k, { rmutex with refcount := rmutex.refcount - 1#16 }, .testRefcount)
| .testRefcount =>
  some
    (k, rmutex,
      if rmutex.refcount = 0#16 then
        .resetOwner
      else
        .returned 0)
| .resetOwner => some (k, { rmutex with owner := kernelPidUndef }, .unlockMutex)
| .unlockMutex => do
    let k' ← mutexUnlock setStatus false k rmutex.mutex
    some (k', rmutex, .returned 0)
| .returned value => some (k, rmutex, .returned value)

end Riot
