import Riot.Core.Rmutex
import Riot.Protocols.MutexProtocol

/-
  The recursive mutex, over every interleaving of the single
  accesses of its calls.

  `MutexState` tells who owns the mutex below.  `depth` is
  the number of locks a thread has taken and not given back,
  `pc` the next access of the call a thread is in, if any.
-/

----
-- System
----

namespace Riot

/- A recursive mutex and the threads that use it. -/
structure RmutexState (N : Nat) where
  base : MutexState N
  rmutex : Rmutex
  pc : Fin N → Option RmutexPc
  depth : Fin N → Nat

/- A thread starts a call, or makes its next access. -/
inductive RmutexOp (N : Nat) where
  | rmutexLock (t : Fin N)
  | rmutexTrylock (t : Fin N)
  | rmutexUnlock (t : Fin N)
  | access (t : Fin N)
deriving DecidableEq, Repr

variable {N : Nat}

/- The largest value of the counter. -/
def refcountMax : Nat := 65535

/- What is left of a call; nothing when it has returned. -/
def RmutexPc.rest : RmutexPc → Option RmutexPc
| .returned _ => none
| pc => some pc

namespace RmutexState

/- The mutex below after an access, up to its kernel. -/
def baseAfter
    (s : RmutexState N) (t : Fin N) (pc pc' : RmutexPc) (k' : Kernel N) : MutexState N :=
  match pc with
  | .trylockMutex _ =>
    (s.base.locked t s.rmutex.mutex (k', .returned (if pc' = .storeOwner then 1 else 0))).settle
  | .lockMutex =>
    (s.base.locked t s.rmutex.mutex
      (k',
        if pc' = .storeOwner then
          .returned 1
        else
          .blocked)).settle
  | .unlockMutex => (s.base.unlocked t s.rmutex.mutex k').settle
  | _ => { s.base with kernel := k' }

/- Locks held after an access: the end of a call counts. -/
def depthAfter
    (depth : Nat) : RmutexPc → RmutexPc → Nat
| .incRefcount, .returned _ => depth + 1
| .testRefcount, .returned _ => depth - 1
| .unlockMutex, .returned _ => depth - 1
| _, _ => depth

/- Record an access. -/
def accessed
    (s : RmutexState N) (t : Fin N) (pc : RmutexPc) (result : Kernel N × Rmutex × RmutexPc) :
    RmutexState N :=
  match result with
  | (k', rmutex', pc') =>
    { base := s.baseAfter t pc pc' k'
      rmutex := rmutex'
      pc := Function.update s.pc t pc'.rest
      depth := Function.update s.depth t (depthAfter (s.depth t) pc pc') }

/- A thread enters a call. -/
def enter
    (s : RmutexState N) (t : Fin N) (pc : RmutexPc) : RmutexState N :=
  { s with pc := Function.update s.pc t (some pc) }

end RmutexState

namespace RmutexOp

/-
  Blocked threads do nothing.  A thread takes a lock only
  while the counter can count it, and gives back only what
  it has taken.
-/
def Enabled
    (s : RmutexState N) : RmutexOp N → Prop
| .rmutexLock t => s.base.kernel.runnable t = true ∧ s.pc t = none ∧ s.depth t < refcountMax
| .rmutexTrylock t =>
  s.base.kernel.runnable t = true ∧ s.pc t = none ∧ s.depth t < refcountMax
| .rmutexUnlock t => s.base.kernel.runnable t = true ∧ s.pc t = none ∧ 0 < s.depth t
| .access t => s.base.kernel.runnable t = true ∧ (s.pc t).isSome = true

instance
    (s : RmutexState N) (op : RmutexOp N) :
    Decidable (Enabled s op) := by
  cases op <;> unfold Enabled <;> infer_instance

/- The effect of a step. -/
def exec
    (s : RmutexState N) :
    RmutexOp N → Option (RmutexState N)
| .rmutexLock t => some (s.enter t Riot.rmutexLock)
| .rmutexTrylock t => some (s.enter t Riot.rmutexTrylock)
| .rmutexUnlock t => some (s.enter t Riot.rmutexUnlock)
| .access t => do
    let pc ← s.pc t
    (rmutexStep storeStatus (s.base.kernel.dispatch t) s.rmutex pc).map (s.accessed t pc)

end RmutexOp

/-
  A recursive mutex that has just been initialised, used by
  threads with different pids.
-/
def rmutexSystem (N : Nat) :
    System (RmutexState N) (RmutexOp N) where
  Start := fun s =>
    (mutexSystem N).Start s.base ∧ s.rmutex = rmutexInit s.rmutex.mutex ∧ (∀ t, s.pc t = none) ∧
      (∀ t, s.depth t = 0) ∧ (∀ t, (s.base.kernel.thread t).pid ≠ kernelPidUndef) ∧
      ∀ t u, (s.base.kernel.thread t).pid = (s.base.kernel.thread u).pid → t = u
  Enabled := RmutexOp.Enabled
  exec := RmutexOp.exec

instance
    (s : RmutexState N) (op : RmutexOp N) :
    Decidable ((rmutexSystem N).Enabled s op) :=
  inferInstanceAs (Decidable (op.Enabled s))

----
-- Invariant
----

/- The thread owns the mutex below. -/
def RmutexState.owns
    (s : RmutexState N) (t : Fin N) : Bool :=
  s.base.owns s.rmutex.mutex t

/-
  What the next access of a thread tells about the locks it
  holds, the mutex it owns and the mutex it waits for.
-/
def Consistent
    (mutex depth : Nat) (owns : Bool)
    (waitsFor : Option Nat) : Option RmutexPc → Prop
| none => waitsFor = none ∧ (owns = true ↔ 0 < depth)
| some (.trylockMutex _) =>
  waitsFor = none ∧ (owns = true ↔ 0 < depth) ∧ depth < refcountMax
| some (.loadOwner _) => waitsFor = none ∧ (owns = true ↔ 0 < depth) ∧ depth < refcountMax
| some .lockMutex => waitsFor = none ∧ owns = false ∧ depth = 0
| some .waitMutex =>
  depth = 0 ∧ ((waitsFor = some mutex ∧ owns = false) ∨ (waitsFor = none ∧ owns = true))
| some .storeOwner => waitsFor = none ∧ owns = true ∧ depth < refcountMax
| some .incRefcount => waitsFor = none ∧ owns = true ∧ depth < refcountMax
| some .resetOwner => waitsFor = none ∧ owns = true ∧ depth = 1
| some .unlockMutex => waitsFor = none ∧ owns = true ∧ depth = 1
| some (.returned _) => False
| some _ => waitsFor = none ∧ owns = true ∧ 0 < depth

/- Only a thread inside `mutex_lock` waits. -/
theorem Consistent.waits
    {mutex depth : Nat} {owns : Bool} {waitsFor : Option Nat} {pc : Option RmutexPc}
    (hConsistent : Consistent mutex depth owns waitsFor pc) :
    waitsFor = none ∨ (waitsFor = some mutex ∧ depth = 0 ∧ pc = some .waitMutex) := by
  cases pc with
  | none => exact .inl hConsistent.1
  | some pc =>
    cases pc with
    | waitMutex =>
      rcases hConsistent with ⟨hDepth, hWaits | hOwns⟩
      · exact .inr ⟨hWaits.1, hDepth, rfl⟩
      · exact .inl hOwns.1
    | returned value => exact hConsistent.elim
    | _ => exact .inl hConsistent.1

/- Value of the counter while the thread owns the mutex. -/
def refcountOf
    (depth : Nat) : Option RmutexPc → Nat
| some .testRefcount => depth - 1
| some .resetOwner => depth - 1
| some .unlockMutex => depth - 1
| _ => depth

/- Whether `owner` then has the pid of the thread. -/
def ownerStored
    (depth : Nat) : Option RmutexPc → Bool
| some .incRefcount => true
| some .unlockMutex => false
| _ => 0 < depth

/- The fields agree with what their owner has done. -/
def RmutexState.FieldsOf
    (s : RmutexState N) (t : Fin N) : Prop :=
  s.rmutex.refcount.toNat = refcountOf (s.depth t) (s.pc t) ∧ s.rmutex.owner =
      if ownerStored (s.depth t) (s.pc t) then
        (s.base.kernel.thread t).pid
      else
        kernelPidUndef

/- What every run keeps. -/
structure RmutexInv (s : RmutexState N) : Prop where
  mutex : ∃ w, MutexInv s.base w
  pids_ne : ∀ t, (s.base.kernel.thread t).pid ≠ kernelPidUndef
  pids_inj : ∀ t u, (s.base.kernel.thread t).pid = (s.base.kernel.thread u).pid → t = u
  consistent : ∀ t, Consistent s.rmutex.mutex (s.depth t) (s.owns t) (s.base.waitsFor t) (s.pc t)
  unowned : (∀ t, s.owns t = false) → s.rmutex.refcount = 0#16 ∧ s.rmutex.owner = kernelPidUndef
  owned : ∀ t, s.owns t = true → s.FieldsOf t

namespace RmutexInv

variable {s : RmutexState N} {t u : Fin N} {pc : RmutexPc} {k' : Kernel N}

section

variable (hInv : RmutexInv s)

include hInv

/- The mutex below has at most one owner. -/
theorem owner_unique
    (hT : s.owns t = true) (hU : s.owns u = true) :
    t = u := by
  rcases hInv.mutex with ⟨w, hMutex⟩
  exact hMutex.eq_of_owns hT hU

/- A thread that finds its own pid owns the mutex. -/
theorem owns_of_owner_eq
    (hOwner : s.rmutex.owner = (s.base.kernel.thread t).pid) :
    s.owns t = true := by
  by_contra hNot
  by_cases hSome : ∃ u, s.owns u = true
  · -- The field has the owner's pid or none.
    rcases hSome with ⟨u, hU⟩
    have hField := (hInv.owned u hU).2
    rw [hOwner] at hField
    split at hField
    · have hEq := hInv.pids_inj t u hField
      subst hEq
      exact hNot hU
    · exact hInv.pids_ne t hField
  · have hNone : ∀ u, s.owns u = false := by
      intro u
      rw [Bool.eq_false_iff]
      exact fun hU => hSome ⟨u, hU⟩
    have hField := (hInv.unowned hNone).2
    rw [hOwner] at hField
    exact hInv.pids_ne t hField

/- Entering a call changes nothing but the next access. -/
theorem enter
    (hPc : s.pc t = none)
    (hConsistent : Consistent s.rmutex.mutex (s.depth t) (s.owns t) (s.base.waitsFor t) (some pc))
    (hRefcount : refcountOf (s.depth t) (some pc) = s.depth t)
    (hStored : ownerStored (s.depth t) (some pc) = ownerStored (s.depth t) none) :
    RmutexInv (s.enter t pc) := by
  constructor
  · exact hInv.mutex
  · exact hInv.pids_ne
  · exact hInv.pids_inj
  · intro x
    by_cases hx : x = t
    · subst hx
      simp only [RmutexState.enter, Function.update_self]
      exact hConsistent
    · simp only [RmutexState.enter, Function.update_of_ne hx]
      exact hInv.consistent x
  · exact hInv.unowned
  · intro x hOwns
    have hFields := hInv.owned x hOwns
    unfold RmutexState.FieldsOf at hFields ⊢
    by_cases hx : x = t
    · subst hx
      rw [hPc] at hFields
      simp only [RmutexState.enter, Function.update_self]
      rw [hRefcount, hStored]
      exact hFields
    · simp only [RmutexState.enter, Function.update_of_ne hx]
      exact hFields

/-
  An access that leaves the mutex below alone.  Only the
  owner stores to the fields.
-/
theorem accessLocal
    {pc pc' : RmutexPc} {rmutex' : Rmutex}
    (hBase : s.baseAfter t pc pc' (s.base.kernel.dispatch t) =
        { s.base with kernel := s.base.kernel.dispatch t })
    (hName : rmutex'.mutex = s.rmutex.mutex)
    (hConsistent : Consistent s.rmutex.mutex (RmutexState.depthAfter (s.depth t) pc pc')
        (s.owns t) (s.base.waitsFor t) pc'.rest)
    (hOwned : s.owns t = true → rmutex'.refcount.toNat =
            refcountOf (RmutexState.depthAfter (s.depth t) pc pc') pc'.rest ∧ rmutex'.owner =
            if ownerStored (RmutexState.depthAfter (s.depth t) pc pc') pc'.rest then
              (s.base.kernel.thread t).pid
            else kernelPidUndef)
    (hOther : s.owns t = false → rmutex' = s.rmutex) :
    RmutexInv (s.accessed t pc (s.base.kernel.dispatch t, rmutex', pc')) := by
  have hOwns :
      ∀ x, (s.accessed t pc (s.base.kernel.dispatch t, rmutex', pc')).owns x = s.owns x := by
    intro x
    unfold RmutexState.owns RmutexState.accessed
    simp only [hBase, hName]
  constructor
  · rcases hInv.mutex with ⟨w, hMutex⟩
    refine ⟨w, ?_⟩
    simp only [RmutexState.accessed, hBase]
    exact hMutex.setKernel rfl (fun _ => Iff.rfl) (fun _ => rfl)
  · simp only [RmutexState.accessed, hBase]
    exact hInv.pids_ne
  · simp only [RmutexState.accessed, hBase]
    exact hInv.pids_inj
  · intro x
    rw [hOwns]
    simp only [RmutexState.accessed, hBase, hName]
    by_cases hx : x = t
    · subst hx
      simp only [Function.update_self]
      exact hConsistent
    · simp only [Function.update_of_ne hx]
      exact hInv.consistent x
  · intro hNone
    simp only [hOwns] at hNone
    simp only [RmutexState.accessed, hOther (hNone t)]
    exact hInv.unowned hNone
  · intro x hx
    rw [hOwns] at hx
    unfold RmutexState.FieldsOf
    simp only [RmutexState.accessed, hBase]
    by_cases hEq : x = t
    · subst hEq
      simp only [Function.update_self]
      exact hOwned hx
    · have hNot : s.owns t = false := by
        rw [Bool.eq_false_iff]
        exact fun hT => hEq (hInv.owner_unique hx hT)
      simp only [Function.update_of_ne hEq, hOther hNot]
      exact hInv.owned x hx

/- The fields as the owner's next access finds them. -/
theorem fields
    (hPc : s.pc t = some pc) (hOwns : s.owns t = true) :
    s.rmutex.refcount.toNat = refcountOf (s.depth t) (some pc) ∧ s.rmutex.owner =
        if ownerStored (s.depth t) (some pc) then (s.base.kernel.thread t).pid
        else kernelPidUndef := by
  have hFields := hInv.owned t hOwns
  unfold RmutexState.FieldsOf at hFields
  rw [hPc] at hFields
  exact hFields

/- The owner passes the test of `owner`. -/
theorem owner_eq
    (hPc : s.pc t = some pc) (hOwns : s.owns t = true)
    (hStored : ownerStored (s.depth t) (some pc) = true) :
    s.rmutex.owner = (s.base.kernel.thread t).pid := by
  have hField := (hInv.fields hPc hOwns).2
  rw [hStored] at hField
  exact hField

/- An access to the mutex below leaves the fields alone. -/
theorem accessBase
    {pc pc' : RmutexPc} {base' : MutexState N}
    (hBase : s.baseAfter t pc pc' k' = base') (hMutex : ∃ w, MutexInv base' w)
    (hPids : ∀ x, (base'.kernel.thread x).pid = (s.base.kernel.thread x).pid)
    (hConsistent : Consistent s.rmutex.mutex (RmutexState.depthAfter (s.depth t) pc pc')
        (base'.owns s.rmutex.mutex t) (base'.waitsFor t)
        pc'.rest)
    (hOthers : ∀ x, x ≠ t → Consistent s.rmutex.mutex (s.depth x)
          (base'.owns s.rmutex.mutex x) (base'.waitsFor x)
          (s.pc x))
    (hUnowned : (∀ x, base'.owns s.rmutex.mutex x = false) →
        s.rmutex.refcount = 0#16 ∧ s.rmutex.owner = kernelPidUndef)
    (hSelf : base'.owns s.rmutex.mutex t = true → s.rmutex.refcount.toNat =
            refcountOf (RmutexState.depthAfter (s.depth t) pc pc') pc'.rest ∧ s.rmutex.owner =
            if ownerStored (RmutexState.depthAfter (s.depth t) pc pc') pc'.rest then
              (s.base.kernel.thread t).pid
            else kernelPidUndef)
    (hOwned : ∀ x, x ≠ t → base'.owns s.rmutex.mutex x = true → s.FieldsOf x) :
    RmutexInv (s.accessed t pc (k', s.rmutex, pc')) := by
  constructor
  · simp only [RmutexState.accessed, hBase]
    exact hMutex
  · intro x
    simp only [RmutexState.accessed, hBase, hPids]
    exact hInv.pids_ne x
  · intro x y
    simp only [RmutexState.accessed, hBase, hPids]
    exact hInv.pids_inj x y
  · intro x
    unfold RmutexState.owns
    simp only [RmutexState.accessed, hBase]
    by_cases hx : x = t
    · subst hx
      simp only [Function.update_self]
      exact hConsistent
    · simp only [Function.update_of_ne hx]
      exact hOthers x hx
  · unfold RmutexState.owns
    simp only [RmutexState.accessed, hBase]
    exact hUnowned
  · intro x
    unfold RmutexState.owns RmutexState.FieldsOf
    simp only [RmutexState.accessed, hBase, hPids]
    by_cases hx : x = t
    · subst hx
      simp only [Function.update_self]
      exact hSelf
    · simp only [Function.update_of_ne hx]
      exact hOwned x hx

/- A thread takes the free mutex. -/
theorem accessAcquire
    (hFree : s.base.kernel.mutexRef s.rmutex.mutex = .null)
    (hNext : k'.next = s.base.kernel.next.set (.head (.waiting (.mutexQueue s.rmutex.mutex))) .mark)
    (hThread : k'.thread = s.base.kernel.thread)
    (hBase :
      s.baseAfter t pc .storeOwner k' = (s.base.locked t s.rmutex.mutex (k', .returned 1)).settle)
    (hDepth : RmutexState.depthAfter (s.depth t) pc .storeOwner = 0)
    (hWaits : s.base.waitsFor t = none) :
    RmutexInv (s.accessed t pc (k', s.rmutex, .storeOwner)) := by
  rcases hInv.mutex with ⟨w, hMutex⟩
  have hAcquired : MutexInv (s.base.locked t s.rmutex.mutex (k', .returned 1)) w :=
    hMutex.acquire hFree hNext hThread
  rw [MutexState.settle_eq hAcquired.blocked] at hBase
  have hNone : ∀ x, s.owns x = false := by
    rcases hMutex.owner s.rmutex.mutex with ⟨_, hNone⟩ | ⟨hTaken, _⟩
    · exact hNone
    · exact (hTaken hFree).elim
  have hFields := hInv.unowned hNone
  have hOwns : ∀ x, (s.base.locked t s.rmutex.mutex
            (k', .returned 1)).owns s.rmutex.mutex x = decide (x = t) := by
    intro x
    unfold MutexState.locked
    dsimp only
    rw [Function.update_self]
    by_cases hx : x = t
    · subst hx
      simp
    · rw [Function.update_of_ne hx, decide_eq_false hx]
      exact hNone x
  apply hInv.accessBase hBase ⟨w, hAcquired⟩
  · intro x
    simp only [MutexState.locked, hThread]
  · rw [hOwns, hDepth]
    exact ⟨hWaits, decide_eq_true rfl, by decide⟩
  · intro x hx
    rw [hOwns, decide_eq_false hx]
    have hOld := hInv.consistent x
    rw [hNone x] at hOld
    exact hOld
  · exact fun _ => hFields
  · intro _
    rw [hDepth, hFields.1, hFields.2]
    exact ⟨rfl, rfl⟩
  · intro x hx hTrue
    rw [hOwns, decide_eq_false hx] at hTrue
    cases hTrue

/- A thread waits for the taken mutex. -/
theorem accessWait
    {w' : WaitHead N → List (Fin N)}
    (hMutex' : MutexInv (s.base.locked t s.rmutex.mutex (k', .blocked)) w')
    (hPids : ∀ x, (k'.thread x).pid = (s.base.kernel.thread x).pid)
    (hPc : s.pc t = some .lockMutex) :
    RmutexInv (s.accessed t .lockMutex (k', s.rmutex, .waitMutex)) := by
  have hBase :
      s.baseAfter t .lockMutex .waitMutex k' = s.base.locked t s.rmutex.mutex (k', .blocked) := by
    unfold RmutexState.baseAfter
    dsimp only
    rw [if_neg (by simp)]
    exact MutexState.settle_eq hMutex'.blocked
  have hSelf := hInv.consistent t
  rw [hPc] at hSelf
  rcases hSelf with ⟨_, hNot, hDepth⟩
  apply hInv.accessBase hBase ⟨w', hMutex'⟩ hPids
  · exact ⟨hDepth, .inl ⟨Function.update_self _ _ _, hNot⟩⟩
  · intro x hx
    have hOld := hInv.consistent x
    simp only [MutexState.locked, Function.update_of_ne hx]
    exact hOld
  · exact hInv.unowned
  · intro hTrue
    have hOwns : s.owns t = true := hTrue
    rw [hNot] at hOwns
    cases hOwns
  · intro x _ hTrue
    exact hInv.owned x hTrue

/- The owner gives the mutex back. -/
theorem accessRelease
    {w' : WaitHead N → List (Fin N)}
    (hMutex' : MutexInv (s.base.unlocked t s.rmutex.mutex k').settle w')
    (hPids : ∀ x, (k'.thread x).pid = (s.base.kernel.thread x).pid)
    (hPc : s.pc t = some .unlockMutex) :
    RmutexInv (s.accessed t .unlockMutex (k', s.rmutex, .returned 0)) := by
  rcases hInv.mutex with ⟨w, hMutex⟩
  have hSelf := hInv.consistent t
  rw [hPc] at hSelf
  rcases hSelf with ⟨hWaits, hOwns, hDepth⟩
  -- Both fields have been reset by now.
  have hFields := hInv.fields hPc hOwns
  rw [hDepth] at hFields
  have hRefcount : s.rmutex.refcount = 0#16 := BitVec.eq_of_toNat_eq hFields.1
  have hOwner : s.rmutex.owner = kernelPidUndef := hFields.2
  have hAfter := hMutex.settle_unlocked k' hOwns
  have hNotSelf : (s.base.unlocked t s.rmutex.mutex k').settle.owns s.rmutex.mutex t = false := by
    rw [Bool.eq_false_iff]
    intro hTrue
    have hBoth := (hAfter t).1.mp hTrue
    rw [hWaits] at hBoth
    cases hBoth.1
  have hBase :
      s.baseAfter t .unlockMutex (.returned 0) k' = (s.base.unlocked t s.rmutex.mutex k').settle :=
    rfl
  apply hInv.accessBase hBase ⟨w', hMutex'⟩ hPids
  · have hDone : (s.base.unlocked t s.rmutex.mutex k').settle.waitsFor t = none := by
      rcases (hAfter t).2 with ⟨hSame, _⟩ | ⟨hNone, _⟩
      · exact hSame.trans hWaits
      · exact hNone
    refine ⟨hDone, ?_⟩
    rw [hDepth, hNotSelf]
    simp [RmutexState.depthAfter]
  · intro x hx
    have hOld := hInv.consistent x
    have hNot : s.owns x = false := by
      rw [Bool.eq_false_iff]
      exact fun hTrue => hx (hInv.owner_unique hTrue hOwns)
    rw [hNot] at hOld
    have hOwns' := (hAfter x).1
    rcases hOld.waits with hNone | ⟨hSome, hZero, hWaiting⟩
    · -- Threads that do not wait keep their place.
      have hStill : (s.base.unlocked t s.rmutex.mutex k').settle.waitsFor x = none := by
        rcases (hAfter x).2 with ⟨hSame, _⟩ | ⟨hDone, _⟩
        · exact hSame.trans hNone
        · exact hDone
      have hFalse : (s.base.unlocked t s.rmutex.mutex k').settle.owns s.rmutex.mutex x = false := by
        rw [Bool.eq_false_iff]
        intro hTrue
        have hBoth := hOwns'.mp hTrue
        rw [hNone] at hBoth
        cases hBoth.1
      rw [hStill, hFalse]
      rw [hNone] at hOld
      exact hOld
    · rw [hWaiting]
      refine ⟨hZero, ?_⟩
      rcases (hAfter x).2 with ⟨hSame, hBlocked⟩ | ⟨hDone, hFree⟩
      · left
        refine ⟨hSame.trans hSome, ?_⟩
        rw [Bool.eq_false_iff]
        exact fun hTrue => (hOwns'.mp hTrue).2 hBlocked
      · exact .inr ⟨hDone, hOwns'.mpr ⟨hSome, hFree⟩⟩
  · exact fun _ => ⟨hRefcount, hOwner⟩
  · intro hTrue
    rw [hNotSelf] at hTrue
    cases hTrue
  · -- The new owner is still inside `mutex_lock`.
    intro x hx hTrue
    have hSome := ((hAfter x).1.mp hTrue).1
    rcases (hInv.consistent x).waits with hNone | ⟨_, hZero, hWaiting⟩
    · rw [hSome] at hNone
      cases hNone
    · unfold RmutexState.FieldsOf
      rw [hZero, hWaiting, hRefcount, hOwner]
      exact ⟨rfl, rfl⟩

end

end RmutexInv

end Riot
