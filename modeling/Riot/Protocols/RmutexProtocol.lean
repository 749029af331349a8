import Riot.Protocols.RmutexOwnership

/-
  The recursive mutex is used by one thread at a time, and
  its assertions hold, in every run.
-/

----
-- Accesses
----

namespace Riot

namespace RmutexInv

variable {N : Nat} {s : RmutexState N} {t : Fin N}

/- The access has a result that keeps the invariant. -/
def Accessed
    (s : RmutexState N) (t : Fin N) (pc : RmutexPc) : Prop :=
  ∃ result,
    rmutexStep storeStatus (s.base.kernel.dispatch t)
        s.rmutex pc = some result ∧ RmutexInv (s.accessed t pc result)

section

variable (hInv : RmutexInv s)

include hInv

/- The try of `_lock`. -/
theorem trylockMutex
    {trylock : Bool} (hPc : s.pc t = some (.trylockMutex trylock)) :
    Accessed s t (.trylockMutex trylock) := by
  have hSelf := hInv.consistent t
  rw [hPc] at hSelf
  rcases hSelf with ⟨hWaits, hIff, hLess⟩
  by_cases hFree : s.base.kernel.mutexRef s.rmutex.mutex = .null
  · have hTry : mutexTrylock storeStatus (s.base.kernel.dispatch t)
            s.rmutex.mutex =
          some ((s.base.kernel.dispatch t).takeMutex s.rmutex.mutex, .returned 1) :=
      mutexLockWith_free hFree
    have hDepth : s.depth t = 0 := by
      rcases hInv.mutex with ⟨w, hMutex⟩
      rcases hMutex.owner s.rmutex.mutex with ⟨_, hNone⟩ | ⟨hTaken, _⟩
      · by_contra hNe
        have hOwns := hIff.mpr (Nat.pos_of_ne_zero hNe)
        have hFalse : s.owns t = false := hNone t
        rw [hFalse] at hOwns
        cases hOwns
      · exact (hTaken hFree).elim
    have hAfter : RmutexInv
          (s.accessed t (.trylockMutex trylock)
            ((s.base.kernel.dispatch t).takeMutex s.rmutex.mutex, s.rmutex, .storeOwner)) :=
      hInv.accessAcquire hFree rfl rfl rfl hDepth hWaits
    refine ⟨_, ?_, hAfter⟩
    unfold rmutexStep
    rw [hTry]
    rfl
  · have hTry : mutexTrylock storeStatus (s.base.kernel.dispatch t)
            s.rmutex.mutex = some (s.base.kernel.dispatch t, .returned 0) :=
      mutexTrylock_taken hFree
    refine ⟨(s.base.kernel.dispatch t, s.rmutex, .loadOwner trylock), ?_, ?_⟩
    · unfold rmutexStep
      rw [hTry]
      rfl
    · apply hInv.accessLocal
      · rcases hInv.mutex with ⟨w, hMutex⟩
        have hSame : MutexInv { s.base with kernel := s.base.kernel.dispatch t } w :=
          hMutex.setKernel rfl (fun _ => Iff.rfl) (fun _ => rfl)
        unfold RmutexState.baseAfter
        simp only [reduceCtorEq, if_false]
        rw [MutexState.locked_zero]
        exact MutexState.settle_eq hSame.blocked
      · rfl
      · exact ⟨hWaits, hIff, hLess⟩
      · intro hOwns
        have hFields := hInv.fields hPc hOwns
        exact hFields
      · exact fun _ => rfl

/- The load of `owner`. -/
theorem loadOwner
    {trylock : Bool} (hPc : s.pc t = some (.loadOwner trylock)) :
    Accessed s t (.loadOwner trylock) := by
  have hSelf := hInv.consistent t
  rw [hPc] at hSelf
  rcases hSelf with ⟨hWaits, hIff, hLess⟩
  refine ⟨_, rfl, ?_⟩
  by_cases hOwner : s.rmutex.owner = (s.base.kernel.dispatch t).schedActivePid
  · have hOwns := hInv.owns_of_owner_eq hOwner
    have hFields := hInv.fields hPc hOwns
    rw [if_neg (not_not_intro hOwner)]
    exact hInv.accessLocal rfl rfl ⟨hWaits, hOwns, hLess⟩ (fun _ => hFields) (fun _ => rfl)
  · have hNot : s.owns t = false := by
      rw [Bool.eq_false_iff]
      intro hOwns
      apply hOwner
      apply hInv.owner_eq hPc hOwns
      exact decide_eq_true (hIff.mp hOwns)
    have hDepth : s.depth t = 0 := by
      rw [hNot] at hIff
      simpa using hIff
    rw [if_pos hOwner]
    cases trylock with
    | true =>
      exact hInv.accessLocal rfl rfl ⟨hWaits, hIff⟩
        (fun hTrue => by rw [hNot] at hTrue; cases hTrue)
        (fun _ => rfl)
    | false =>
      exact hInv.accessLocal rfl rfl ⟨hWaits, hNot, hDepth⟩
        (fun hTrue => by rw [hNot] at hTrue; cases hTrue)
        (fun _ => rfl)

/- The blocking lock of `_lock`. -/
theorem lockMutex
    (hRuns : s.base.kernel.runnable t = true) (hPc : s.pc t = some .lockMutex) :
    Accessed s t .lockMutex := by
  have hSelf := hInv.consistent t
  rw [hPc] at hSelf
  rcases hSelf with ⟨hWaits, _, hDepth⟩
  by_cases hFree : s.base.kernel.mutexRef s.rmutex.mutex = .null
  · have hLock : mutexLock storeStatus (s.base.kernel.dispatch t)
            s.rmutex.mutex =
          some ((s.base.kernel.dispatch t).takeMutex s.rmutex.mutex, .returned 1) :=
      mutexLockWith_free hFree
    have hAfter : RmutexInv
          (s.accessed t .lockMutex
            ((s.base.kernel.dispatch t).takeMutex s.rmutex.mutex, s.rmutex, .storeOwner)) :=
      hInv.accessAcquire hFree rfl rfl rfl hDepth hWaits
    refine ⟨_, ?_, hAfter⟩
    unfold rmutexStep
    rw [hLock]
    rfl
  · rcases hInv.mutex with ⟨w, hMutex⟩
    rcases hMutex.lockTaken hRuns hFree with ⟨k', w', hLock, hMutex', hPids⟩
    refine ⟨_, ?_, hInv.accessWait hMutex' hPids hPc⟩
    unfold rmutexStep
    rw [hLock]
    rfl

/- A thread that has been handed the mutex goes on. -/
theorem waitMutex
    (hRuns : s.base.kernel.runnable t = true) (hPc : s.pc t = some .waitMutex) :
    Accessed s t .waitMutex := by
  have hSelf := hInv.consistent t
  rw [hPc] at hSelf
  rcases hSelf with ⟨hDepth, ⟨hWaits, _⟩ | ⟨hWaits, hOwns⟩⟩
  · -- A thread that still waits is blocked.
    rcases hInv.mutex with ⟨w, hMutex⟩
    have hBlocked : s.base.kernel.MutexBlocked t := by
      apply (hMutex.blocked t).mpr
      rw [hWaits]
      rfl
    exact (not_mutexBlocked hRuns hBlocked).elim
  · have hFields := hInv.fields hPc hOwns
    have hLess : s.depth t < refcountMax := by
      rw [hDepth]
      decide
    exact
      ⟨_, rfl, hInv.accessLocal rfl rfl ⟨hWaits, hOwns, hLess⟩ (fun _ => hFields) (fun _ => rfl)⟩

/- The store of `owner`. -/
theorem storeOwner
    (hPc : s.pc t = some .storeOwner) :
    Accessed s t .storeOwner := by
  have hSelf := hInv.consistent t
  rw [hPc] at hSelf
  rcases hSelf with ⟨hWaits, hOwns, hLess⟩
  have hFields := hInv.fields hPc hOwns
  refine ⟨_, rfl, hInv.accessLocal rfl rfl ⟨hWaits, hOwns, hLess⟩ (fun _ => ⟨hFields.1, rfl⟩) ?_⟩
  intro hNot
  rw [hNot] at hOwns
  cases hOwns

/- The increment of `refcount` does not overflow. -/
theorem incRefcount
    (hPc : s.pc t = some .incRefcount) :
    Accessed s t .incRefcount := by
  have hSelf := hInv.consistent t
  rw [hPc] at hSelf
  rcases hSelf with ⟨hWaits, hOwns, hLess⟩
  have hFields := hInv.fields hPc hOwns
  have hCount : s.rmutex.refcount.toNat = s.depth t := hFields.1
  have hNext : (s.rmutex.refcount + 1#16).toNat = s.depth t + 1 := by
    unfold refcountMax at hLess
    rw [BitVec.toNat_add, hCount]
    simp only [BitVec.toNat_ofNat]
    omega
  refine ⟨_, rfl, hInv.accessLocal rfl rfl ⟨hWaits, ?_⟩ (fun _ => ⟨hNext, ?_⟩) ?_⟩
  · simp [RmutexState.depthAfter, hOwns]
  · have hStored : ownerStored
          (RmutexState.depthAfter (s.depth t) .incRefcount (.returned 1))
          (RmutexPc.returned 1).rest = true :=
      decide_eq_true (Nat.succ_pos (s.depth t))
    rw [hStored]
    exact hFields.2
  · intro hNot
    rw [hNot] at hOwns
    cases hOwns

/- The first assertion of `rmutex_unlock` holds. -/
theorem assertOwner
    (hPc : s.pc t = some .assertOwner) :
    Accessed s t .assertOwner := by
  have hSelf := hInv.consistent t
  rw [hPc] at hSelf
  rcases hSelf with ⟨hWaits, hOwns, hDepth⟩
  have hFields := hInv.fields hPc hOwns
  have hOwner : s.rmutex.owner = (s.base.kernel.dispatch t).schedActivePid :=
    hInv.owner_eq hPc hOwns (decide_eq_true hDepth)
  refine ⟨(s.base.kernel.dispatch t, s.rmutex, .assertRefcount), ?_,
      hInv.accessLocal rfl rfl ⟨hWaits, hOwns, hDepth⟩ (fun _ => hFields) (fun _ => rfl)⟩
  unfold rmutexStep
  exact if_pos hOwner

/- The second assertion holds. -/
theorem assertRefcount
    (hPc : s.pc t = some .assertRefcount) :
    Accessed s t .assertRefcount := by
  have hSelf := hInv.consistent t
  rw [hPc] at hSelf
  rcases hSelf with ⟨hWaits, hOwns, hDepth⟩
  have hFields := hInv.fields hPc hOwns
  have hCount : 0 < s.rmutex.refcount.toNat := by
    rw [hFields.1]
    exact hDepth
  refine ⟨(s.base.kernel.dispatch t, s.rmutex, .decRefcount), ?_,
      hInv.accessLocal rfl rfl ⟨hWaits, hOwns, hDepth⟩ (fun _ => hFields) (fun _ => rfl)⟩
  unfold rmutexStep
  exact if_pos hCount

/- The decrement of `refcount`. -/
theorem decRefcount
    (hPc : s.pc t = some .decRefcount) :
    Accessed s t .decRefcount := by
  have hSelf := hInv.consistent t
  rw [hPc] at hSelf
  rcases hSelf with ⟨hWaits, hOwns, hDepth⟩
  have hFields := hInv.fields hPc hOwns
  have hCount : s.rmutex.refcount.toNat = s.depth t := hFields.1
  have hNext : (s.rmutex.refcount - 1#16).toNat = s.depth t - 1 := by
    rw [BitVec.toNat_sub, hCount]
    simp only [BitVec.toNat_ofNat]
    omega
  refine ⟨_, rfl, hInv.accessLocal rfl rfl ⟨hWaits, hOwns, hDepth⟩ (fun _ => ⟨hNext, hFields.2⟩) ?_⟩
  intro hNot
  rw [hNot] at hOwns
  cases hOwns

/- The last unlock goes on, the others return. -/
theorem testRefcount
    (hPc : s.pc t = some .testRefcount) :
    Accessed s t .testRefcount := by
  have hSelf := hInv.consistent t
  rw [hPc] at hSelf
  rcases hSelf with ⟨hWaits, hOwns, hDepth⟩
  have hFields := hInv.fields hPc hOwns
  have hCount : s.rmutex.refcount.toNat = s.depth t - 1 := hFields.1
  refine ⟨_, rfl, ?_⟩
  by_cases hZero : s.rmutex.refcount = 0#16
  · have hLast : s.depth t = 1 := by
      rw [hZero] at hCount
      simp only [BitVec.toNat_ofNat] at hCount
      omega
    rw [if_pos hZero]
    exact hInv.accessLocal rfl rfl ⟨hWaits, hOwns, hLast⟩ (fun _ => hFields) (fun _ => rfl)
  · have hMore : 0 < s.depth t - 1 := by
      rw [← hCount]
      apply Nat.pos_of_ne_zero
      exact fun hNat =>
        hZero (BitVec.eq_of_toNat_eq hNat)
    rw [if_neg hZero]
    refine hInv.accessLocal rfl rfl
        ⟨hWaits, fun _ => hMore, fun _ => hOwns⟩
        (fun _ => ⟨hCount, ?_⟩) (fun _ => rfl)
    have hStored : ownerStored
          (RmutexState.depthAfter (s.depth t) .testRefcount (.returned 0))
          (RmutexPc.returned 0).rest = true :=
      decide_eq_true hMore
    rw [hStored]
    exact hInv.owner_eq hPc hOwns (decide_eq_true hDepth)

/- The reset of `owner`. -/
theorem resetOwner
    (hPc : s.pc t = some .resetOwner) :
    Accessed s t .resetOwner := by
  have hSelf := hInv.consistent t
  rw [hPc] at hSelf
  rcases hSelf with ⟨hWaits, hOwns, hDepth⟩
  have hFields := hInv.fields hPc hOwns
  refine ⟨_, rfl, hInv.accessLocal rfl rfl ⟨hWaits, hOwns, hDepth⟩ (fun _ => ⟨hFields.1, rfl⟩) ?_⟩
  intro hNot
  rw [hNot] at hOwns
  cases hOwns

/- The unlock of the mutex below. -/
theorem unlockMutex
    (hPc : s.pc t = some .unlockMutex) :
    Accessed s t .unlockMutex := by
  have hSelf := hInv.consistent t
  rw [hPc] at hSelf
  rcases hSelf with ⟨_, hOwns, _⟩
  rcases hInv.mutex with ⟨w, hMutex⟩
  rcases hMutex.unlockCall hOwns with ⟨k', w', hUnlock, hMutex', _, hPids⟩
  refine ⟨_, ?_, hInv.accessRelease hMutex' hPids hPc⟩
  unfold rmutexStep
  rw [hUnlock]
  rfl

/- Every access has a result that keeps the invariant. -/
theorem access
    {pc : RmutexPc} (hRuns : s.base.kernel.runnable t = true)
    (hPc : s.pc t = some pc) :
    Accessed s t pc := by
  cases pc with
  | trylockMutex trylock => exact hInv.trylockMutex hPc
  | loadOwner trylock => exact hInv.loadOwner hPc
  | lockMutex => exact hInv.lockMutex hRuns hPc
  | waitMutex => exact hInv.waitMutex hRuns hPc
  | storeOwner => exact hInv.storeOwner hPc
  | incRefcount => exact hInv.incRefcount hPc
  | assertOwner => exact hInv.assertOwner hPc
  | assertRefcount => exact hInv.assertRefcount hPc
  | decRefcount => exact hInv.decRefcount hPc
  | testRefcount => exact hInv.testRefcount hPc
  | resetOwner => exact hInv.resetOwner hPc
  | unlockMutex => exact hInv.unlockMutex hPc
  | returned value =>
    have hSelf := hInv.consistent t
    rw [hPc] at hSelf
    exact hSelf.elim

/- Every step has a result that keeps the invariant. -/
theorem step
    {op : RmutexOp N} (hEnabled : op.Enabled s) :
    ∃ s', op.exec s = some s' ∧ RmutexInv s' := by
  cases op with
  | rmutexLock t =>
    rcases hEnabled with ⟨_, hPc, hLess⟩
    have hSelf := hInv.consistent t
    rw [hPc] at hSelf
    exact ⟨_, rfl, hInv.enter hPc ⟨hSelf.1, hSelf.2, hLess⟩ rfl rfl⟩
  | rmutexTrylock t =>
    rcases hEnabled with ⟨_, hPc, hLess⟩
    have hSelf := hInv.consistent t
    rw [hPc] at hSelf
    exact ⟨_, rfl, hInv.enter hPc ⟨hSelf.1, hSelf.2, hLess⟩ rfl rfl⟩
  | rmutexUnlock t =>
    rcases hEnabled with ⟨_, hPc, hDepth⟩
    have hSelf := hInv.consistent t
    rw [hPc] at hSelf
    exact ⟨_, rfl, hInv.enter hPc ⟨hSelf.1, hSelf.2.mpr hDepth, hDepth⟩ rfl rfl⟩
  | access t =>
    rcases hEnabled with ⟨hRuns, hSome⟩
    rcases Option.isSome_iff_exists.mp hSome with ⟨pc, hPc⟩
    rcases hInv.access hRuns hPc with ⟨result, hStep, hInv'⟩
    refine ⟨_, ?_, hInv'⟩
    unfold RmutexOp.exec
    simp only [hPc, Option.bind_eq_bind, Option.bind_some, hStep, Option.map_some]

end

end RmutexInv

/- The invariant holds in every run. -/
theorem rmutexInv_of_reachable
    {N : Nat} {s : RmutexState N} (hReach : (rmutexSystem N).Reachable s) :
    RmutexInv s := by
  apply System.ReachableVia.invariant hReach
  · rintro s ⟨hBase, hInit, hPc, hDepth, hNe, hInj⟩
    have hNone : ∀ t, s.owns t = false := fun t => hBase.2.2.1 s.rmutex.mutex t
    constructor
    · exact mutexInv_of_reachable (.start hBase)
    · exact hNe
    · exact hInj
    · intro t
      rw [hPc t, hDepth t, hNone t]
      exact ⟨hBase.2.2.2 t, by simp⟩
    · intro _
      rw [hInit]
      exact ⟨rfl, rfl⟩
    · intro t hOwns
      rw [hNone t] at hOwns
      cases hOwns
  · intro s op s' hInv _ hEnabled hExec
    rcases hInv.step hEnabled with ⟨s₁, hStep, hInv'⟩
    have hEq : some s₁ = some s' := hStep.symm.trans hExec
    cases hEq
    exact hInv'

----
-- Protocol
----

variable {N : Nat}

/-
  What the recursive mutex promises: one holder at a time,
  assertions that hold, and fields that tell the holder
  while no call is in progress.
-/
structure RmutexProtocol (s : RmutexState N) : Prop where
  unique : ∀ t u, 0 < s.depth t → 0 < s.depth u → t = u
  assertOwner : ∀ t, s.pc t = some .assertOwner → s.rmutex.owner = (s.base.kernel.thread t).pid
  assertRefcount : ∀ t, s.pc t = some .assertRefcount → 0 < s.rmutex.refcount.toNat
  locked :
    (∀ t, s.pc t = none) →
      (s.base.kernel.mutexRef s.rmutex.mutex ≠ .null ↔ 0 < s.rmutex.refcount.toNat)
  owner :
    (∀ t, s.pc t = none) → (0 < s.rmutex.refcount.toNat ↔
        ∃ t, 0 < s.depth t ∧ s.rmutex.owner = (s.base.kernel.thread t).pid)
  returns : ∀ op : RmutexOp N, op.Enabled s → (op.exec s).isSome = true

/- A thread that holds locks owns the mutex below. -/
theorem Consistent.owns_of_depth
    {mutex depth : Nat} {owns : Bool} {waitsFor : Option Nat} {pc : Option RmutexPc}
    (hConsistent : Consistent mutex depth owns waitsFor pc) (hDepth : 0 < depth) :
    owns = true := by
  cases pc with
  | none => exact hConsistent.2.mpr hDepth
  | some pc =>
    cases pc with
    | trylockMutex trylock => exact hConsistent.2.1.mpr hDepth
    | loadOwner trylock => exact hConsistent.2.1.mpr hDepth
    | lockMutex =>
      have hZero := hConsistent.2.2
      omega
    | waitMutex =>
      have hZero := hConsistent.1
      omega
    | returned value => exact hConsistent.elim
    | _ => exact hConsistent.2.1

/- The fields while no call is in progress. -/
theorem RmutexInv.quiet
    {s : RmutexState N} (hInv : RmutexInv s) (hPc : ∀ t, s.pc t = none) :
    (s.base.kernel.mutexRef s.rmutex.mutex ≠ .null ∧ ∃ t, 0 < s.depth t ∧
            s.rmutex.refcount.toNat = s.depth t ∧
            s.rmutex.owner = (s.base.kernel.thread t).pid) ∨
      (s.base.kernel.mutexRef s.rmutex.mutex = .null ∧ s.rmutex.refcount.toNat = 0 ∧
        ∀ t, s.depth t = 0) := by
  rcases hInv.mutex with ⟨w, hMutex⟩
  rcases hMutex.owner s.rmutex.mutex with ⟨hFree, hNone⟩ | ⟨hTaken, t, hOne⟩
  · right
    refine ⟨hFree, ?_, ?_⟩
    · rw [(hInv.unowned hNone).1]
      rfl
    · intro t
      by_contra hNe
      have hOwns := (hInv.consistent t).owns_of_depth (Nat.pos_of_ne_zero hNe)
      have hFalse : s.owns t = false := hNone t
      rw [hFalse] at hOwns
      cases hOwns
  · left
    have hOwns : s.owns t = true := (hOne t).mpr rfl
    have hSelf := hInv.consistent t
    have hFields := hInv.owned t hOwns
    unfold RmutexState.FieldsOf at hFields
    rw [hPc t] at hSelf hFields
    have hDepth : 0 < s.depth t := hSelf.2.mp hOwns
    have hStored : ownerStored (s.depth t) none = true := decide_eq_true hDepth
    rw [hStored] at hFields
    exact ⟨hTaken, t, hDepth, hFields.1, hFields.2⟩

/- The threads of `mutexStart` and a new recursive mutex. -/
def rmutexStart : RmutexState 3 where
  base := mutexStart
  rmutex := rmutexInit 0
  pc := fun _ => none
  depth := fun _ => 0

end Riot
