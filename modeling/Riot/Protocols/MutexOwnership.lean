import Riot.Lib.System
import Riot.Protocols.WaitLists

/-
  Ownership of mutexes, over every interleaving of calls.

  A state has the kernel and, for the statements only, who
  owns which mutex, who waits for which, and since when.  A
  call that returned 1 gives its mutex to the caller; a
  waiting caller gets it when it is no longer blocked.
-/

----
-- System
----

namespace Riot

/- The kernel and the history of its mutexes. -/
structure MutexState (N : Nat) where
  kernel : Kernel N
  owns : Nat → Fin N → Bool
  waitsFor : Fin N → Option Nat
  since : Fin N → Nat
  clock : Nat

/- Calls of a thread; `threadWakeup` ends a nap. -/
inductive MutexOp (N : Nat) where
  | mutexLock (t : Fin N) (mutex : Nat)
  | mutexTrylock (t : Fin N) (mutex : Nat)
  | mutexUnlock (t : Fin N) (mutex : Nat)
  | mutexUnlockAndSleep (t : Fin N) (mutex : Nat)
  | threadWakeup (t : Fin N) (pid : Int)
deriving DecidableEq, Repr

variable {N : Nat}

namespace MutexState

/- The result of a lock call by `t`. -/
def locked
    (s : MutexState N) (t : Fin N) (mutex : Nat) (result : Kernel N × Outcome) : MutexState N :=
  match result with
  | (k, .returned value) =>
    { s with
      kernel := k
      owns :=
        Function.update s.owns mutex
          (Function.update (s.owns mutex) t (value == 1 || s.owns mutex t)) }
  | (k, .blocked) =>
    { s with
      kernel := k
      waitsFor := Function.update s.waitsFor t (some mutex)
      since := Function.update s.since t s.clock
      clock := s.clock + 1 }

/- An unlock call by `t`. -/
def unlocked
    (s : MutexState N) (t : Fin N) (mutex : Nat) (k : Kernel N) : MutexState N :=
  { s with
    kernel := k
    owns := Function.update s.owns mutex (Function.update (s.owns mutex) t false) }

/-
  The calls of waiting threads that are not blocked any more
  return: these threads have their mutex now.
-/
def settle
    (s : MutexState N) : MutexState N :=
  { s with
    owns := fun mutex u =>
      s.owns mutex u || (s.waitsFor u == some mutex && (s.kernel.thread u).status != .mutexBlocked)
    waitsFor := fun u =>
      if (s.kernel.thread u).status = .mutexBlocked then
        s.waitsFor u
      else
        none }

end MutexState

namespace MutexOp

/- Blocked threads make no calls; only owners unlock. -/
def Enabled
    (s : MutexState N) : MutexOp N → Prop
| .mutexLock t _ => s.kernel.runnable t = true
| .mutexTrylock t _ => s.kernel.runnable t = true
| .mutexUnlock t mutex => s.kernel.runnable t = true ∧ s.owns mutex t = true
| .mutexUnlockAndSleep t mutex => s.kernel.runnable t = true ∧ s.owns mutex t = true
| .threadWakeup t _ => s.kernel.runnable t = true

instance
    (s : MutexState N) (op : MutexOp N) :
    Decidable (Enabled s op) := by
  cases op <;> unfold Enabled <;> infer_instance

/- A call, up to its return or until it blocks. -/
def call
    (s : MutexState N) : MutexOp N → Option (MutexState N)
| .mutexLock t mutex =>
  (Riot.mutexLock storeStatus (s.kernel.dispatch t) mutex).map (s.locked t mutex)
| .mutexTrylock t mutex =>
  (Riot.mutexTrylock storeStatus (s.kernel.dispatch t) mutex).map (s.locked t mutex)
| .mutexUnlock t mutex =>
  (Riot.mutexUnlock storeStatus false (s.kernel.dispatch t) mutex).map (s.unlocked t mutex)
| .mutexUnlockAndSleep t mutex =>
  (Riot.mutexUnlockAndSleep storeStatus (s.kernel.dispatch t) mutex).map (s.unlocked t mutex)
| .threadWakeup t pid =>
  (Riot.threadWakeup storeStatus false
    (s.kernel.dispatch t) pid).map (fun result => { s with kernel := result.1 })

/- The effect of a step. -/
def exec
    (s : MutexState N) (op : MutexOp N) : Option (MutexState N) :=
  (op.call s).map MutexState.settle

end MutexOp

/-
  Mutexes, at first all free: every list reference is null,
  and no thread is blocked on a mutex.
-/
def mutexSystem (N : Nat) :
    System (MutexState N) (MutexOp N) where
  Start := fun s =>
    (∀ h, s.kernel.next (.head h) = .null) ∧ (∀ t, (s.kernel.thread t).status ≠ .mutexBlocked) ∧
      (∀ mutex t, s.owns mutex t = false) ∧ ∀ t, s.waitsFor t = none
  Enabled := MutexOp.Enabled
  exec := MutexOp.exec

instance
    (s : MutexState N) (op : MutexOp N) :
    Decidable ((mutexSystem N).Enabled s op) :=
  inferInstanceAs (Decidable (op.Enabled s))

----
-- Calls
----

open LinkMem

variable {N : Nat} {k : Kernel N} {w : WaitHead N → List (Fin N)} {t u : Fin N}
variable {mutex : Nat} {l : List (Fin N)}

/- The reference of a mutex. -/
def Kernel.mutexRef
    (k : Kernel N) (mutex : Nat) : Link (Fin N) :=
  k.next (.head (.waiting (.mutexQueue mutex)))

/- The mutex is taken, and nobody waits. -/
def Kernel.takeMutex
    (k : Kernel N) (mutex : Nat) : Kernel N :=
  { k with next := k.next.set (.head (.waiting (.mutexQueue mutex))) .mark }

/- Locking a free mutex. -/
theorem mutexLockWith_free
    {blocking : Bool} (hFree : k.mutexRef mutex = .null) :
    mutexLockWith storeStatus k mutex blocking = some (k.takeMutex mutex, .returned 1) := by
  unfold mutexLockWith
  exact if_pos hFree

/- Trying a taken mutex. -/
theorem mutexTrylock_taken
    (hTaken : k.mutexRef mutex ≠ .null) :
    mutexTrylock storeStatus k mutex = some (k, .returned 0) := by
  unfold mutexTrylock mutexLockWith
  exact if_neg hTaken

/- Waiting for a taken mutex. -/
theorem mutexLock_taken
    (hActive : k.schedActiveThread = some t) (hTaken : k.mutexRef mutex ≠ .null)
    (hWaits : WaitLists k.next w) (hNot : ∀ h, t ∉ w h) :
    ∃ mem, mutexLock storeStatus k mutex = some
            ({ k.setStatus t .mutexBlocked with next := mem, pendsv := true }, .blocked) ∧
        WaitLists mem (Function.update w (.mutexQueue mutex)
            (insertByPriority (fun t => (k.thread t).priority) t (w (.mutexQueue mutex)))) ∧
        mem (.head (.waiting (.mutexQueue mutex))) ≠ .null ∧
        (∀ c, c ≠ .waiting (.mutexQueue mutex) → mem (.head c) = k.next (.head c)) := by
  have hLock : mutexLock storeStatus k mutex = (mutexEnqueue (k.setStatus t .mutexBlocked) mutex
          t).map (fun k₂ => (threadYieldHigher k₂, .blocked)) := by
    unfold Kernel.mutexRef at hTaken
    unfold mutexLock mutexLockWith
    dsimp only
    rw [if_neg hTaken, if_pos rfl, hActive]
    simp only [storeStatus, Option.bind_eq_bind, Option.bind_some]
    rw [Option.map_eq_bind]
    rfl
  rw [hLock]
  unfold mutexEnqueue
  by_cases hMark : (k.setStatus t .mutexBlocked).next (.head (.waiting (.mutexQueue mutex))) = .mark
  · -- The first waiter replaces the marker.
    have hNil := hWaits.eq_nil_of_mark hMark
    have hInsert :
        insertByPriority (fun t => (k.thread t).priority) t (w (.mutexQueue mutex)) = [t] := by
      rw [hNil]
      rfl
    refine ⟨(k.next.set (.head (.waiting (.mutexQueue mutex))) (.ref t)).set (.entry t) .null,
        by rw [if_pos hMark]; rfl, ?_, ?_, ?_⟩
    · rw [hInsert]
      exact Links.firstWaiter hWaits (WaitLists.unlinked hNot)
    · simp
    · intro c hNe
      rw [set_entry_head, set_of_ne _ _ (by simpa using hNe)]
  · rw [if_neg hMark]
    have hBlocked : ((k.setStatus t .mutexBlocked).thread t).status.onRunqueue = false := by
      rw [Kernel.setStatus_status, if_pos rfl]
      rfl
    rcases WaitLists.threadAddToList
        (k := k.setStatus t .mutexBlocked) hWaits hMark hNot
        hBlocked with
      ⟨mem, hAdd, hLists, hRest⟩
    refine ⟨mem, by rw [hAdd]; rfl, ?_, hRest⟩
    simpa using hLists

/- Freeing a mutex nobody waits for. -/
theorem mutexRelease_mark
    (hMark : k.mutexRef mutex = .mark) :
    mutexRelease storeStatus k mutex =
      some ({ k with next := k.next.set (.head (.waiting (.mutexQueue mutex))) .null }, none) := by
  unfold Kernel.mutexRef at hMark
  unfold mutexRelease
  dsimp only
  rw [if_neg (by simp [hMark]), if_pos hMark]

/- Handing a mutex to the first waiter. -/
theorem mutexRelease_cons
    (hWaits : WaitLists k.next w) (hList : w (.mutexQueue mutex) = u :: l) :
    ∃ mem, mutexRelease storeStatus k mutex =
          some ({ k.setStatus u .pending with next := mem }, some u) ∧
        WaitLists mem (Function.update w (.mutexQueue mutex) l) ∧
        mem (.head (.waiting (.mutexQueue mutex))) ≠ .null ∧
        (∀ c, c ≠ .waiting (.mutexQueue mutex) → mem (.head c) = k.next (.head c)) := by
  have hRef := hWaits.head_of_cons hList
  rcases Links.removeHead hWaits hList with ⟨hRemove, hLists⟩
  -- The field of the first waiter becomes the reference.
  generalize hMem :
    k.next.set (.head (.waiting (.mutexQueue mutex))) (k.next (.entry u)) = mem at hRemove hLists
  have hOthers : ∀ c, c ≠ .waiting (.mutexQueue mutex) → mem (.head c) = k.next (.head c) := by
    intro c hNe
    rw [← hMem]
    exact set_of_ne _ _ (by simpa using hNe)
  have hRelease : mutexRelease storeStatus k mutex =
        if mem (.head (.waiting (.mutexQueue mutex))) = .null
        then
          some
            ({ k.setStatus u .pending with
                next := mem.set (.head (.waiting (.mutexQueue mutex))) .mark }, some u)
        else
          some ({ k.setStatus u .pending with next := mem }, some u) := by
    unfold mutexRelease mutexWakeFirst
    dsimp only
    rw [if_neg (by simp [hRef]), if_neg (by simp [hRef]), hRemove]
    simp only [Option.bind_eq_bind, Option.bind_some, storeStatus, Kernel.setStatus_next]
    by_cases hNull : mem (.head (.waiting (.mutexQueue mutex))) = .null
    · rw [if_pos hNull, if_pos hNull]
      rfl
    · rw [if_neg hNull, if_neg hNull]
      rfl
  rw [hRelease]
  split
  · rename_i hNull
    refine ⟨mem.set (.head (.waiting (.mutexQueue mutex))) .mark, rfl, ?_, ?_, ?_⟩
    · apply Links.setEmptyHead hLists
      · exact WaitLists.eq_nil_of_null hLists hNull
      · exact .inr rfl
    · simp
    · intro c hNe
      rw [set_of_ne _ _ (by simpa using hNe)]
      exact hOthers c hNe
  · rename_i hNull
    exact ⟨mem, rfl, hLists, hNull, hOthers⟩

/- Releasing a mutex stores at most one status. -/
theorem mutexRelease_pid
    {k₁ : Kernel N} {next : Option (Fin N)}
    (hRelease : mutexRelease storeStatus k mutex = some (k₁, next)) (x : Fin N) :
    (k₁.thread x).pid = (k.thread x).pid := by
  unfold mutexRelease at hRelease
  dsimp only at hRelease
  split at hRelease
  · cases hRelease
    rfl
  · split at hRelease
    · cases hRelease
      rfl
    · rcases Option.map_eq_some_iff.mp hRelease with ⟨⟨k₂, process⟩, hWake, hEq⟩
      cases hEq
      rcases Option.bind_eq_some_iff.mp hWake with ⟨⟨mem, first⟩, _, hRest⟩
      rcases Option.bind_eq_some_iff.mp hRest with ⟨process', _, hRest₁⟩
      simp only [storeStatus, Option.bind_eq_bind, Option.bind_some] at hRest₁
      split at hRest₁
      · cases hRest₁
        exact Kernel.setStatus_pid _ _ _ _
      · cases hRest₁
        exact Kernel.setStatus_pid _ _ _ _

----
-- Invariant
----

variable {N : Nat}

/- The thread is blocked in a lock call. -/
def Kernel.MutexBlocked
    (k : Kernel N) (t : Fin N) : Prop :=
  (k.thread t).status = .mutexBlocked

/- A smaller priority value, or an equal one and earlier. -/
def MutexState.before
    (s : MutexState N) (a b : Fin N) : Prop :=
  (s.kernel.thread a).priority < (s.kernel.thread b).priority ∨
    ((s.kernel.thread a).priority = (s.kernel.thread b).priority ∧ s.since a < s.since b)

/- Either free and unowned, or taken by one owner. -/
def MutexState.OwnedOnce
    (s : MutexState N) (mutex : Nat) : Prop :=
  (s.kernel.mutexRef mutex = .null ∧ ∀ t, s.owns mutex t = false) ∨
    (s.kernel.mutexRef mutex ≠ .null ∧ ∃ t, ∀ u, s.owns mutex u = true ↔ u = t)

/- What every run keeps, with the wait lists `w`. -/
structure MutexInv
    (s : MutexState N)
    (w : WaitHead N → List (Fin N)) : Prop where
  lists : WaitLists s.kernel.next w
  waiting : ∀ h t, t ∈ w h ↔ ∃ mutex, h = .mutexQueue mutex ∧ s.waitsFor t = some mutex
  blocked : ∀ t, s.kernel.MutexBlocked t ↔ (s.waitsFor t).isSome = true
  owner : ∀ mutex, s.OwnedOnce mutex
  order : ∀ h, (w h).Pairwise s.before
  fresh : ∀ t, (s.waitsFor t).isSome = true → s.since t < s.clock

/- Nothing settles while all waiting threads are blocked. -/
theorem MutexState.settle_eq
    {s : MutexState N}
    (hBlocked : ∀ t, s.kernel.MutexBlocked t ↔ (s.waitsFor t).isSome = true) :
    s.settle = s := by
  unfold MutexState.settle
  congr 1
  · funext mutex u
    cases hWaits : s.waitsFor u with
    | none => simp
    | some m =>
      have hStatus : (s.kernel.thread u).status = .mutexBlocked := by
        apply (hBlocked u).mpr
        rw [hWaits]
        rfl
      simp [hStatus]
  · funext u
    split
    · rfl
    · rename_i hNot
      cases hWaits : s.waitsFor u with
      | none => rfl
      | some m =>
        refine (hNot ((hBlocked u).mpr ?_)).elim
        rw [hWaits]
        rfl

/- A failed try leaves the owners alone. -/
theorem MutexState.locked_zero
    (s : MutexState N) (t : Fin N) (mutex : Nat) (k' : Kernel N) :
    s.locked t mutex (k', .returned 0) = { s with kernel := k' } := by
  unfold MutexState.locked
  dsimp only
  congr 1
  simp

namespace MutexInv

variable {s : MutexState N} {w : WaitHead N → List (Fin N)} {k' : Kernel N}
variable {t u : Fin N} {mutex : Nat} {l : List (Fin N)}

section

variable (hInv : MutexInv s w)

include hInv

/- A mutex has one owner. -/
theorem eq_of_owns
    (hT : s.owns mutex t = true) (hU : s.owns mutex u = true) :
    t = u := by
  rcases hInv.owner mutex with ⟨_, hNone⟩ | ⟨_, o, hOne⟩
  · rw [hNone t] at hT
    cases hT
  · exact ((hOne t).mp hT).trans ((hOne u).mp hU).symm

/- The members of one wait list. -/
theorem mem_iff :
    t ∈ w (.mutexQueue mutex) ↔ s.waitsFor t = some mutex := by
  rw [hInv.waiting]
  simp

/- A thread that runs is in no wait list. -/
theorem not_mem
    (hNot : ¬ s.kernel.MutexBlocked t) :
    ∀ h, t ∉ w h := by
  intro h hIn
  rcases (hInv.waiting h t).mp hIn with ⟨m, _, hWaits⟩
  apply hNot
  apply (hInv.blocked t).mpr
  rw [hWaits]
  rfl

/- Other parts of the kernel have no influence. -/
theorem setKernel
    (hNext : k'.next = s.kernel.next)
    (hBlocked : ∀ x, k'.MutexBlocked x ↔ s.kernel.MutexBlocked x)
    (hPrio : ∀ x, (k'.thread x).priority = (s.kernel.thread x).priority) :
    MutexInv { s with kernel := k' } w := by
  constructor
  · dsimp only
    rw [hNext]
    exact hInv.lists
  · exact hInv.waiting
  · intro x
    exact (hBlocked x).trans (hInv.blocked x)
  · intro m
    unfold MutexState.OwnedOnce Kernel.mutexRef
    dsimp only
    rw [hNext]
    exact hInv.owner m
  · intro h
    apply (hInv.order h).imp
    intro a b hBefore
    unfold MutexState.before
    dsimp only
    rw [hPrio, hPrio]
    exact hBefore
  · exact hInv.fresh

/- Settling has nothing to do. -/
theorem settle :
    MutexInv s.settle w := by
  rw [MutexState.settle_eq hInv.blocked]
  exact hInv

/- A free mutex is taken. -/
theorem acquire
    (hFree : s.kernel.mutexRef mutex = .null)
    (hNext : k'.next = s.kernel.next.set (.head (.waiting (.mutexQueue mutex))) .mark)
    (hThread : k'.thread = s.kernel.thread) :
    MutexInv (s.locked t mutex (k', .returned 1)) w := by
  have hNil := hInv.lists.eq_nil_of_null hFree
  constructor
  · dsimp only [MutexState.locked]
    rw [hNext]
    exact Links.setEmptyHead hInv.lists hNil (.inr rfl)
  · exact hInv.waiting
  · intro x
    unfold Kernel.MutexBlocked MutexState.locked
    dsimp only
    rw [hThread]
    exact hInv.blocked x
  · intro m
    unfold MutexState.OwnedOnce MutexState.locked Kernel.mutexRef
    dsimp only
    rw [hNext]
    by_cases hEq : m = mutex
    · subst hEq
      right
      rw [set_same, Function.update_self]
      refine ⟨by simp, t, ?_⟩
      intro x
      rcases hInv.owner m with ⟨_, hNone⟩ | ⟨hTaken, _⟩
      · by_cases hx : x = t
        · subst hx
          simp
        · rw [Function.update_of_ne hx, hNone x]
          simp [hx]
      · exact (hTaken hFree).elim
    · rw [set_of_ne _ _ (by simpa using hEq), Function.update_of_ne hEq]
      exact hInv.owner m
  · intro h
    apply (hInv.order h).imp
    intro a b hBefore
    unfold MutexState.before MutexState.locked
    dsimp only
    rw [hThread]
    exact hBefore
  · exact hInv.fresh

/- A failed try changes nothing. -/
theorem refuse
    (hNext : k'.next = s.kernel.next) (hThread : k'.thread = s.kernel.thread) :
    MutexInv (s.locked t mutex (k', .returned 0)) w := by
  rw [MutexState.locked_zero]
  apply hInv.setKernel hNext
  · intro x
    unfold Kernel.MutexBlocked
    rw [hThread]
  · intro x
    rw [hThread]

end

variable (k') in
/- The caller waits for a taken mutex. -/
theorem wait
    (hInv : MutexInv s w) (hNot : ¬ s.kernel.MutexBlocked t)
    (hTaken : s.kernel.mutexRef mutex ≠ .null)
    (hLists : WaitLists k'.next (Function.update w (.mutexQueue mutex)
          (insertByPriority (fun t => (s.kernel.thread t).priority) t (w (.mutexQueue mutex)))))
    (hRef : k'.mutexRef mutex ≠ .null)
    (hOthers : ∀ m, m ≠ mutex → k'.mutexRef m = s.kernel.mutexRef m)
    (hBlocked : ∀ x, k'.MutexBlocked x ↔ x = t ∨ s.kernel.MutexBlocked x)
    (hPrio : ∀ x, (k'.thread x).priority = (s.kernel.thread x).priority) :
    MutexInv (s.locked t mutex (k', .blocked)) (Function.update w (.mutexQueue mutex)
        (insertByPriority (fun t => (s.kernel.thread t).priority) t (w (.mutexQueue mutex)))) := by
  have hOff := hInv.not_mem hNot
  have hNone : s.waitsFor t = none := by
    rw [← Option.not_isSome_iff_eq_none, ← hInv.blocked t]
    exact hNot
  have hSince : ∀ h, ∀ e ∈ w h, Function.update s.since t s.clock e = s.since e := by
    intro h e he
    apply Function.update_of_ne
    rintro rfl
    exact hOff h he
  have hPerm : (insertByPriority (fun t => (s.kernel.thread t).priority) t
        (w (.mutexQueue mutex))).Perm (t :: w (.mutexQueue mutex)) :=
    insertByPriority_perm _ _
  -- Old waiters keep their order.
  have hOrder : ∀ h, (w h).Pairwise (s.locked t mutex (k', .blocked)).before := by
    intro h
    refine (hInv.order h).imp_of_mem ?_
    intro a b ha hb hBefore
    unfold MutexState.before MutexState.locked
    dsimp only
    rw [hPrio, hPrio, hSince h a ha, hSince h b hb]
    exact hBefore
  constructor
  · exact hLists
  · intro h x
    unfold MutexState.locked
    dsimp only
    by_cases hEq : h = .mutexQueue mutex
    · subst hEq
      rw [Function.update_self, hPerm.mem_iff, List.mem_cons]
      by_cases hx : x = t
      · subst hx
        simp
      · rw [Function.update_of_ne hx]
        rw [hInv.mem_iff]
        simp [hx]
    · rw [Function.update_of_ne hEq, hInv.waiting]
      by_cases hx : x = t
      · subst hx
        simp only [hNone, Function.update_self, Option.some.injEq]
        constructor
        · rintro ⟨m, _, hm⟩
          cases hm
        · rintro ⟨m, rfl, rfl⟩
          exact (hEq rfl).elim
      · rw [Function.update_of_ne hx]
  · intro x
    refine (hBlocked x).trans ?_
    unfold MutexState.locked
    dsimp only
    by_cases hx : x = t
    · subst hx
      simp
    · rw [Function.update_of_ne hx, ← hInv.blocked x]
      simp [hx]
  · intro m
    unfold MutexState.OwnedOnce MutexState.locked
    dsimp only
    by_cases hEq : m = mutex
    · subst hEq
      rcases hInv.owner m with ⟨hNull, _⟩ | ⟨_, hOwner⟩
      · exact (hTaken hNull).elim
      · exact .inr ⟨hRef, hOwner⟩
    · rw [hOthers m hEq]
      exact hInv.owner m
  · intro h
    by_cases hEq : h = .mutexQueue mutex
    · subst hEq
      rw [Function.update_self]
      have hClock : ∀ e ∈ w (.mutexQueue mutex), s.since e < s.clock := by
        intro e he
        rcases (hInv.waiting _ e).mp he with ⟨m, _, hWaits⟩
        apply hInv.fresh
        rw [hWaits]
        rfl
      apply insertByPriority_pairwise (hOrder _)
      · intro a b hBefore
        unfold MutexState.before MutexState.locked at hBefore
        dsimp only at hBefore
        rw [hPrio, hPrio] at hBefore
        omega
      · intro e he hLt
        unfold MutexState.before MutexState.locked
        dsimp only
        rw [hPrio, hPrio]
        exact .inl hLt
      · intro e he hLe
        unfold MutexState.before MutexState.locked
        dsimp only
        rw [hPrio, hPrio, hSince _ e he, Function.update_self]
        have hEarlier := hClock e he
        omega
    · rw [Function.update_of_ne hEq]
      exact hOrder h
  · intro x
    unfold MutexState.locked
    dsimp only
    by_cases hx : x = t
    · subst hx
      simp
    · rw [Function.update_of_ne hx, Function.update_of_ne hx]
      intro hSome
      have hEarlier := hInv.fresh x hSome
      omega

/- Who owns a mutex and who waits after its owner's unlock. -/
theorem settle_unlocked
    (k' : Kernel N) (hInv : MutexInv s w) (hOwns : s.owns mutex t = true)
    (x : Fin N) :
    ((s.unlocked t mutex k').settle.owns mutex x = true ↔
        s.waitsFor x = some mutex ∧ ¬ k'.MutexBlocked x) ∧
      ((s.unlocked t mutex k').settle.waitsFor x = s.waitsFor x ∧ k'.MutexBlocked x ∨
        (s.unlocked t mutex k').settle.waitsFor x = none ∧ ¬ k'.MutexBlocked x) := by
  have hOld : (s.unlocked t mutex k').owns mutex x = false := by
    unfold MutexState.unlocked
    dsimp only
    rw [Function.update_self]
    by_cases hx : x = t
    · subst hx
      exact Function.update_self _ _ _
    · rw [Function.update_of_ne hx, Bool.eq_false_iff]
      exact fun hTrue => hx (hInv.eq_of_owns hTrue hOwns)
  unfold MutexState.settle Kernel.MutexBlocked
  dsimp only
  rw [hOld]
  constructor
  · simp [MutexState.unlocked]
  · split
    · rename_i hStatus
      exact .inl ⟨rfl, hStatus⟩
    · rename_i hStatus
      exact .inr ⟨rfl, hStatus⟩

/- The owner frees a mutex that nobody waits for. -/
theorem freed
    (hInv : MutexInv s w) (hOwns : s.owns mutex t = true)
    (hMark : s.kernel.mutexRef mutex = .mark)
    (hNext : k'.next = s.kernel.next.set (.head (.waiting (.mutexQueue mutex))) .null)
    (hBlocked : ∀ x, k'.MutexBlocked x ↔ s.kernel.MutexBlocked x)
    (hPrio : ∀ x, (k'.thread x).priority = (s.kernel.thread x).priority) :
    MutexInv (s.unlocked t mutex k').settle w := by
  have hNil := hInv.lists.eq_nil_of_mark hMark
  rw [MutexState.settle_eq]
  · constructor
    · dsimp only [MutexState.unlocked]
      rw [hNext]
      exact Links.setEmptyHead hInv.lists hNil (.inl rfl)
    · exact hInv.waiting
    · intro x
      exact (hBlocked x).trans (hInv.blocked x)
    · intro m
      unfold MutexState.OwnedOnce MutexState.unlocked Kernel.mutexRef
      dsimp only
      rw [hNext]
      by_cases hEq : m = mutex
      · subst hEq
        left
        rw [set_same, Function.update_self]
        refine ⟨rfl, ?_⟩
        intro x
        by_cases hx : x = t
        · subst hx
          simp
        · rw [Function.update_of_ne hx, Bool.eq_false_iff]
          intro hOther
          exact hx (hInv.eq_of_owns hOther hOwns)
      · rw [set_of_ne _ _ (by simpa using hEq), Function.update_of_ne hEq]
        exact hInv.owner m
    · intro h
      apply (hInv.order h).imp
      intro a b hBefore
      unfold MutexState.before MutexState.unlocked
      dsimp only
      rw [hPrio, hPrio]
      exact hBefore
    · exact hInv.fresh
  · intro x
    exact (hBlocked x).trans (hInv.blocked x)

/- The owner hands a mutex to the first waiter. -/
theorem handed
    (hInv : MutexInv s w) (hOwns : s.owns mutex t = true)
    (hList : w (.mutexQueue mutex) = u :: l)
    (hLists : WaitLists k'.next (Function.update w (.mutexQueue mutex) l))
    (hRef : k'.mutexRef mutex ≠ .null)
    (hOthers : ∀ m, m ≠ mutex → k'.mutexRef m = s.kernel.mutexRef m)
    (hBlocked : ∀ x, k'.MutexBlocked x ↔ x ≠ u ∧ s.kernel.MutexBlocked x)
    (hPrio : ∀ x, (k'.thread x).priority = (s.kernel.thread x).priority) :
    MutexInv (s.unlocked t mutex k').settle (Function.update w (.mutexQueue mutex) l) ∧
      ∀ x, (s.unlocked t mutex k').settle.owns mutex x = true ↔ x = u := by
  have hNodup : (u :: l).Nodup := hList ▸ (hInv.lists.waits (.mutexQueue mutex)).nodup
  have hWaits : s.waitsFor u = some mutex := by
    rw [← hInv.mem_iff, hList]
    exact List.mem_cons_self
  -- Only the first waiter settles.
  have hSettled : ∀ x, (s.unlocked t mutex k').settle.waitsFor x =
          if x = u then none else s.waitsFor x := by
    intro x
    have hIff := hBlocked x
    unfold Kernel.MutexBlocked at hIff
    unfold MutexState.settle MutexState.unlocked
    dsimp only
    by_cases hx : x = u
    · subst hx
      rw [if_pos rfl, if_neg]
      rw [hIff]
      simp
    · rw [if_neg hx]
      split
      · rfl
      · rename_i hNot
        rw [hIff] at hNot
        symm
        rw [← Option.not_isSome_iff_eq_none, ← hInv.blocked x]
        exact fun hOld => hNot ⟨hx, hOld⟩
  have hReturns : ∀ m x, s.waitsFor x = some m ∧ ¬ k'.MutexBlocked x ↔ x = u ∧ m = mutex := by
    intro m x
    rw [hBlocked, hInv.blocked]
    by_cases hx : x = u
    · subst hx
      simp [hWaits, eq_comm]
    · constructor
      · rintro ⟨hSome, hNot⟩
        exact (hNot ⟨hx, by rw [hSome]; rfl⟩).elim
      · exact fun hBoth => (hx hBoth.1).elim
  have hGranted : ∀ m x, (s.unlocked t mutex k').settle.owns m x = true ↔
          if m = mutex then x = u else s.owns m x = true := by
    intro m x
    have hNow := hReturns m x
    unfold Kernel.MutexBlocked at hNow
    unfold MutexState.settle MutexState.unlocked
    simp only [Bool.or_eq_true, Bool.and_eq_true, beq_iff_eq, bne_iff_ne, ne_eq]
    rw [hNow]
    by_cases hEq : m = mutex
    · subst hEq
      rw [if_pos rfl, Function.update_self]
      by_cases hx : x = t
      · subst hx
        simp
      · rw [Function.update_of_ne hx]
        constructor
        · rintro (hOld | ⟨hu, _⟩)
          · exact (hx (hInv.eq_of_owns hOld hOwns)).elim
          · exact hu
        · exact fun hu => .inr ⟨hu, rfl⟩
    · rw [if_neg hEq, Function.update_of_ne hEq]
      simp [hEq]
  have hUnique : ∀ x, (s.unlocked t mutex k').settle.owns mutex x = true ↔ x = u := by
    intro x
    rw [hGranted, if_pos rfl]
  refine ⟨?_, hUnique⟩
  constructor
  · exact hLists
  · intro h x
    rw [hSettled]
    by_cases hEq : h = .mutexQueue mutex
    · subst hEq
      rw [Function.update_self]
      have hMem : x ∈ w (.mutexQueue mutex) ↔ s.waitsFor x = some mutex := hInv.mem_iff
      rw [hList, List.mem_cons] at hMem
      by_cases hx : x = u
      · subst hx
        simpa using (List.nodup_cons.mp hNodup).1
      · rw [if_neg hx]
        simpa [hx] using hMem
    · rw [Function.update_of_ne hEq, hInv.waiting]
      by_cases hx : x = u
      · subst hx
        rw [if_pos rfl, hWaits]
        constructor
        · rintro ⟨m, rfl, hm⟩
          cases hm
          exact (hEq rfl).elim
        · rintro ⟨m, _, hm⟩
          cases hm
      · rw [if_neg hx]
  · intro x
    rw [hSettled]
    refine (hBlocked x).trans ?_
    rw [hInv.blocked x]
    by_cases hx : x = u
    · simp [hx]
    · simp [hx]
  · intro m
    unfold MutexState.OwnedOnce
    by_cases hEq : m = mutex
    · subst hEq
      exact .inr ⟨hRef, u, hUnique⟩
    · have hSame : ∀ x, (s.unlocked t mutex k').settle.owns m x = s.owns m x := by
        intro x
        rw [Bool.eq_iff_iff, hGranted, if_neg hEq]
      have hRefs : (s.unlocked t mutex k').settle.kernel.mutexRef m = s.kernel.mutexRef m :=
        hOthers m hEq
      simp only [hSame, hRefs]
      exact hInv.owner m
  · intro h
    have hOld : (w h).Pairwise (s.unlocked t mutex k').settle.before := by
      apply (hInv.order h).imp
      intro a b hBefore
      unfold MutexState.before MutexState.settle MutexState.unlocked
      dsimp only
      rw [hPrio, hPrio]
      exact hBefore
    by_cases hEq : h = .mutexQueue mutex
    · subst hEq
      rw [Function.update_self]
      rw [hList] at hOld
      exact (List.pairwise_cons.mp hOld).2
    · rw [Function.update_of_ne hEq]
      exact hOld
  · intro x
    rw [hSettled]
    intro hSome
    apply hInv.fresh
    split at hSome
    · cases hSome
    · exact hSome

end MutexInv

end Riot
