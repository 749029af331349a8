import Riot.Sys.Sema

/-
  No wake-up of a semaphore is lost.

  A positive value is known to somebody: the mutex is free, or
  some thread is about to unlock it or to take a unit. After the
  semaphore was destroyed, the mutex is free or some thread is
  about to unlock it.
-/

----
-- The Property
----

namespace Riot

variable {ι : Type} [DecidableEq ι]

/- No operation is in progress but for blocked threads. -/
def SemaRun.Quiet
    (r : SemaRun ι) : Prop :=
  ∀ i, (r.pc i).isIdle = true ∨ (r.pc i).isBlocked = true

/-
  What is said of a state: the value is what was posted and not
  taken, and in a quiet state no thread is blocked if the value
  is positive or the semaphore was destroyed.
-/
structure SemaSound
    (value : Nat)
    (r : SemaRun ι) : Prop where
  taken_le : r.taken ≤ value + r.posted
  value_eq : r.sema.value = value + r.posted - r.taken
  noneBlocked : r.Quiet → 0 < r.sema.value → ∀ i, (r.pc i).isBlocked = false
  noneLeft : r.Quiet → r.destroyDone = true → ∀ i, (r.pc i).isBlocked = false

----
-- The Invariant
----

/-
  The thread unlocks the mutex, or looks at the value and then
  unlocks the mutex if some of it is left.
-/
def SemaPc.wakes : SemaPc → Bool
| .waitEnter didBlock _ _ => didBlock
| .waitReturn _ _ => true
| .waitCancel => true
| .waitUnlock => true
| .postUnlock => true
| .destroyUnlock => true
| _ => false

/- The thread unlocks the mutex of a destroyed semaphore. -/
def SemaPc.cancels : SemaPc → Bool
| .waitReturn _ _ => true
| .waitCancel => true
| .waitUnlock => true
| .postUnlock => true
| _ => false

structure SemaInv
    (value : Nat)
    (r : SemaRun ι) : Prop where
  count : r.sema.value + r.taken = value + r.posted
  nodup : r.sema.waiters.Nodup
  queue : ∀ i, i ∈ r.sema.waiters ↔ (r.pc i).isBlocked = true
  wake : 0 < r.sema.value → r.sema.mutex = none ∨ ∃ i, (r.pc i).wakes = true
  cancel : r.destroyDone = true → r.sema.mutex = none ∨ ∃ i, (r.pc i).cancels = true
  destroyed : r.destroyDone = true → r.sema.state = .destroy
  marked : ∀ i, r.pc i = .destroyUnlock → r.sema.state = .destroy

section

variable {value : Nat} {r r' : SemaRun ι} {i : ι}

/- Nobody is blocked if the mutex is free. -/
theorem SemaInv.not_blocked
    (h : SemaInv value r) (hFree : r.sema.mutex = none) (i : ι) :
    (r.pc i).isBlocked = false := by
  have hNot : ¬ i ∈ r.sema.waiters := by
    rw [Sema.waiters, hFree]
    exact List.not_mem_nil
  rw [h.queue] at hNot
  simpa using hNot

/- In a quiet state nobody is about to do anything. -/
theorem SemaRun.Quiet.mutex_free
    {about : SemaPc → Bool} (hQuiet : r.Quiet)
    (hIdle : ∀ ret, about (.idle ret) = false)
    (hBlocked : ∀ timed, about (.waitBlocked timed) = false)
    (hSome : r.sema.mutex = none ∨ ∃ i, about (r.pc i) = true) :
    r.sema.mutex = none := by
  rcases hSome with hFree | ⟨i, hAbout⟩
  · exact hFree
  · exfalso
    rcases hQuiet i with hPc | hPc
    · cases hAt : r.pc i with
      | idle ret =>
        rw [hAt, hIdle] at hAbout
        cases hAbout
      | _ =>
        rw [hAt] at hPc
        cases hPc
    · cases hAt : r.pc i with
      | waitBlocked timed =>
        rw [hAt, hBlocked] at hAbout
        cases hAbout
      | _ =>
        rw [hAt] at hPc
        cases hPc

theorem SemaInv.sound
    (h : SemaInv value r) :
    SemaSound value r := by
  have hCount := h.count
  refine ⟨by omega, by omega, ?_, ?_⟩
  · intro hQuiet hPos i
    exact h.not_blocked (hQuiet.mutex_free (fun _ => rfl) (fun _ => rfl) (h.wake hPos)) i
  · intro hQuiet hDone i
    exact h.not_blocked (hQuiet.mutex_free (fun _ => rfl) (fun _ => rfl) (h.cancel hDone)) i

theorem SemaInv.init
    (value : Nat) :
    SemaInv value (SemaRun.init value : SemaRun ι) := by
  have hWaiters : (SemaRun.init value : SemaRun ι).sema.waiters = [] := by
    unfold SemaRun.init semaCreate Sema.waiters
    dsimp only
    split <;> rfl
  refine ⟨rfl, ?_, ?_, ?_, ?_, ?_, ?_⟩
  · rw [hWaiters]
    exact List.nodup_nil
  · intro i
    rw [hWaiters]
    simp [SemaRun.init, SemaPc.isBlocked]
  · intro hPos
    left
    exact if_neg (Nat.ne_of_gt hPos)
  · intro hDone
    cases hDone
  · intro hDone
    cases hDone
  · intro i hAt
    cases hAt

----
-- Steps of One Thread
----

/- The threads that destroy stay after the mark. -/
theorem SemaInv.marked_goto
    {pc : SemaPc} {state : SemaStatus} (h : SemaInv value r)
    (hState : r.sema.state = state)
    (hMarked : pc = .destroyUnlock → state = .destroy) (j : ι)
    (hAt : Function.update r.pc i pc j = .destroyUnlock) :
    state = .destroy := by
  by_cases hj : j = i
  · subst hj
    rw [Function.update_self] at hAt
    exact hMarked hAt
  · rw [Function.update_of_ne hj] at hAt
    rw [← hState]
    exact h.marked j hAt

/- A thread moves on, and the mutex stays as it is. -/
theorem SemaInv.moved
    (h : SemaInv value r) (pc : SemaPc) (hBlocked : (r.pc i).isBlocked = false)
    (hBlocked' : pc.isBlocked = false) (hPc : r'.pc = Function.update r.pc i pc)
    (hMutex : r'.sema.mutex = r.sema.mutex) (hDone : r'.destroyDone = r.destroyDone)
    (hDestroyed : r.sema.state = .destroy → r'.sema.state = .destroy)
    (hCount : r'.sema.value + r'.taken = value + r'.posted)
    (hWake : 0 < r'.sema.value → pc.wakes = true ∨ (0 < r.sema.value ∧ (r.pc i).wakes = false))
    (hCancel : r.destroyDone = true → pc.cancels = true ∨ (r.pc i).cancels = false)
    (hMarked : pc = .destroyUnlock → r'.sema.state = .destroy) :
    SemaInv value r' := by
  have hOther : ∀ {about : SemaPc → Bool}, about (r.pc i) = false → (∃ j, about (r.pc j) = true) →
        ∃ j, about (r'.pc j) = true := by
    rintro about hNot ⟨j, hAbout⟩
    refine ⟨j, ?_⟩
    rw [hPc, Function.update_of_ne]
    · exact hAbout
    · rintro rfl
      rw [hNot] at hAbout
      cases hAbout
  have hSelf : r'.pc i = pc := by
    rw [hPc, Function.update_self]
  have hWaiters : r'.sema.waiters = r.sema.waiters := by
    rw [Sema.waiters, hMutex]
    rfl
  refine ⟨hCount, ?_, ?_, ?_, ?_, ?_, ?_⟩
  · rw [hWaiters]
    exact h.nodup
  · intro j
    rw [hWaiters, h.queue]
    by_cases hj : j = i
    · subst hj
      rw [hSelf, hBlocked, hBlocked']
    · rw [hPc, Function.update_of_ne hj]
  · intro hPos
    rw [hMutex]
    rcases hWake hPos with hNew | ⟨hOld, hNot⟩
    · exact Or.inr ⟨i, by rw [hSelf]; exact hNew⟩
    · rcases h.wake hOld with hFree | hSome
      · exact Or.inl hFree
      · exact Or.inr (hOther hNot hSome)
  · intro hDone'
    rw [hDone] at hDone'
    rw [hMutex]
    rcases hCancel hDone' with hNew | hNot
    · exact Or.inr ⟨i, by rw [hSelf]; exact hNew⟩
    · rcases h.cancel hDone' with hFree | hSome
      · exact Or.inl hFree
      · exact Or.inr (hOther hNot hSome)
  · intro hDone'
    rw [hDone] at hDone'
    exact hDestroyed (h.destroyed hDone')
  · intro j hAt
    by_cases hj : j = i
    · subst hj
      rw [hSelf] at hAt
      exact hMarked hAt
    · rw [hPc, Function.update_of_ne hj] at hAt
      exact hDestroyed (h.marked j hAt)

/- What an unlock leaves. -/
theorem SemaInv.mutexUnlock_spec
    (h : SemaInv value r) :
    r.mutexUnlock.sema.value = r.sema.value ∧ r.mutexUnlock.sema.state = r.sema.state ∧
    r.mutexUnlock.taken = r.taken ∧ r.mutexUnlock.posted = r.posted ∧
    r.mutexUnlock.destroyDone = r.destroyDone ∧ r.mutexUnlock.sema.waiters.Nodup ∧
    (∀ j, j ∈ r.mutexUnlock.sema.waiters ↔ (r.mutexUnlock.pc j).isBlocked = true) ∧
    (∀ j, (r.pc j).isBlocked = false → r.mutexUnlock.pc j = r.pc j) ∧
    (∀ j, r.mutexUnlock.pc j = .destroyUnlock → r.pc j = .destroyUnlock) ∧
    (r.mutexUnlock.sema.mutex = none ∨
      ∃ j timed, (r.pc j).isBlocked = true ∧ r.mutexUnlock.pc j = .waitReturn true timed) := by
  have hNodup := h.nodup
  have hQueue := h.queue
  unfold Sema.waiters at hNodup hQueue
  unfold SemaRun.mutexUnlock Sema.waiters
  cases hMutex : r.sema.mutex with
  | none =>
    rw [hMutex] at hNodup hQueue
    dsimp only
    rw [hMutex]
    exact ⟨rfl, rfl, rfl, rfl, rfl, hNodup, hQueue, fun _ _ => rfl, fun _ hAt => hAt, Or.inl rfl⟩
  | some queue =>
    rw [hMutex] at hNodup hQueue
    cases queue with
    | nil =>
      exact ⟨rfl, rfl, rfl, rfl, rfl, hNodup, hQueue, fun _ _ => rfl, fun _ hAt => hAt, Or.inl rfl⟩
    | cons j queue =>
      have hHead : (r.pc j).isBlocked = true := (hQueue j).mp (List.mem_cons_self ..)
      have hNotIn : j ∉ queue := (List.nodup_cons.mp hNodup).1
      cases hAt : r.pc j with
      | waitBlocked timed =>
        refine ⟨rfl, rfl, rfl, rfl, rfl, (List.nodup_cons.mp hNodup).2, ?_, ?_, ?_, ?_⟩
        · intro k
          dsimp only
          by_cases hk : k = j
          · subst hk
            rw [Function.update_self]
            simp [hNotIn, hAt, SemaPc.isBlocked]
          · rw [Function.update_of_ne hk, ← hQueue k]
            simp [hk]
        · intro k hNot
          dsimp only
          rw [Function.update_of_ne]
          rintro rfl
          rw [hHead] at hNot
          cases hNot
        · intro k hUnlock
          dsimp only at hUnlock
          by_cases hk : k = j
          · subst hk
            rw [Function.update_self, hAt] at hUnlock
            cases hUnlock
          · rwa [Function.update_of_ne hk] at hUnlock
        · refine Or.inr ⟨j, timed, hHead, ?_⟩
          dsimp only
          rw [Function.update_self, hAt]
      | _ =>
        rw [hAt] at hHead
        cases hHead

/- A thread unlocks the mutex and moves on. -/
theorem SemaInv.unlocked
    (h : SemaInv value r) (pc : SemaPc) (hBlocked : (r.pc i).isBlocked = false)
    (hBlocked' : pc.isBlocked = false)
    (hPc : r'.pc = Function.update r.mutexUnlock.pc i pc)
    (hSema : r'.sema = r.mutexUnlock.sema) (hTaken : r'.taken = r.taken)
    (hPosted : r'.posted = r.posted)
    (hDestroyed : r'.destroyDone = true → r.sema.state = .destroy)
    (hMarked : pc ≠ .destroyUnlock) :
    SemaInv value r' := by
  rcases h.mutexUnlock_spec with ⟨hValue, hState, _, _, _, hNodup, hQueue, hKept, hUnlock, hWoken⟩
  have hSome : r'.sema.mutex = none ∨ ∃ j timed, r'.pc j = .waitReturn true timed := by
    rw [hSema]
    rcases hWoken with hFree | ⟨j, timed, hAt, hReturn⟩
    · exact Or.inl hFree
    · refine Or.inr ⟨j, timed, ?_⟩
      rw [hPc, Function.update_of_ne, hReturn]
      rintro rfl
      rw [hBlocked] at hAt
      cases hAt
  refine ⟨?_, ?_, ?_, ?_, ?_, ?_, ?_⟩
  · rw [hSema, hValue, hTaken, hPosted]
    exact h.count
  · rw [hSema]
    exact hNodup
  · intro j
    rw [hSema, hQueue]
    by_cases hj : j = i
    · subst hj
      rw [hPc, Function.update_self, hKept j hBlocked, hBlocked, hBlocked']
    · rw [hPc, Function.update_of_ne hj]
  · intro _
    rcases hSome with hFree | ⟨j, timed, hReturn⟩
    · exact Or.inl hFree
    · exact Or.inr ⟨j, by rw [hReturn]; rfl⟩
  · intro _
    rcases hSome with hFree | ⟨j, timed, hReturn⟩
    · exact Or.inl hFree
    · exact Or.inr ⟨j, by rw [hReturn]; rfl⟩
  · intro hDone
    rw [hSema, hState]
    exact hDestroyed hDone
  · intro j hAt
    rw [hSema, hState]
    by_cases hj : j = i
    · subst hj
      rw [hPc, Function.update_self] at hAt
      exact absurd hAt hMarked
    · rw [hPc, Function.update_of_ne hj] at hAt
      exact h.marked j (hUnlock j hAt)

theorem mem_addToQueue
    {prio : ι → Nat} {queue : List ι} (j : ι) :
    j ∈ addToQueue prio i queue ↔ j = i ∨ j ∈ queue := by
  have hSplit := List.takeWhile_append_dropWhile
    (p := fun j => decide (prio j ≤ prio i)) (l := queue)
  unfold addToQueue
  rw [List.mem_append, List.mem_cons]
  nth_rewrite 3 [← hSplit]
  rw [List.mem_append]
  exact or_left_comm

theorem nodup_addToQueue
    {prio : ι → Nat} {queue : List ι} (hNodup : queue.Nodup) (hNot : i ∉ queue) :
    (addToQueue prio i queue).Nodup := by
  have hSplit := List.takeWhile_append_dropWhile
    (p := fun j => decide (prio j ≤ prio i)) (l := queue)
  unfold addToQueue
  rw [List.perm_middle.nodup_iff, hSplit]
  exact List.nodup_cons.mpr ⟨hNot, hNodup⟩

/- A thread locks the mutex, gives up, or is blocked. -/
theorem SemaInv.lock
    (prio : ι → Nat) {timed expired : Bool} (h : SemaInv value r)
    (hAt : r.pc i = .waitLock timed) :
    SemaInv value (waitLockStep prio r i timed expired) := by
  have hBlocked : (r.pc i).isBlocked = false := by
    rw [hAt]
    rfl
  have hWakes : (r.pc i).wakes = false := by
    rw [hAt]
    rfl
  have hCancels : (r.pc i).cancels = false := by
    rw [hAt]
    rfl
  unfold waitLockStep
  cases hMutex : r.sema.mutex with
  | none =>
    have hReturn : ({ r with
            sema := { r.sema with mutex := some [] } }.goto i
          (.waitReturn true timed)).pc i = .waitReturn true timed :=
      Function.update_self ..
    refine ⟨h.count, List.nodup_nil, ?_, ?_, ?_, h.destroyed,
      h.marked_goto rfl (fun hUnlock => by cases hUnlock)⟩
    · intro j
      have hNone := h.not_blocked hMutex j
      by_cases hj : j = i
      · subst hj
        rw [hReturn]
        simp [SemaRun.goto, Sema.waiters, SemaPc.isBlocked]
      · simp [SemaRun.goto, Sema.waiters, Function.update_of_ne hj, hNone]
    · intro _
      exact Or.inr ⟨i, by rw [hReturn]; rfl⟩
    · intro _
      exact Or.inr ⟨i, by rw [hReturn]; rfl⟩
  | some queue =>
    dsimp only
    split
    · refine h.moved (.waitReturn false timed) hBlocked rfl
        rfl rfl rfl (fun hState => hState) h.count ?_ ?_ ?_
      · exact fun _ => Or.inl rfl
      · exact fun _ => Or.inl rfl
      · exact fun hUnlock => by cases hUnlock
    · have hQueue : ∀ j, j ∈ queue ↔ (r.pc j).isBlocked = true := by
        intro j
        rw [← h.queue, Sema.waiters, hMutex]
        rfl
      have hNodup : queue.Nodup := by
        have hNodup := h.nodup
        rwa [Sema.waiters, hMutex] at hNodup
      have hNot : i ∉ queue := by
        rw [hQueue, hBlocked]
        exact Bool.false_ne_true
      have hOther : ∀ {about : SemaPc → Bool}, about (r.pc i) = false →
            (r.sema.mutex = none ∨ ∃ j, about (r.pc j) = true) →
            ∃ j, about (Function.update r.pc i (.waitBlocked timed) j) = true := by
        rintro about hAbout (hFree | ⟨j, hSome⟩)
        · rw [hMutex] at hFree
          cases hFree
        · refine ⟨j, ?_⟩
          rw [Function.update_of_ne]
          · exact hSome
          · rintro rfl
            rw [hAbout] at hSome
            cases hSome
      refine ⟨h.count, nodup_addToQueue hNodup hNot, ?_, ?_, ?_, h.destroyed,
        h.marked_goto rfl (fun hUnlock => by cases hUnlock)⟩
      · intro j
        change j ∈ addToQueue prio i queue ↔
          (Function.update r.pc i (.waitBlocked timed) j).isBlocked = true
        rw [mem_addToQueue]
        by_cases hj : j = i
        · subst hj
          rw [Function.update_self]
          simp [SemaPc.isBlocked]
        · rw [Function.update_of_ne hj, hQueue]
          simp [hj]
      · intro hPos
        exact Or.inr (hOther hWakes (h.wake hPos))
      · intro hDone
        exact Or.inr (hOther hCancels (h.cancel hDone))

/- A timer removes a thread from the queue. -/
theorem SemaInv.timeout
    (h : SemaInv value r) (hAt : r.pc i = .waitBlocked true) :
    SemaInv value (semaTimeout r i) := by
  have hSelf : (semaTimeout r i).pc i = .waitReturn false true := Function.update_self ..
  have hWaiters : (semaTimeout r i).sema.waiters = r.sema.waiters.erase i := by
    unfold semaTimeout Sema.waiters
    cases r.sema.mutex with
    | none => rfl
    | some queue => rfl
  refine ⟨h.count, ?_, ?_, ?_, ?_, h.destroyed, h.marked_goto rfl (fun hUnlock => by cases hUnlock)⟩
  · rw [hWaiters]
    exact h.nodup.erase i
  · intro j
    rw [hWaiters, h.nodup.mem_erase_iff]
    by_cases hj : j = i
    · subst hj
      rw [hSelf]
      simp [SemaPc.isBlocked]
    · rw [h.queue]
      simp [semaTimeout, Function.update_of_ne hj, hj]
  · intro _
    exact Or.inr ⟨i, by rw [hSelf]; rfl⟩
  · intro _
    exact Or.inr ⟨i, by rw [hSelf]; rfl⟩

----
-- All Steps
----

/- A thread takes a unit, finds none, or has to wait. -/
theorem SemaInv.enter
    {didBlock block timed : Bool} (h : SemaInv value r)
    (hAt : r.pc i = .waitEnter didBlock block timed) :
    SemaInv value (waitEnterStep r i didBlock block timed) := by
  have hBlocked : (r.pc i).isBlocked = false := by
    rw [hAt]
    rfl
  have hCancels : (r.pc i).cancels = false := by
    rw [hAt]
    rfl
  unfold waitEnterStep
  split
  · rename_i hZero
    refine h.moved (.waitLock timed) hBlocked rfl rfl rfl rfl
      (fun hState => hState) h.count ?_
      (fun _ => Or.inr hCancels)
      (fun hUnlock => by cases hUnlock)
    intro hPos
    exact absurd hZero.1 (Nat.ne_of_gt hPos)
  · split
    · rename_i hZero
      refine h.moved _ hBlocked rfl rfl rfl rfl
        (fun hState => hState) h.count ?_
        (fun _ => Or.inr hCancels)
        (fun hUnlock => by cases hUnlock)
      intro hPos
      exact absurd hZero (Nat.ne_of_gt hPos)
    · rename_i hNe
      have hCount := h.count
      refine h.moved
        (if didBlock = true ∧ r.sema.value - 1 > 0 then .waitUnlock
        else
          .idle (some .success)) hBlocked ?_ rfl rfl rfl
        (fun hState => hState) ?_ ?_ (fun _ => Or.inr hCancels)
        ?_
      · split <;> rfl
      · change r.sema.value - 1 + (r.taken + 1) = _
        change _ = value + r.posted
        omega
      · intro hPos
        by_cases hDid : didBlock = true
        · left
          rw [if_pos ⟨hDid, hPos⟩]
          rfl
        · right
          refine ⟨Nat.pos_of_ne_zero hNe, ?_⟩
          rw [hAt]
          simpa [SemaPc.wakes] using hDid
      · intro hUnlock
        split at hUnlock <;> cases hUnlock

/- A posted unit is made known if the value was zero. -/
theorem SemaInv.post
    {uintMax : Nat} (h : SemaInv value r) (hAt : r.pc i = .postAdd) :
    SemaInv value (postAddStep uintMax r i) := by
  have hBlocked : (r.pc i).isBlocked = false := by
    rw [hAt]
    rfl
  have hWakes : (r.pc i).wakes = false := by
    rw [hAt]
    rfl
  have hCancels : (r.pc i).cancels = false := by
    rw [hAt]
    rfl
  unfold postAddStep
  split
  · exact h.moved _ hBlocked rfl rfl rfl rfl
      (fun hState => hState) h.count
      (fun hPos => Or.inr ⟨hPos, hWakes⟩)
      (fun _ => Or.inr hCancels)
      (fun hUnlock => by cases hUnlock)
  · have hCount := h.count
    refine h.moved
      (if r.sema.value = 0 then .postUnlock
      else .idle (some .success)) hBlocked ?_ rfl rfl rfl
      (fun hState => hState) ?_ ?_ (fun _ => Or.inr hCancels) ?_
    · split <;> rfl
    · change r.sema.value + 1 + r.taken = value + (r.posted + 1)
      omega
    · intro _
      by_cases hZero : r.sema.value = 0
      · left
        rw [if_pos hZero]
        rfl
      · exact Or.inr ⟨Nat.pos_of_ne_zero hZero, hWakes⟩
    · intro hUnlock
      split at hUnlock <;> cases hUnlock

/- Each step of a thread keeps the invariant. -/
theorem SemaInv.step
    (uintMax : Nat) (prio : ι → Nat) (h : SemaInv value r)
    (i : ι) (expired : Bool) :
    SemaInv value (semaStep uintMax prio r i expired) := by
  unfold semaStep
  split
  · exact h
  · rename_i block timed hAt
    split
    · exact h.moved _ (by rw [hAt]; rfl) rfl rfl rfl rfl
        (fun hState => hState) h.count
        (fun hPos => Or.inr ⟨hPos, by rw [hAt]; rfl⟩)
        (fun _ => Or.inr (by rw [hAt]; rfl))
        (fun hUnlock => by cases hUnlock)
    · exact h.moved _ (by rw [hAt]; rfl) rfl rfl rfl rfl
        (fun hState => hState) h.count
        (fun hPos => Or.inr ⟨hPos, by rw [hAt]; rfl⟩)
        (fun _ => Or.inr (by rw [hAt]; rfl))
        (fun hUnlock => by cases hUnlock)
  · rename_i hAt
    exact h.enter hAt
  · rename_i hAt
    exact h.lock prio hAt
  · exact h
  · rename_i locked timed hAt
    unfold waitReturnStep
    split
    · rename_i hOk
      refine h.moved _ (by rw [hAt]; rfl) rfl rfl rfl rfl
        (fun hState => hState) h.count (fun _ => Or.inl rfl) ?_
        (fun hUnlock => by cases hUnlock)
      intro hDone
      rw [h.destroyed hDone] at hOk
      cases hOk
    · exact h.moved .waitCancel (by rw [hAt]; rfl) rfl rfl rfl
        rfl (fun hState => hState) h.count
        (fun _ => Or.inl rfl) (fun _ => Or.inl rfl)
        (fun hUnlock => by cases hUnlock)
  · rename_i hAt
    exact h.unlocked _ (by rw [hAt]; rfl) rfl rfl rfl
      h.mutexUnlock_spec.2.2.1 h.mutexUnlock_spec.2.2.2.1
      (fun hDone => h.destroyed (h.mutexUnlock_spec.2.2.2.2.1 ▸ hDone))
      (fun hUnlock => by cases hUnlock)
  · rename_i hAt
    exact h.unlocked _ (by rw [hAt]; rfl) rfl rfl rfl
      h.mutexUnlock_spec.2.2.1 h.mutexUnlock_spec.2.2.2.1
      (fun hDone => h.destroyed (h.mutexUnlock_spec.2.2.2.2.1 ▸ hDone))
      (fun hUnlock => by cases hUnlock)
  · rename_i hAt
    exact h.post hAt
  · rename_i hAt
    exact h.unlocked _ (by rw [hAt]; rfl) rfl rfl rfl
      h.mutexUnlock_spec.2.2.1 h.mutexUnlock_spec.2.2.2.1
      (fun hDone => h.destroyed (h.mutexUnlock_spec.2.2.2.2.1 ▸ hDone))
      (fun hUnlock => by cases hUnlock)
  · rename_i hAt
    exact h.moved .destroyUnlock (by rw [hAt]; rfl) rfl rfl rfl
      rfl (fun _ => rfl) h.count (fun _ => Or.inl rfl)
      (fun _ => Or.inr (by rw [hAt]; rfl)) (fun _ => rfl)
  · rename_i hAt
    exact h.unlocked (.idle none) (by rw [hAt]; rfl) rfl rfl rfl
      h.mutexUnlock_spec.2.2.1 h.mutexUnlock_spec.2.2.2.1
      (fun _ => h.marked i hAt)
      (fun hUnlock => by cases hUnlock)

/- A call begins with nothing known to its thread. -/
theorem SemaInv.called
    (h : SemaInv value r) (pc : SemaPc) (hIdle : (r.pc i).isIdle = true)
    (hBlocked : pc.isBlocked = false) (hUnlock : pc ≠ .destroyUnlock)
    (hPc : r'.pc = Function.update r.pc i pc) (hSema : r'.sema = r.sema)
    (hTaken : r'.taken = r.taken) (hPosted : r'.posted = r.posted)
    (hDone : r'.destroyDone = r.destroyDone) :
    SemaInv value r' := by
  have hAt : ∃ ret, r.pc i = .idle ret := by
    cases hAt : r.pc i with
    | idle ret => exact ⟨ret, rfl⟩
    | _ =>
      rw [hAt] at hIdle
      cases hIdle
  rcases hAt with ⟨ret, hAt⟩
  refine h.moved pc (by rw [hAt]; rfl) hBlocked hPc
    (by rw [hSema]) hDone (fun hState => by rw [hSema, hState])
    ?_ ?_ ?_ (fun hEq => absurd hEq hUnlock)
  · rw [hSema, hTaken, hPosted]
    exact h.count
  · intro hPos
    rw [hSema] at hPos
    exact Or.inr ⟨hPos, by rw [hAt]; rfl⟩
  · exact fun _ => Or.inr (by rw [hAt]; rfl)

----
-- All Runs
----

theorem semaInv_of_reachable
    (uintMax : Nat) (prio : ι → Nat)
    (hReach : (semaSystem uintMax prio value).Reachable r) :
    SemaInv value r := by
  refine hReach.invariant ?_ ?_
  · rintro _ rfl
    exact SemaInv.init value
  · intro r e r' h _ hPossible hExec
    cases hExec
    cases e with
    | callWait i block timed =>
      exact h.called (.waitCheck block timed) hPossible rfl
        (fun hEq => by cases hEq) rfl rfl rfl rfl rfl
    | callPost i =>
      exact h.called .postAdd hPossible rfl (fun hEq => by cases hEq) rfl rfl rfl rfl rfl
    | callDestroy i =>
      exact h.called .destroyMark hPossible.1 rfl (fun hEq => by cases hEq) rfl rfl rfl rfl rfl
    | step i expired => exact h.step uintMax prio i expired
    | timeout i => exact h.timeout hPossible

end

----
-- A Run
----

instance SemaEvent.decidablePossible
    (r : SemaRun ι) (e : SemaEvent ι) :
    Decidable (e.Possible r) := by
  cases e <;> unfold Possible <;> infer_instance

instance
    (uintMax : Nat) (prio : ι → Nat) (value : Nat) (r : SemaRun ι) (e : SemaEvent ι) :
    Decidable ((semaSystem uintMax prio value).Enabled r e) :=
  SemaEvent.decidablePossible r e

/- One thread blocks, another posts and wakes it up. -/
def blockedThenPosted : List (SemaEvent Bool) :=
  [.callWait false true false, .step false false, .step false false, .step false false,
    .callPost true, .step true false, .step true false, .step false false, .step false false]

end Riot
