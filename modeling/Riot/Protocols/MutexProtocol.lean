import Riot.Protocols.MutexOwnership

/-
  The mutex protocol holds in every run.
-/

----
-- Steps
----

namespace Riot

open LinkMem

variable {N : Nat} {s : MutexState N} {w : WaitHead N → List (Fin N)}
variable {t u : Fin N} {mutex : Nat} {l : List (Fin N)}

/- A thread that runs is not blocked on a mutex. -/
theorem not_mutexBlocked
    {k : Kernel N} (hRuns : k.runnable t = true) :
    ¬ k.MutexBlocked t := by
  intro hBlocked
  unfold Kernel.runnable at hRuns
  rw [hBlocked] at hRuns
  cases hRuns

namespace MutexOp

variable {result : Kernel N × Outcome} {k' : Kernel N}

/- Execution of a lock call. -/
theorem exec_mutexLock
    (hLock : Riot.mutexLock storeStatus (s.kernel.dispatch t) mutex = some result) :
    (MutexOp.mutexLock t mutex).exec s = some (s.locked t mutex result).settle := by
  simp [exec, call, hLock]

/- Execution of a try. -/
theorem exec_mutexTrylock
    (hLock : Riot.mutexTrylock storeStatus (s.kernel.dispatch t) mutex = some result) :
    (MutexOp.mutexTrylock t mutex).exec s = some (s.locked t mutex result).settle := by
  simp [exec, call, hLock]

end MutexOp

namespace MutexInv

section

variable (hInv : MutexInv s w)

include hInv

/- Taking a free mutex, in either way. -/
theorem lockFree
    (hFree : s.kernel.mutexRef mutex = .null) (blocking : Bool) :
    ∃ result, mutexLockWith storeStatus (s.kernel.dispatch t) mutex
          blocking = some result ∧ MutexInv (s.locked t mutex result).settle w := by
  have hAcquired :
      MutexInv (s.locked t mutex ((s.kernel.dispatch t).takeMutex mutex, .returned 1)) w :=
    hInv.acquire hFree rfl rfl
  exact ⟨_, mutexLockWith_free hFree, hAcquired.settle⟩

/- Waiting for a taken mutex. -/
theorem lockTaken
    (hRuns : s.kernel.runnable t = true)
    (hTaken : s.kernel.mutexRef mutex ≠ .null) :
    ∃ k' w', mutexLock storeStatus (s.kernel.dispatch t) mutex = some (k', .blocked) ∧
        MutexInv (s.locked t mutex (k', .blocked)) w' ∧
        ∀ x, (k'.thread x).pid = (s.kernel.thread x).pid := by
  have hNot := not_mutexBlocked hRuns
  rcases mutexLock_taken (k := s.kernel.dispatch t) rfl hTaken
      hInv.lists (hInv.not_mem hNot) with
    ⟨mem, hLock, hLists, hRef, hOthers⟩
  have hBlocked : ∀ x, ((s.kernel.dispatch t).setStatus t
            .mutexBlocked).MutexBlocked x ↔ x = t ∨ s.kernel.MutexBlocked x := by
    intro x
    unfold Kernel.MutexBlocked
    rw [Kernel.setStatus_status]
    split
    · rename_i hx
      simp [hx]
    · rename_i hx
      simp [hx]
  have hWait := hInv.wait
      { (s.kernel.dispatch t).setStatus t
          .mutexBlocked with
        next := mem
        pendsv := true }
      hNot hTaken hLists hRef
      (fun m hNe => hOthers _ (by simpa using hNe))
      hBlocked
      (fun x => Kernel.setStatus_priority _ _ _ _)
  exact ⟨_, _, hLock, hWait, fun x => Kernel.setStatus_pid _ _ _ _⟩

/- A lock call takes the mutex or waits for it. -/
theorem lock
    (hRuns : s.kernel.runnable t = true) :
    ∃ s' w', (MutexOp.mutexLock t mutex).exec s = some s' ∧ MutexInv s' w' := by
  by_cases hFree : s.kernel.mutexRef mutex = .null
  · rcases hInv.lockFree hFree true with ⟨result, hLock, hInv'⟩
    exact ⟨_, w, MutexOp.exec_mutexLock hLock, hInv'⟩
  · rcases hInv.lockTaken hRuns hFree with ⟨k', w', hLock, hInv', _⟩
    exact ⟨_, w', MutexOp.exec_mutexLock hLock, hInv'.settle⟩

/- A try takes the mutex or fails. -/
theorem trylock :
    ∃ s' w', (MutexOp.mutexTrylock t mutex).exec s = some s' ∧ MutexInv s' w' := by
  by_cases hFree : s.kernel.mutexRef mutex = .null
  · rcases hInv.lockFree hFree false with ⟨result, hLock, hInv'⟩
    exact ⟨_, w, MutexOp.exec_mutexTrylock hLock, hInv'⟩
  · have hTry : mutexTrylock storeStatus (s.kernel.dispatch t) mutex =
          some (s.kernel.dispatch t, .returned 0) :=
      mutexTrylock_taken hFree
    have hRefused : MutexInv (s.locked t mutex (s.kernel.dispatch t, .returned 0)) w :=
      hInv.refuse rfl rfl
    exact ⟨_, w, MutexOp.exec_mutexTrylock hTry, hRefused.settle⟩

/- The end of a nap does not matter to mutexes. -/
theorem wakeup
    {pid : Int} :
    ∃ s' w', (MutexOp.threadWakeup t pid).exec s = some s' ∧ MutexInv s' w' := by
  have hWoken : ∃ k' result, threadWakeup storeStatus false (s.kernel.dispatch t)
            pid = some (k', result) ∧ MutexInv { s with kernel := k' } w := by
    unfold threadWakeup
    split
    · exact ⟨_, _, rfl, hInv.setKernel rfl (fun _ => Iff.rfl) (fun _ => rfl)⟩
    · rename_i thread hGet
      split
      · rename_i hSleeping
        rcases schedSwitch_eq false
            (((s.kernel.dispatch t).setStatus thread .running).thread thread).priority
            (k := (s.kernel.dispatch t).setStatus thread .running) rfl with
          ⟨k', hSwitch, c, p, hEq⟩
        refine ⟨k', 1, ?_, ?_⟩
        · simp only [storeStatus, Option.bind_eq_bind, Option.bind_some]
          rw [hSwitch]
          rfl
        · subst hEq
          apply hInv.setKernel
          · rfl
          · intro x
            unfold Kernel.MutexBlocked
            dsimp only
            rw [Kernel.setStatus_status]
            split
            · rename_i hx
              subst hx
              have hStatus : (s.kernel.thread x).status = .sleeping := hSleeping
              simp [hStatus]
            · exact Iff.rfl
          · intro x
            exact Kernel.setStatus_priority _ _ _ _
      · exact ⟨_, _, rfl, hInv.setKernel rfl (fun _ => Iff.rfl) (fun _ => rfl)⟩
  rcases hWoken with ⟨k', result, hWakeup, hInv'⟩
  refine ⟨_, w, ?_, hInv'.settle⟩
  simp [MutexOp.exec, MutexOp.call, hWakeup]

end

/- After `s'` the first waiter of the mutex owns it. -/
def HandsOver
    (w : WaitHead N → List (Fin N)) (mutex : Nat) (s' : MutexState N) : Prop :=
  ∀ u l, w (.mutexQueue mutex) = u :: l → ∀ x, s'.owns mutex x = true ↔ x = u

section

variable (hInv : MutexInv s w) (hOwns : s.owns mutex t = true)

include hInv hOwns

/-
  The common part of both unlock calls: whatever a call does
  later, to the links, the blocked threads and priorities it
  does nothing.
-/
theorem release :
    ∃ k₁ next, mutexRelease storeStatus (s.kernel.dispatch t) mutex = some (k₁, next) ∧
        k₁.schedActiveThread = some t ∧ (∀ x, k₁.MutexBlocked x → s.kernel.MutexBlocked x) ∧
        ∀ k' : Kernel N, k'.next = k₁.next → (∀ x, k'.MutexBlocked x ↔ k₁.MutexBlocked x) →
          (∀ x, (k'.thread x).priority = (k₁.thread x).priority) → ∃ w',
            MutexInv (s.unlocked t mutex k').settle w' ∧
              HandsOver w mutex (s.unlocked t mutex k').settle := by
  have hTaken : s.kernel.mutexRef mutex ≠ .null := by
    rcases hInv.owner mutex with ⟨_, hNone⟩ | ⟨hTaken, _⟩
    · rw [hNone t] at hOwns
      cases hOwns
    · exact hTaken
  by_cases hMark : s.kernel.mutexRef mutex = .mark
  · refine ⟨_, _, mutexRelease_mark (k := s.kernel.dispatch t) hMark, rfl, fun _ hOld => hOld, ?_⟩
    intro k' hNext hBlocked hPrio
    refine ⟨w, hInv.freed hOwns hMark hNext hBlocked hPrio, ?_⟩
    intro u l hList
    rw [hInv.lists.eq_nil_of_mark hMark] at hList
    cases hList
  · rcases hInv.lists.exists_cons hTaken hMark with ⟨u, l, hList⟩
    rcases mutexRelease_cons (k := s.kernel.dispatch t)
        hInv.lists hList with
      ⟨mem, hRelease, hLists, hRef, hOthers⟩
    have hWoken : ∀ x, ((s.kernel.dispatch t).setStatus u
              .pending).MutexBlocked x ↔ x ≠ u ∧ s.kernel.MutexBlocked x := by
      intro x
      unfold Kernel.MutexBlocked
      rw [Kernel.setStatus_status]
      split
      · rename_i hx
        simp [hx]
      · rename_i hx
        simp [hx]
    refine ⟨_, _, hRelease, rfl, fun x hOld => ((hWoken x).mp hOld).2, ?_⟩
    intro k' hNext hBlocked hPrio
    have hLists' : WaitLists k'.next (Function.update w (.mutexQueue mutex) l) := by
      rw [hNext]
      exact hLists
    have hRef' : k'.mutexRef mutex ≠ .null := by
      unfold Kernel.mutexRef
      rw [hNext]
      exact hRef
    have hOthers' : ∀ m, m ≠ mutex → k'.mutexRef m = s.kernel.mutexRef m := by
      intro m hNe
      unfold Kernel.mutexRef
      rw [hNext]
      exact hOthers _ (by simpa using hNe)
    have hPrio' : ∀ x, (k'.thread x).priority = (s.kernel.thread x).priority := by
      intro x
      rw [hPrio]
      exact Kernel.setStatus_priority _ _ _ _
    rcases hInv.handed hOwns hList hLists' hRef' hOthers'
        (fun x => (hBlocked x).trans (hWoken x)) hPrio' with
      ⟨hInv', hOwner⟩
    refine ⟨_, hInv', ?_⟩
    intro u' l' hList'
    rw [hList] at hList'
    cases hList'
    exact hOwner

/- Unlocking frees the mutex or hands it over. -/
theorem unlockCall :
    ∃ k' w', mutexUnlock storeStatus false (s.kernel.dispatch t)
          mutex = some k' ∧ MutexInv (s.unlocked t mutex k').settle w' ∧
        HandsOver w mutex (s.unlocked t mutex k').settle ∧
        ∀ x, (k'.thread x).pid = (s.kernel.thread x).pid := by
  rcases hInv.release hOwns with ⟨k₁, next, hRelease, hActive, _, hAfter⟩
  have hUnlock : ∃ k', mutexUnlock storeStatus false (s.kernel.dispatch t)
            mutex = some k' ∧ ∃ c p, k' = { k₁ with
                schedContextSwitchRequest := c
                pendsv := p } := by
    unfold mutexUnlock
    rw [hRelease]
    cases next with
    | none => exact ⟨k₁, rfl, _, _, rfl⟩
    | some process => exact schedSwitch_eq false _ hActive
  rcases hUnlock with ⟨k', hUnlock, c, p, hEq⟩
  have hThread : k'.thread = k₁.thread := by
    rw [hEq]
  rcases hAfter k' (by rw [hEq])
      (fun x => by unfold Kernel.MutexBlocked; rw [hThread])
      (fun x => by rw [hThread]) with
    ⟨w', hInv', hHands⟩
  refine ⟨k', w', hUnlock, hInv', hHands, ?_⟩
  intro x
  rw [hThread]
  exact mutexRelease_pid hRelease x

/- The unlock call as a step. -/
theorem unlock :
    ∃ s' w',
      (MutexOp.mutexUnlock t mutex).exec s = some s' ∧ MutexInv s' w' ∧ HandsOver w mutex s' := by
  rcases hInv.unlockCall hOwns with ⟨k', w', hUnlock, hInv', hHands, _⟩
  exact ⟨_, w', by simp only [MutexOp.exec, MutexOp.call, hUnlock]; rfl, hInv', hHands⟩

end

/- So does unlocking before a nap. -/
theorem unlockAndSleep
    (hInv : MutexInv s w) (hRuns : s.kernel.runnable t = true)
    (hOwns : s.owns mutex t = true) :
    ∃ s' w', (MutexOp.mutexUnlockAndSleep t mutex).exec s = some s' ∧ MutexInv s' w' ∧
        HandsOver w mutex s' := by
  rcases hInv.release hOwns with ⟨k₁, next, hRelease, hActive, hKept, hAfter⟩
  have hUnlock : mutexUnlockAndSleep storeStatus (s.kernel.dispatch t)
          mutex = some (threadYieldHigher (k₁.setStatus t .sleeping)) := by
    unfold mutexUnlockAndSleep
    rw [hRelease]
    simp only [Option.bind_eq_bind, Option.bind_some]
    rw [hActive]
    rfl
  have hNot : ¬ k₁.MutexBlocked t := fun hOld => not_mutexBlocked hRuns (hKept t hOld)
  have hBlocked :
      ∀ x, (threadYieldHigher (k₁.setStatus t .sleeping)).MutexBlocked x ↔ k₁.MutexBlocked x := by
    intro x
    unfold Kernel.MutexBlocked threadYieldHigher
    dsimp only
    rw [Kernel.setStatus_status]
    split
    · rename_i hx
      subst hx
      simpa [Kernel.MutexBlocked] using hNot
    · exact Iff.rfl
  rcases hAfter (threadYieldHigher (k₁.setStatus t .sleeping))
      rfl hBlocked
      (fun _ => Kernel.setStatus_priority _ _ _ _) with
    ⟨w', hInv', hHands⟩
  exact ⟨_, w', by simp only [MutexOp.exec, MutexOp.call, hUnlock]; rfl, hInv', hHands⟩

/- Every call has a result that keeps the invariant. -/
theorem step
    {op : MutexOp N} (hInv : MutexInv s w) (hEnabled : op.Enabled s) :
    ∃ s' w', op.exec s = some s' ∧ MutexInv s' w' := by
  cases op with
  | mutexLock t mutex => exact hInv.lock hEnabled
  | mutexTrylock t mutex => exact hInv.trylock
  | mutexUnlock t mutex =>
    rcases hInv.unlock hEnabled.2 with ⟨s', w', hExec, hInv', _⟩
    exact ⟨s', w', hExec, hInv'⟩
  | mutexUnlockAndSleep t mutex =>
    rcases hInv.unlockAndSleep hEnabled.1 hEnabled.2 with ⟨s', w', hExec, hInv', _⟩
    exact ⟨s', w', hExec, hInv'⟩
  | threadWakeup t pid => exact hInv.wakeup

end MutexInv

/- The invariant holds in every run. -/
theorem mutexInv_of_reachable
    (hReach : (mutexSystem N).Reachable s) :
    ∃ w, MutexInv s w := by
  refine System.ReachableVia.invariant (I := fun s => ∃ w, MutexInv s w) hReach ?_ ?_
  · rintro s ⟨hNull, hStatus, hOwns, hWaits⟩
    refine ⟨fun _ => [], ?_⟩
    constructor
    · exact WaitLists.of_null hNull
    · intro h t
      simp [hWaits]
    · intro t
      rw [hWaits t]
      simpa [Kernel.MutexBlocked] using hStatus t
    · intro mutex
      exact .inl ⟨hNull _, hOwns mutex⟩
    · intro h
      exact List.Pairwise.nil
    · intro t hSome
      rw [hWaits t] at hSome
      cases hSome
  · rintro s op s' ⟨w, hInv⟩ _ hEnabled hExec
    rcases hInv.step hEnabled with ⟨s₁, w', hStep, hInv'⟩
    have hEq : some s₁ = some s' := hStep.symm.trans hExec
    cases hEq
    exact ⟨w', hInv'⟩

----
-- Protocol
----

variable {N : Nat}

/- The call unlocks the mutex. -/
def MutexOp.Unlocks
    (op : MutexOp N) (mutex : Nat) : Prop :=
  (∃ t, op = .mutexUnlock t mutex) ∨ ∃ t, op = .mutexUnlockAndSleep t mutex

/-
  What the mutexes promise: one owner, a null reference
  exactly while unowned, a wait list of exactly the blocked
  threads, and hand-over by priority and waiting time.
-/
structure MutexProtocol (s : MutexState N) : Prop where
  unique : ∀ mutex t u, s.owns mutex t = true → s.owns mutex u = true → t = u
  free : ∀ mutex, s.kernel.mutexRef mutex = .null ↔ ∀ t, s.owns mutex t = false
  waiters :
    ∀ mutex, ∃ l, HoldsWaiters s.kernel.next (.mutexQueue mutex) l ∧ ∀ t, l.count t =
            if (s.kernel.thread t).status = .mutexBlocked ∧
                s.waitsFor t = some mutex then
              1
            else
              0
  blocked : ∀ t, (s.kernel.thread t).status = .mutexBlocked → ∃ mutex, s.waitsFor t = some mutex
  handOver :
    ∀ (op : MutexOp N) (mutex : Nat) (s' : MutexState N), op.Unlocks mutex → op.Enabled s →
        op.exec s = some s' → (∃ t, s.waitsFor t = some mutex) → ∃ u,
          s.waitsFor u = some mutex ∧ (∀ t, s'.owns mutex t = true ↔ t = u) ∧
            ∀ t, s.waitsFor t = some mutex → t ≠ u → s.before u t
  returns : ∀ op : MutexOp N, op.Enabled s → (op.exec s).isSome = true

/- The first waiter is the one that comes before all. -/
theorem MutexInv.handOver
    {s s' : MutexState N} {w : WaitHead N → List (Fin N)} {op : MutexOp N} {mutex : Nat}
    {t : Fin N} (hInv : MutexInv s w) (hUnlocks : op.Unlocks mutex)
    (hEnabled : op.Enabled s) (hExec : op.exec s = some s')
    (hWaits : s.waitsFor t = some mutex) :
    ∃ u, s.waitsFor u = some mutex ∧ (∀ t, s'.owns mutex t = true ↔ t = u) ∧
        ∀ t, s.waitsFor t = some mutex → t ≠ u → s.before u t := by
  have hHands : MutexInv.HandsOver w mutex s' := by
    rcases hUnlocks with ⟨t, rfl⟩ | ⟨t, rfl⟩
    · rcases hInv.unlock hEnabled.2 with ⟨s₁, _, hStep, _, hHands⟩
      have hEq : some s₁ = some s' := hStep.symm.trans hExec
      cases hEq
      exact hHands
    · rcases hInv.unlockAndSleep hEnabled.1 hEnabled.2 with ⟨s₁, _, hStep, _, hHands⟩
      have hEq : some s₁ = some s' := hStep.symm.trans hExec
      cases hEq
      exact hHands
  have hMem : t ∈ w (.mutexQueue mutex) := hInv.mem_iff.mpr hWaits
  rcases List.exists_cons_of_ne_nil (List.ne_nil_of_mem hMem) with ⟨u, l, hList⟩
  have hOrder := hInv.order (.mutexQueue mutex)
  rw [hList, List.pairwise_cons] at hOrder
  refine ⟨u, ?_, hHands u l hList, ?_⟩
  · rw [← hInv.mem_iff, hList]
    exact List.mem_cons_self
  · intro x hx hNe
    rw [← hInv.mem_iff, hList] at hx
    exact hOrder.1 x ((List.mem_cons.mp hx).resolve_left hNe)

/- The mutex protocol, in every run. -/
theorem mutexProtocol_of_reachable
    {s : MutexState N} (hReach : (mutexSystem N).Reachable s) :
    MutexProtocol s := by
  rcases mutexInv_of_reachable hReach with ⟨w, hInv⟩
  constructor
  · intro mutex t u ht hu
    exact hInv.eq_of_owns ht hu
  · intro mutex
    rcases hInv.owner mutex with ⟨hNull, hNone⟩ | ⟨hTaken, o, hOne⟩
    · exact ⟨fun _ => hNone, fun _ => hNull⟩
    · constructor
      · exact fun hNull => (hTaken hNull).elim
      · intro hNone
        have hOwns := (hOne o).mpr rfl
        rw [hNone o] at hOwns
        cases hOwns
  · intro mutex
    have hHolds := hInv.lists.waits (.mutexQueue mutex)
    refine ⟨w (.mutexQueue mutex), hHolds, ?_⟩
    intro t
    rw [hHolds.nodup.count]
    have hBlocked : s.waitsFor t = some mutex → (s.kernel.thread t).status = .mutexBlocked := by
      intro hWaits
      apply (hInv.blocked t).mpr
      rw [hWaits]
      rfl
    simp only [hInv.mem_iff]
    by_cases hWaits : s.waitsFor t = some mutex
    · simp [hWaits, hBlocked hWaits]
    · simp [hWaits]
  · intro t hStatus
    exact Option.isSome_iff_exists.mp ((hInv.blocked t).mp hStatus)
  · rintro op mutex s' hUnlocks hEnabled hExec ⟨t, hWaits⟩
    exact hInv.handOver hUnlocks hEnabled hExec hWaits
  · intro op hEnabled
    rcases hInv.step hEnabled with ⟨s', _, hStep, _⟩
    rw [hStep]
    rfl

/- Three threads, the later ones more urgent. -/
def mutexStart : MutexState 3 where
  kernel :=
    { Kernel.zero 3 with
      thread := fun t =>
        { Thread.zero 3 with status := .pending, priority := 9 - t, pid := t + 1 } }
  owns := fun _ _ => false
  waitsFor := fun _ => none
  since := fun _ => 0
  clock := 0

/-
  Threads 1 and 2 wait for the mutex of thread 0; thread 2
  gets it first.
-/
theorem mutexProtocol_of_lockRun :
    ∃ s,
      (mutexSystem 3).runVia (fun _ _ => True) mutexStart
          [.mutexLock 0 0, .mutexLock 1 0, .mutexLock 2 0, .mutexUnlock 0 0] = some s ∧
        s.owns 0 2 = true ∧ MutexProtocol s := by
  have hStart : (mutexSystem 3).Start mutexStart := by
    refine ⟨fun _ => rfl, ?_, fun _ _ => rfl, fun _ => rfl⟩
    intro t hStatus
    cases hStatus
  exact System.exists_run hStart (by decide +kernel) (fun _ => mutexProtocol_of_reachable)

end Riot
