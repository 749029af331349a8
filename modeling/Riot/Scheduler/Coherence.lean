import Riot.Scheduler.ManagedRuns

/-
  Coherence of the run-queue cache.

  The cache is written with every status change, but neither
  by the expiry test of `sched_run` nor by `thread_yield`.
  It has the bit of exactly the nonempty queues as long as
  `sched_run` does not drop the only node of queue 1 and
  `thread_yield` does not follow a null link.
-/

----
-- Coherent Caches
----

namespace Riot

variable {N : Nat}

/- The cache has the bits of exactly the nonempty queues. -/
def Coherent
    (order : BitOrder) (bitcache : BitVec 32) (mem : LinkMem (ListHead N) (Fin N)) : Prop :=
  ∀ p < schedPrioLevels, order.test bitcache p = true ↔ mem (.head (.runqueue p)) ≠ .null

/- `prio` is the smallest priority with a nonempty queue. -/
def IsSmallestQueue
    (mem : LinkMem (ListHead N) (Fin N)) (prio : Nat) : Prop :=
  prio < schedPrioLevels ∧ mem (.head (.runqueue prio)) ≠ .null ∧
    ∀ p < prio, mem (.head (.runqueue p)) = .null

instance
    (order : BitOrder) (bitcache : BitVec 32) (mem : LinkMem (ListHead N) (Fin N)) :
    Decidable (Coherent order bitcache mem) := by
  unfold Coherent
  infer_instance

instance
    (mem : LinkMem (ListHead N) (Fin N)) (prio : Nat) :
    Decidable (IsSmallestQueue mem prio) := by
  unfold IsSmallestQueue
  infer_instance

/- A coherent cache names the smallest nonempty queue. -/
theorem Coherent.getPrioQueue_eq
    {order : BitOrder} {bitcache : BitVec 32} {mem : LinkMem (ListHead N) (Fin N)} {prio : Nat}
    (hCoherent : Coherent order bitcache mem)
    (hSmallest : IsSmallestQueue mem prio) :
    getPrioQueueFromRunqueue order bitcache = some prio := by
  rcases hSmallest with ⟨hPrio, hRef, hBelow⟩
  apply getPrioQueueFromRunqueue_eq
  · exact Nat.lt_trans hPrio (by decide)
  · exact (hCoherent prio hPrio).mpr hRef
  · intro p hp
    apply Bool.eq_false_of_not_eq_true
    intro hTest
    have hSome := (hCoherent p (Nat.lt_trans hp hPrio)).mp hTest
    exact hSome (hBelow p hp)

/- Status changes keep the cache coherent. -/
theorem QueueStep.coherent
    {cfg : Config N} {pops : Nat → Prop} {k k' : Kernel N}
    (hStep : QueueStep cfg pops k k')
    (hCoherent : Coherent cfg.bitOrder k.runqueueBitcache k.next) :
    Coherent cfg.bitOrder k'.runqueueBitcache k'.next := by
  have hLt : ∀ p, p = 1 ∨ (cfg.coreIdleThread = false ∧ p = 15) → p < 32 := by
    rintro p (rfl | ⟨_, rfl⟩) <;> decide
  intro p' hp'
  have hOld := hCoherent p' hp'
  have hLt' : p' < 32 := Nat.lt_trans hp' (by decide)
  cases hStep with
  | same hRefs hCache =>
    have hRef : k'.next _ = k.next _ := hRefs p'
    rw [hCache, hRef]
    exact hOld
  | push p hPrio hRef hRefs hCache =>
    rw [hCache, cfg.bitOrder.test_or_bit _ (hLt p hPrio) hLt']
    by_cases hEq : p' = p
    · subst hEq
      have hSome : k'.next _ ≠ .null := hRef
      simpa using hSome
    · have hSame : k'.next _ = k.next _ := hRefs p' hEq
      rw [hSame]
      simpa [hEq] using hOld
  | pop p hPops hPrio hRef hRefs hCache =>
    rw [hCache]
    by_cases hEq : p' = p
    · subst hEq
      by_cases hNull : k'.queueRef p' = .null
      · rw [if_pos hNull, cfg.bitOrder.test_and_not_bit _ hLt' hLt']
        have hNone : k'.next _ = .null := hNull
        simp [hNone]
      · rw [if_neg hNull, hOld]
        exact ⟨fun _ => hNull, fun _ => hRef hNull⟩
    · have hSame : k'.next _ = k.next _ := hRefs p' hEq
      rw [hSame]
      split
      · rw [cfg.bitOrder.test_and_not_bit _ (hLt p hPrio) hLt']
        simpa [hEq] using hOld
      · exact hOld

----
-- Runs
----

/-
  `sched_run` does not drop the only node of queue 1, and
  `thread_yield` does not follow a null link.
-/
def CoherenceStep
    (k : Kernel N) (op : SchedOp N) : Prop :=
  (op.schedules = true → k.evictsLast = false) ∧ (op = .threadYield → k.yieldBreaks = false)

instance
    (k : Kernel N) (op : SchedOp N) :
    Decidable (CoherenceStep k op) := by
  unfold CoherenceStep
  infer_instance

/- Admitted operations keep the cache coherent. -/
theorem OpEffect.coherent
    {cfg : Config N} {k k' : Kernel N} {op : SchedOp N}
    (hEffect : OpEffect cfg k op k') (hOk : CoherenceStep k op)
    (hCoherent : Coherent cfg.bitOrder k.runqueueBitcache k.next) :
    Coherent cfg.bitOrder k'.runqueueBitcache k'.next := by
  cases hEffect with
  | status hSteps =>
    exact hSteps.invariant
      (I := fun s =>
        Coherent cfg.bitOrder s.runqueueBitcache s.next)
      (fun _ _ hStep => hStep.coherent) hCoherent
  | run hCache hRefs hNull hLost =>
    intro p hp
    rw [hCache, hCoherent p hp]
    by_cases hEq : p = 1
    · subst hEq
      constructor
      · intro hBefore hAfter
        rcases hLost hAfter hBefore with ⟨hRun, hEvicts⟩
        rw [hOk.1 hRun] at hEvicts
        cases hEvicts
      · exact fun hAfter hBefore => hAfter (hNull hBefore)
    · have hSame : k'.next _ = k.next _ := hRefs p hEq
      rw [hSame]
  | yield hOp hCache hNull hLost =>
    intro p hp
    rw [hCache, hCoherent p hp]
    constructor
    · intro hBefore hAfter
      have hBreaks := hLost p hAfter hBefore
      rw [hOk.2 hOp] at hBreaks
      cases hBreaks
    · exact fun hAfter hBefore => hAfter (hNull p hBefore)

/- The cache is coherent when `kernel_init` is done. -/
theorem kernelInit_coherent
    {cfg : Config N} {k : Kernel N} (hInit : kernelInit cfg = some k) :
    Coherent cfg.bitOrder k.runqueueBitcache k.next := by
  rcases kernelInit_some hInit with ⟨_, k₁, hBefore, hSteps⟩
  apply hSteps.invariant
    (I := fun s =>
      Coherent cfg.bitOrder s.runqueueBitcache s.next)
    (fun _ _ hStep => hStep.coherent)
  intro p hp
  exact hBefore.cache p (Nat.lt_trans hp (by decide))

/-
  In every run under the condition the cache is coherent,
  and reading it, in either bit order, returns the smallest
  priority that has a nonempty queue.
-/
theorem coherent_of_reachable
    {cfg : Config N} {k : Kernel N}
    (hReach : (schedSystem cfg).ReachableVia CoherenceStep k) :
    Coherent cfg.bitOrder k.runqueueBitcache k.next ∧ ∀ prio, IsSmallestQueue k.next prio →
        getPrioQueueFromRunqueue cfg.bitOrder
            k.runqueueBitcache = some prio ∧ ∀ order bitcache, Coherent order bitcache k.next →
            getPrioQueueFromRunqueue order bitcache = some prio := by
  have hInv :
      Managed cfg k ∧ CacheSound cfg k ∧ Coherent cfg.bitOrder k.runqueueBitcache k.next := by
    apply hReach.invariant
    · intro s hInit
      rcases kernelInit_managed hInit with ⟨hM, hSound⟩
      exact ⟨hM, hSound, kernelInit_coherent hInit⟩
    · rintro s op s' ⟨hM, hSound, hCoherent⟩ hOk hEnabled hExec
      rcases hM.step hSound hEnabled hExec with ⟨hM', hEffect⟩
      exact ⟨hM', hEffect.cacheSound hSound, hEffect.coherent hOk hCoherent⟩
  refine ⟨hInv.2.2, ?_⟩
  intro prio hSmallest
  refine ⟨hInv.2.2.getPrioQueue_eq hSmallest, ?_⟩
  intro order bitcache hOther
  exact hOther.getPrioQueue_eq hSmallest

/-
  A run under the condition: a new thread is created and
  gets its turn.
-/
theorem coherent_of_createRun :
    ∃ k,
      schedRuns idleConfig CoherenceStep
          [.pendsv, .threadCreate false 2 8 0 1000, .timerTick, .timerTick, .threadSleep] = some k ∧
        IsSmallestQueue k.next 1 ∧
        getPrioQueueFromRunqueue idleConfig.bitOrder k.runqueueBitcache = some 1 := by
  rcases
    exists_reachable_of_schedRuns idleConfig CoherenceStep
      (fun k => IsSmallestQueue k.next 1)
      [.pendsv, .threadCreate false 2 8 0 1000, .timerTick, .timerTick, .threadSleep]
      (by decide +kernel) with
    ⟨k, hRun, hReach, hSmallest⟩
  exact ⟨k, hRun, hSmallest, ((coherent_of_reachable hReach).2 1 hSmallest).1⟩

/-
  Without the condition the cache goes stale: two threads
  expire, and the only node left on queue 1 is dropped with
  its bit still set.
-/
theorem not_coherent :
    ∃ k, (schedSystem idleConfig).Reachable k ∧
        ¬ Coherent idleConfig.bitOrder k.runqueueBitcache
          k.next := by
  rcases
    exists_reachable_of_schedRuns idleConfig (fun _ _ => True)
      (fun k =>
        ¬ Coherent idleConfig.bitOrder k.runqueueBitcache k.next)
      [.pendsv, .threadCreate false 2 8 4 500, .timerTick,
        .timerTick, .timerTick, .timerTick, .timerTick]
      (by decide +kernel) with
    ⟨k, _, hReach, hNot⟩
  exact ⟨k, hReach, hNot⟩

end Riot
