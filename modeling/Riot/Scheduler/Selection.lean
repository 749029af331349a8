import Riot.Scheduler.ManagedRuns

/-
  The queue that `sched_run` reads.

  `sched_run` reads queue 1 while it has nodes and queue 15
  otherwise.  With the idle thread, queue 15 is never empty.
  Without it, `sched_run` relies on the cache: if a bit is
  set, queue 1 or queue 15 must have a node.
-/

----
-- Safe Selection
----

namespace Riot

open LinkMem

variable {N : Nat}

/-
  If the count of queue 1 returns, `sched_run` reads a queue
  that is not empty, and selects the first thread of queue 1
  if that queue is not empty.
-/
def SelectsSafely
    (cfg : Config N) (k : Kernel N) : Prop :=
  (clistCount N k.next (.runqueue 1)).isSome = true → ∃ nextrq : Fin schedPrioLevels,
      nextRunqueue cfg k = some (nextrq : Nat) ∧ k.queueRef nextrq ≠ .null ∧
        (k.queueRef 1 ≠ .null →
          clistFirst k.next (.runqueue nextrq) = clistFirst k.next (.runqueue 1))

instance
    (cfg : Config N) (k : Kernel N) :
    Decidable (SelectsSafely cfg k) := by
  unfold SelectsSafely
  infer_instance

/- The operation makes `sched_run` select a thread. -/
def SchedOp.selects
    (cfg : Config N)
    (k : Kernel N) : SchedOp N → Bool
| .timerTick => !mustIdle cfg k
| .pendsv => !mustIdle cfg k
| .idleReturn => true
| _ => false

/- The bit of queue 1 is set for a nonempty queue only. -/
def FreshBit
    (cfg : Config N) (k : Kernel N) : Prop :=
  cfg.bitOrder.test k.runqueueBitcache 1 = true → k.queueRef 1 ≠ .null

/-
  The cache of a build without the idle thread: the bit of
  queue 15 is set for a nonempty queue only, and that of
  queue 1 may be stale only while queue 15 has a node.
-/
structure CacheCovers
    (cfg : Config N)
    (k : Kernel N) : Prop where
  last : cfg.bitOrder.test k.runqueueBitcache 15 = true → k.queueRef 15 ≠ .null
  stale : k.queueRef 15 = .null → FreshBit cfg k

/- Some queue has a node when some bit is set. -/
theorem CacheCovers.last_of_empty
    {cfg : Config N} {k : Kernel N} (hCovers : CacheCovers cfg k)
    (hSound : CacheSound cfg k) (hCache : k.runqueueBitcache ≠ 0#32)
    (hEmpty : k.queueRef 1 = .null) :
    k.queueRef 15 ≠ .null := by
  intro hLast
  rcases exists_smallest_of_ne cfg.bitOrder hCache with ⟨p, hp, hTest, _⟩
  rcases hSound.bits p hp hTest with rfl | rfl
  · exact hCovers.stale hLast hTest hEmpty
  · exact hCovers.last hTest hLast

/- Selection is safe once the last queue covers queue 1. -/
theorem CacheSound.selectsSafely
    {cfg : Config N} {k : Kernel N} (hSound : CacheSound cfg k)
    (hLast : k.queueRef 1 = .null → k.queueRef 15 ≠ .null) :
    SelectsSafely cfg k := by
  intro hCount
  rcases Option.isSome_iff_exists.mp hCount with ⟨n, hn⟩
  rcases clistCount_some hn with ⟨l, hCirc, _⟩
  have hNext := hSound.nextRunqueue_eq hCirc
  have hEmpty : l = [] ↔ k.queueRef 1 = .null := hCirc.eq_nil_iff
  by_cases hNil : l = []
  · rw [if_pos hNil] at hNext
    refine ⟨⟨15, by decide⟩, hNext, hLast (hEmpty.mp hNil), ?_⟩
    intro hSome
    exact (hSome (hEmpty.mp hNil)).elim
  · rw [if_neg hNil] at hNext
    exact ⟨⟨1, by decide⟩, hNext, fun hNull => hNil (hEmpty.mpr hNull), fun _ => rfl⟩

----
-- Status Changes
----

variable {N : Nat}

namespace QueueStep

variable {cfg : Config N} {pops : Nat → Prop} {k k' : Kernel N}

section

variable (hStep : QueueStep cfg pops k k')

include hStep

/- The bits of queues 1 and 15 after a status change. -/
theorem bit_of_test
    {p : Nat} (hp : p < 32)
    (hTest : cfg.bitOrder.test k'.runqueueBitcache p = true) :
    k'.queueRef p ≠ .null ∨
      (k'.queueRef p = k.queueRef p ∧ cfg.bitOrder.test k.runqueueBitcache p = true) := by
  have hLt : ∀ p, p = 1 ∨ (cfg.coreIdleThread = false ∧ p = 15) → p < 32 := by
    rintro p (rfl | ⟨_, rfl⟩) <;> decide
  cases hStep with
  | same hRefs hCache =>
    rw [hCache] at hTest
    exact .inr ⟨hRefs p, hTest⟩
  | push p' hPrio hRef hRefs hCache =>
    by_cases hEq : p = p'
    · subst hEq
      exact .inl hRef
    · rw [hCache, cfg.bitOrder.test_or_bit _ (hLt p' hPrio) hp] at hTest
      exact .inr ⟨hRefs p hEq, by simpa [hEq] using hTest⟩
  | pop p' hPops hPrio hRef hRefs hCache =>
    by_cases hEq : p = p'
    · subst hEq
      left
      intro hNull
      rw [hCache, if_pos hNull, cfg.bitOrder.test_and_not_bit _ hp hp] at hTest
      simp at hTest
    · right
      refine ⟨hRefs p hEq, ?_⟩
      rw [hCache] at hTest
      split at hTest
      · rw [cfg.bitOrder.test_and_not_bit _ (hLt p' hPrio) hp] at hTest
        simpa [hEq] using hTest
      · exact hTest

/- A fresh bit stays fresh. -/
theorem freshBit
    (hFresh : FreshBit cfg k) :
    FreshBit cfg k' := by
  intro hTest
  rcases hStep.bit_of_test (by decide) hTest with hSome | ⟨hSame, hOld⟩
  · exact hSome
  · rw [hSame]
    exact hFresh hOld

/- So does the bit of queue 15. -/
theorem lastBit
    (hLast : cfg.bitOrder.test k.runqueueBitcache 15 = true → k.queueRef 15 ≠ .null) :
    cfg.bitOrder.test k'.runqueueBitcache 15 = true → k'.queueRef 15 ≠ .null := by
  intro hTest
  rcases hStep.bit_of_test (by decide) hTest with hSome | ⟨hSame, hOld⟩
  · exact hSome
  · rw [hSame]
    exact hLast hOld

/- Queue 15 loses its last node only where it is popped. -/
theorem last_ne_null
    (hPops : ¬ pops 15) (hSome : k.queueRef 15 ≠ .null) :
    k'.queueRef 15 ≠ .null := by
  cases hStep with
  | same hRefs hCache =>
    rw [hRefs]
    exact hSome
  | push p hPrio hRef hRefs hCache =>
    by_cases hEq : 15 = p
    · rw [hEq]
      exact hRef
    · rw [hRefs 15 hEq]
      exact hSome
  | pop p hPop hPrio hRef hRefs hCache =>
    have hNe : 15 ≠ p := by
      rintro rfl
      exact hPops hPop
    rw [hRefs 15 hNe]
    exact hSome

/- Without a pop of queue 15 the cache keeps covering. -/
theorem covers
    (hPops : ¬ pops 15) (hCovers : CacheCovers cfg k) :
    CacheCovers cfg k' := by
  refine ⟨hStep.lastBit hCovers.last, ?_⟩
  intro hNull
  by_cases hBefore : k.queueRef 15 = .null
  · exact hStep.freshBit (hCovers.stale hBefore)
  · exact (hStep.last_ne_null hPops hBefore hNull).elim

end

end QueueStep

----
-- Runs
----

/- A thread of priority 15 leaves the CPU. -/
def Kernel.lastPrioActive
    (k : Kernel N) : Bool :=
  k.schedActiveThread.any (fun t =>
    (k.thread t).priority == 15)

/-
  The condition on the steps of a build without the idle
  thread: `sched_run` drops the only node of queue 1 only
  while queue 15 has a node, a thread of priority 15 does
  not block while the bit of queue 1 is stale, and
  `thread_yield` does not follow a null link.
-/
def SelectionStep
    (cfg : Config N) (k : Kernel N) (op : SchedOp N) : Prop :=
  cfg.coreIdleThread = true ∨ (op.schedules = true → k.evictsLast = true →
        k.queueRef 15 ≠ .null) ∧
      (op.blocks k = true → k.lastPrioActive = true → FreshBit cfg k) ∧
      (op = .threadYield → k.yieldBreaks = false)

instance
    (cfg : Config N) (k : Kernel N) (op : SchedOp N) :
    Decidable (SelectionStep cfg k op) := by
  unfold SelectionStep FreshBit
  infer_instance

/- Admitted operations keep the cache covering. -/
theorem OpEffect.covers
    {cfg : Config N} {k k' : Kernel N} {op : SchedOp N}
    (hEffect : OpEffect cfg k op k') (hOff : cfg.coreIdleThread = false)
    (hOk : SelectionStep cfg k op) (hCovers : CacheCovers cfg k) :
    CacheCovers cfg k' := by
  rcases hOk with hOn | ⟨hEvict, hBlock, hYield⟩
  · rw [hOff] at hOn
    cases hOn
  cases hEffect with
  | status hSteps =>
    by_cases hPops : op.Pops k 15
    · -- A thread of priority 15 blocks: the bit is fresh.
      rcases hPops with ⟨hBlocks, t, hActive, hPrio⟩
      have hFresh : FreshBit cfg k := by
        apply hBlock hBlocks
        simp [Kernel.lastPrioActive, hActive, hPrio]
      have hBoth := hSteps.invariant
          (I := fun s =>
            FreshBit cfg s ∧
              (cfg.bitOrder.test s.runqueueBitcache 15 = true → s.queueRef 15 ≠ .null))
          (fun _ _ hStep h =>
            ⟨hStep.freshBit h.1, hStep.lastBit h.2⟩)
          ⟨hFresh, hCovers.last⟩
      exact ⟨hBoth.2, fun _ => hBoth.1⟩
    · exact hSteps.invariant (fun _ _ hStep => hStep.covers hPops) hCovers
  | run hCache hRefs hNull hLost =>
    have hSame := hRefs 15 (by decide)
    constructor
    · rw [hCache, hSame]
      exact hCovers.last
    · intro hLast hTest hAfter
      rw [hSame] at hLast
      rw [hCache] at hTest
      have hBefore := hCovers.stale hLast hTest
      rcases hLost hAfter hBefore with ⟨hRun, hEvicts⟩
      exact hEvict hRun hEvicts hLast
  | yield hOp hCache hNull hLost =>
    have hKeep : ∀ p, k.queueRef p ≠ .null → k'.queueRef p ≠ .null := by
      intro p hBefore hAfter
      have hBreaks := hLost p hAfter hBefore
      rw [hYield hOp] at hBreaks
      cases hBreaks
    constructor
    · intro hTest
      rw [hCache] at hTest
      exact hKeep 15 (hCovers.last hTest)
    · intro hLast hTest
      rw [hCache] at hTest
      apply hKeep 1
      apply hCovers.stale _ hTest
      by_contra hSome
      exact hKeep 15 hSome hLast

/- The cache covers the queues when `kernel_init` is done. -/
theorem kernelInit_covers
    {cfg : Config N} {k : Kernel N} (hInit : kernelInit cfg = some k) :
    CacheCovers cfg k := by
  rcases kernelInit_some hInit with ⟨_, k₁, hBefore, hSteps⟩
  apply hSteps.invariant (fun _ _ hStep => hStep.covers (fun h => h))
  exact ⟨(hBefore.cache 15 (by decide)).mp, fun _ => (hBefore.cache 1 (by decide)).mp⟩

/-
  With the idle thread in every run, and without it in every
  run under the condition, `sched_run` selects from a queue
  that is not empty, and from queue 1 if that has nodes.
-/
theorem selectsSafely_of_reachable
    {cfg : Config N} {k : Kernel N} {op : SchedOp N}
    (hReach : (schedSystem cfg).ReachableVia (SelectionStep cfg) k)
    (hEnabled : op.Enabled cfg k) (hSelects : op.selects cfg k = true) :
    SelectsSafely cfg k := by
  rcases managed_of_reachable hReach with ⟨hM, hSound⟩
  apply hSound.selectsSafely
  intro hEmpty
  by_cases hOn : cfg.coreIdleThread = true
  · have hHead : k.queueRef 15 = .ref cfg.idleStack := (hM.idle hOn).head
    simp [hHead]
  · have hOff := Bool.eq_false_of_not_eq_true hOn
    have hInv : Managed cfg k ∧ CacheSound cfg k ∧ CacheCovers cfg k := by
      apply hReach.invariant
      · intro s hInit
        rcases kernelInit_managed hInit with ⟨hM, hSound⟩
        exact ⟨hM, hSound, kernelInit_covers hInit⟩
      · rintro s e s' ⟨hM, hSound, hCovers⟩ hOk hEn hExec
        rcases hM.step hSound hEn hExec with ⟨hM', hEffect⟩
        exact ⟨hM', hEffect.cacheSound hSound, hEffect.covers hOff hOk hCovers⟩
    have hCache : k.runqueueBitcache ≠ 0#32 := by
      cases op with
      | timerTick => simpa [SchedOp.selects, mustIdle, hOff] using hSelects
      | pendsv => simpa [SchedOp.selects, mustIdle, hOff] using hSelects
      | idleReturn => exact hEnabled.2
      | _ => cases hSelects
    exact hInv.2.2.last_of_empty hSound hCache hEmpty

/-
  A run without the idle thread under the condition: main
  sleeps while two threads share queue 1.
-/
theorem selectsSafely_of_tickRun :
    ∃ k,
      schedRuns noIdleConfig (SelectionStep noIdleConfig)
          [.pendsv, .threadCreate false 2 8 4 1000, .threadCreate false 3 8 4 500, .threadSleep,
            .pendsv, .timerTick] = some k ∧ k.queueRef 15 = .null ∧
        SelectsSafely noIdleConfig k := by
  rcases
    exists_reachable_of_schedRuns noIdleConfig
      (SelectionStep noIdleConfig)
      (fun k =>
        k.queueRef 15 = .null ∧ SchedOp.Enabled noIdleConfig k .timerTick ∧
          SchedOp.selects noIdleConfig k .timerTick = true)
      [.pendsv, .threadCreate false 2 8 4 1000,
        .threadCreate false 3 8 4 500, .threadSleep, .pendsv, .timerTick]
      (by decide +kernel) with
    ⟨k, hRun, hReach, hEmpty, hEnabled, hSelects⟩
  exact ⟨k, hRun, hEmpty, selectsSafely_of_reachable hReach hEnabled hSelects⟩

/-
  Without the idle thread and the condition, the timer finds
  both queues empty and a bit set: main sleeps, thread 3
  expires, and the bit of queue 1 stays.
-/
theorem not_selectsSafely :
    ∃ k, (schedSystem noIdleConfig).Reachable k ∧ SchedOp.Enabled noIdleConfig k .timerTick ∧
        SchedOp.selects noIdleConfig k .timerTick = true ∧ ¬ SelectsSafely noIdleConfig k := by
  rcases
    exists_reachable_of_schedRuns noIdleConfig
      (fun _ _ => True)
      (fun k =>
        SchedOp.Enabled noIdleConfig k .timerTick ∧
          SchedOp.selects noIdleConfig k .timerTick = true ∧ ¬ SelectsSafely noIdleConfig k)
      [.pendsv, .threadCreate false 2 8 4 1000,
        .threadCreate false 3 8 4 500, .threadSleep, .pendsv, .threadSleep, .pendsv, .timerTick]
      (by decide +kernel) with
    ⟨k, _, hReach, hBad⟩
  exact ⟨k, hReach, hBad⟩

end Riot
