import Riot.Scheduler.Budget
import Riot.Scheduler.Exemption

/-
  Threads that take turns.

  The debug loop of `sched_run` advances queue 1 once for
  every thread on any queue. With the idle thread as the only
  thread on another queue that is one step more than the
  length of queue 1, so each call turns the queue by one.
-/

----
-- Turning Queues
----

namespace Riot

open LinkMem

variable {N : Nat} {cfg : Config N} {k : Kernel N} {l : List (Fin N)} {idle : Fin N}

/-
  Queue 1 holds the threads `l`, queue 15 the idle thread,
  and the cache has the bits of these two queues.
-/
structure Turning
    (cfg : Config N) (k : Kernel N) (idle : Fin N)
    (l : List (Fin N)) : Prop where
  queue : IsCircular k.next (.runqueue 1) l
  last : IsCircular k.next (.runqueue 15) [idle]
  others : ∀ p < schedPrioLevels, p ≠ 1 → p ≠ 15 → IsCircular k.next (.runqueue p) []
  idlePid : (k.thread idle).pid = 1
  pids : ∀ t ∈ l, 2 < (k.thread t).pid
  cache : k.runqueueBitcache = cfg.bitOrder.bit 1 ||| cfg.bitOrder.bit 15

/- Consecutive calls of `sched_run`. -/
def schedRunTimes
    (cfg : Config N) :
    Nat → Kernel N → Option (Kernel N)
  | 0, k => some k
  | n + 1, k => (schedRunTimes cfg n k).bind (schedRun cfg)

/- The thread that the last `sched_run` returned. -/
def Kernel.returned
    (k : Kernel N) : Option (Fin N) :=
  k.schedTrace.head?.map Prod.fst

namespace Turning

/- The queues are held. -/
theorem queues
    (hT : Turning cfg k idle l) :
    Runqueues k.next (idleQueues idle l) := by
  refine idleQueues_held hT.queue hT.last hT.others ?_
  intro hIn
  have hPid := hT.pids idle hIn
  rw [hT.idlePid] at hPid
  omega

/- The two bits make `sched_run` read queue 1. -/
theorem serves
    (hT : Turning cfg k idle l) :
    CacheServes cfg k (idleQueues idle l) ∧ mustIdle cfg k = false := by
  have hTest :
      ∀ p < 32, cfg.bitOrder.test k.runqueueBitcache p = (decide (p = 1) || decide (p = 15)) := by
    intro p hp
    have hZero : cfg.bitOrder.bit 1 = 0#32 ||| cfg.bitOrder.bit 1 := by
      simp
    rw [hT.cache, cfg.bitOrder.test_or_bit _ (by decide) hp, hZero,
      cfg.bitOrder.test_or_bit _ (by decide) hp, cfg.bitOrder.test_zero, Bool.false_or]
  refine ⟨⟨hTest 0 (by decide), fun _ => hTest 1 (by decide)⟩, ?_⟩
  have hNe : k.runqueueBitcache ≠ 0#32 := by
    intro hZero
    have hBit := hTest 1 (by decide)
    rw [hZero, cfg.bitOrder.test_zero] at hBit
    cases hBit
  simp [mustIdle, hNe]

/- The charge takes at most 500 from a service time. -/
theorem le_timeAfterCharge
    (activeThread : Option (Fin N)) (t : Fin N) :
    (k.thread t).sTime - 500 ≤ timeAfterCharge k activeThread t := by
  unfold timeAfterCharge chargedTime
  split
  · split <;> omega
  · omega

/- The debug loop turns queue 1 by one step. -/
theorem rotatedQueues_eq :
    rotatedQueues (idleQueues idle l) = idleQueues idle (l.rotate 1) := by
  have hTotal : queueTotal (idleQueues idle l) = l.length + 1 := by
    rw [RoundRobin.queueTotal_eq]
    · rfl
    · intro p _ hOne hLast
      simp [idleQueues, hOne, hLast]
  unfold rotatedQueues
  rw [hTotal]
  have hTurn : (idleQueues idle l 1).rotate (l.length + 1) = l.rotate 1 := by
    have hFirst : idleQueues idle l 1 = l := rfl
    rw [hFirst, ← List.rotate_rotate, List.rotate_length]
  rw [hTurn]
  funext p
  by_cases hOne : p = 1
  · subst hOne
    rw [Function.update_self]
    rfl
  · rw [Function.update_of_ne hOne]
    simp [idleQueues, hOne]

/-
  One call returns the first thread of queue 1 and turns the
  queue; no time runs out.
-/
theorem schedRun
    (hT : Turning cfg k idle l) (hNe : l ≠ [])
    (hTimes : ∀ t ∈ l, 500 < (k.thread t).sTime) :
    ∃ k', Riot.schedRun cfg k = some k' ∧ Turning cfg k' idle (l.rotate 1) ∧
        k'.returned = l.head? ∧ ∀ t, (k.thread t).sTime - 500 ≤ (k'.thread t).sTime := by
  rcases List.exists_cons_of_ne_nil hNe with ⟨t, rest, rfl⟩
  rcases hT.serves with ⟨hCache, hIdle⟩
  have hServed :
      idleQueues idle (t :: rest) (servedQueue (idleQueues idle (t :: rest))) = t :: rest := by
    simp [servedQueue, idleQueues]
  have hArgs : k.schedActiveThread = none ∨ k.schedActiveThread = k.schedActiveThread := .inr rfl
  rcases schedRunFrom_eq hArgs hT.queues hCache hServed with ⟨mem, hRun, hQ, _⟩
  have hFired : serviceTimeFired
          (switchedKernel k k.schedActiveThread k.schedActiveThread t)
          k.schedActiveThread t = false := by
    rw [serviceTimeFired_switchedKernel hArgs]
    apply Bool.eq_false_of_not_eq_true
    intro hAny
    rcases (Option.any_eq_true _ _).mp hAny with ⟨active, _, hBoth⟩
    rw [Bool.and_eq_true, beq_iff_eq] at hBoth
    have hLe := le_timeAfterCharge (k := k) k.schedActiveThread t
    have hTime := hTimes t (by simp)
    omega
  have hQueues : Runqueues mem (idleQueues idle ((t :: rest).rotate 1)) := by
    unfold queuesAfterRun at hQ
    rw [hFired] at hQ
    rw [← rotatedQueues_eq]
    exact hQ
  refine
    ⟨finishRun (switchedKernel k k.schedActiveThread k.schedActiveThread t) mem t, ?_, ?_, ?_, ?_⟩
  · unfold Riot.schedRun
    rw [if_neg (by simp [hIdle])]
    exact hRun
  · rw [switchedKernel_eq hArgs]
    exact
      { queue := hQueues.circular 1 (by decide)
        last := hQueues.circular 15 (by decide)
        others := by
          intro p hp hOne hLast
          have hNil : idleQueues idle ((t :: rest).rotate 1) p = [] := by
            simp [idleQueues, hOne, hLast]
          exact hNil ▸ hQueues.circular p hp
        idlePid := hT.idlePid
        pids := fun u hu =>
          hT.pids u (List.mem_rotate.mp hu)
        cache := hT.cache }
  · rfl
  · intro u
    rw [switchedKernel_eq hArgs]
    exact le_timeAfterCharge k.schedActiveThread u

end Turning

/-
  Calls in a row return the threads of queue 1 in turn, and
  leave it turned by their number.
-/
theorem schedRunTimes_turns
    (n : Nat) (hT : Turning cfg k idle l) (hNe : l ≠ [])
    (hTimes : ∀ t ∈ l, 500 * (n : Int) < (k.thread t).sTime) :
    ∃ k', schedRunTimes cfg n k = some k' ∧ IsCircular k'.next (.runqueue 1) (l.rotate n) ∧
        (1 ≤ n → k'.returned = l[(n - 1) % l.length]?) := by
  -- the times that are left pay for the calls to come
  have hAll :
      ∀ m ≤ n, ∃ k', schedRunTimes cfg m k = some k' ∧ Turning cfg k' idle (l.rotate m) ∧
            (1 ≤ m → k'.returned = l[(m - 1) % l.length]?) ∧
            ∀ t, (k.thread t).sTime - 500 * (m : Int) ≤ (k'.thread t).sTime := by
    intro m
    induction m with
    | zero =>
      intro _
      refine ⟨k, rfl, by simpa using hT, by simp, ?_⟩
      intro t
      omega
    | succ m ih =>
      intro hm
      rcases ih (Nat.le_of_succ_le hm) with ⟨k₁, hRun₁, hT₁, _, hLeft₁⟩
      have hTimes₁ : ∀ t ∈ l.rotate m, 500 < (k₁.thread t).sTime := by
        intro t ht
        have hTime := hTimes t (List.mem_rotate.mp ht)
        have hLeft := hLeft₁ t
        omega
      rcases hT₁.schedRun (by simpa using hNe) hTimes₁ with ⟨k₂, hRun₂, hT₂, hFirst, hLeft₂⟩
      refine ⟨k₂, ?_, ?_, ?_, ?_⟩
      · rw [schedRunTimes, hRun₁]
        exact hRun₂
      · rwa [List.rotate_rotate] at hT₂
      · intro _
        have hPos := List.length_pos_iff.mpr hNe
        rw [hFirst, ← List.rotate_mod, List.head?_rotate (Nat.mod_lt m hPos), Nat.add_sub_cancel]
      · intro t
        have hBefore := hLeft₁ t
        have hAfter := hLeft₂ t
        push_cast
        omega
  rcases hAll n (Nat.le_refl n) with ⟨k', hRun, hT', hReturned, _⟩
  exact ⟨k', hRun, hT'.queue, hReturned⟩

/- A build for three threads. -/
def turnsConfig : Config 3 where
  coreIdleThread := true
  bitOrder := .clz
  idleStack := 0
  mainStack := 1
  stacks_ne := by decide

/- Threads 1 and 2 on queue 1, the idle thread 0. -/
def turnsKernel : Kernel 3 :=
  { Kernel.zero 3 with
    next := fun c =>
      match c with
      | .head (.runqueue 1) => .ref 2
      | .head (.runqueue 15) => .ref 0
      | .entry 0 => .ref 0
      | .entry 1 => .ref 2
      | .entry 2 => .ref 1
      | _ => .null
    thread := fun t =>
      { Thread.zero 3 with
        pid := if t = 0 then 1 else 3 + (t : Int)
        sTime := 2000 }
    runqueueBitcache := turnsConfig.bitOrder.bit 1 ||| turnsConfig.bitOrder.bit 15 }

/- The third call returns the first of the two again. -/
theorem schedRunTimes_turns_two :
    ∃ k', schedRunTimes turnsConfig 3 turnsKernel = some k' ∧
        IsCircular k'.next (.runqueue 1) [2, 1] ∧ k'.returned = some 1 := by
  have hT : Turning turnsConfig turnsKernel 0 [1, 2] :=
    { queue :=
        (@IsCircular.snoc_iff _ _ _ _ 2 [1]).mpr ⟨by decide, rfl, rfl, rfl⟩
      last := IsCircular.singleton_iff.mpr ⟨rfl, rfl⟩
      others := by
        intro p _ hOne hLast
        apply IsCircular.nil_iff.mpr
        unfold turnsKernel
        dsimp only
        split <;> simp_all
      idlePid := rfl
      pids := by decide
      cache := rfl }
  rcases schedRunTimes_turns 3 hT (by decide) (by decide) with ⟨k', hRun, hQueue, hReturned⟩
  exact ⟨k', hRun, hQueue, hReturned (by decide)⟩

end Riot
