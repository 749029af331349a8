import Riot.Scheduler.ManagedRuns

/-
  The threads that `sched_run` exempts from service times.

  The exemption is tested on the outgoing thread, but the
  head of queue 1 is dropped, which is the incoming thread.
  The idle thread is on queue 15 and safe; the main thread
  is on queue 1 and starts with no service time.
-/

----
-- Other Queues
----

namespace Riot

open LinkMem

variable {N : Nat} {cfg : Config N} {k k' : Kernel N}

/- Queues other than 1 and 15 have no node. -/
def QuietQueues
    (k : Kernel N) : Prop :=
  ∀ p, p ≠ 1 → p ≠ 15 → k.queueRef p = .null

/- A status change links no thread to another queue. -/
theorem QueueStep.quietQueues
    {pops : Nat → Prop} (hStep : QueueStep cfg pops k k') (hQuiet : QuietQueues k) :
    QuietQueues k' := by
  have hApart :
      ∀ p p', p = 1 ∨ (cfg.coreIdleThread = false ∧ p = 15) → p' ≠ 1 → p' ≠ 15 → p' ≠ p := by
    rintro p p' (rfl | ⟨_, rfl⟩) hOne hLast
    · exact hOne
    · exact hLast
  intro p' hOne hLast
  cases hStep with
  | same hRefs _ =>
    rw [hRefs]
    exact hQuiet p' hOne hLast
  | push p hPrio _ hRefs _ =>
    rw [hRefs p' (hApart p p' hPrio hOne hLast)]
    exact hQuiet p' hOne hLast
  | pop p _ hPrio _ hRefs _ =>
    rw [hRefs p' (hApart p p' hPrio hOne hLast)]
    exact hQuiet p' hOne hLast

theorem OpEffect.quietQueues
    {op : SchedOp N} (hEffect : OpEffect cfg k op k') (hQuiet : QuietQueues k) :
    QuietQueues k' := by
  cases hEffect with
  | status hSteps => exact hSteps.invariant (fun _ _ hStep => hStep.quietQueues) hQuiet
  | run _ hRefs _ _ =>
    intro p hOne hLast
    rw [hRefs p hOne]
    exact hQuiet p hOne hLast
  | yield _ _ hNull _ =>
    intro p hOne hLast
    exact hNull p (hQuiet p hOne hLast)

/- Every run keeps the other queues empty. -/
theorem quietQueues_of_reachable
    {ok : Kernel N → SchedOp N → Prop}
    (hReach : (schedSystem cfg).ReachableVia ok k) :
    QuietQueues k := by
  have hAll : (Managed cfg k ∧ CacheSound cfg k) ∧ QuietQueues k := by
    apply hReach.invariant
      (I := fun k =>
        (Managed cfg k ∧ CacheSound cfg k) ∧ QuietQueues k)
    · intro s hInit
      refine ⟨kernelInit_managed hInit, ?_⟩
      rcases kernelInit_some hInit with ⟨_, k₁, hBefore, hSteps⟩
      apply hSteps.invariant (fun _ _ hStep => hStep.quietQueues)
      intro p _ hLast
      exact hBefore.empty p hLast
    · rintro s op s' ⟨⟨hM, hSound⟩, hQuiet⟩ _ hEnabled hExec
      rcases hM.step hSound hEnabled hExec with ⟨hM', hEffect⟩
      exact ⟨⟨hM', hEffect.cacheSound hSound⟩, hEffect.quietQueues hQuiet⟩
  exact hAll.2

/- Queue 1 holds `l`, queue 15 holds the idle thread. -/
def idleQueues
    (idle : Fin N) (l : List (Fin N)) : Nat → List (Fin N) :=
  fun p =>
    if p = 1 then l else if p = 15 then [idle] else []

theorem mem_idleQueues_iff
    {idle t : Fin N} {l : List (Fin N)} {p : Nat} :
    t ∈ idleQueues idle l p ↔ (p = 1 ∧ t ∈ l) ∨ (p = 15 ∧ t = idle) := by
  unfold idleQueues
  by_cases hOne : p = 1
  · simp [hOne]
  · by_cases hLast : p = 15
    · simp [hLast]
    · simp [hOne, hLast]

/- Such queues are held when they share no thread. -/
theorem idleQueues_held
    {mem : LinkMem (ListHead N) (Fin N)} {idle : Fin N} {l : List (Fin N)}
    (hFirst : IsCircular mem (.runqueue 1) l)
    (hLast : IsCircular mem (.runqueue 15) [idle])
    (hOthers : ∀ p < schedPrioLevels, p ≠ 1 → p ≠ 15 → IsCircular mem (.runqueue p) [])
    (hIdle : idle ∉ l) :
    Runqueues mem (idleQueues idle l) := by
  constructor
  · intro p hp
    unfold idleQueues
    by_cases hOne : p = 1
    · rw [if_pos hOne, hOne]
      exact hFirst
    · rw [if_neg hOne]
      by_cases hEnd : p = 15
      · rw [if_pos hEnd, hEnd]
        exact hLast
      · rw [if_neg hEnd]
        exact hOthers p hp hOne hEnd
  · intro p _ p' _ t ht ht'
    rcases mem_idleQueues_iff.mp ht with ⟨hp, hIn⟩ | ⟨hp, hEq⟩
    · rcases mem_idleQueues_iff.mp ht' with ⟨hp', _⟩ | ⟨_, hEq'⟩
      · rw [hp, hp']
      · exact absurd (hEq' ▸ hIn) hIdle
    · rcases mem_idleQueues_iff.mp ht' with ⟨_, hIn'⟩ | ⟨hp', _⟩
      · exact absurd (hEq ▸ hIn') hIdle
      · rw [hp, hp']

/- With queue 1 circular, all queues are held. -/
theorem Managed.idleQueues
    {l : List (Fin N)} (hM : Managed cfg k) (hQuiet : QuietQueues k)
    (hOn : cfg.coreIdleThread = true) (hCirc : IsCircular k.next (.runqueue 1) l) :
    Runqueues k.next (idleQueues cfg.idleStack l) := by
  have hReady := hM.idle hOn
  have hLast : IsCircular k.next (.runqueue 15) [cfg.idleStack] :=
    IsCircular.singleton_iff.mpr ⟨hReady.head, hReady.entry⟩
  -- pointers of queue 1 lead to managed threads only
  have hIdle : cfg.idleStack ∉ l := by
    intro hIn
    have hSame := hCirc.subset_of_mem hLast hIn (List.mem_singleton_self _)
    have hCell : (managedRegion cfg k).cells (.head (.runqueue 1)) := fun _ => ⟨by simp, by simp⟩
    rcases hCirc.2 with ⟨rfl, _⟩ | ⟨front, last, rfl, hRef, _⟩
    · cases hIn
    · have hManaged := hM.confined _ hCell last hRef
      have hEq := hSame last (by simp)
      exact (hManaged.2 hOn).1 (List.mem_singleton.mp hEq)
  refine idleQueues_held hCirc hLast ?_ hIdle
  intro p _ hOne hEnd
  exact IsCircular.nil_iff.mpr (hQuiet p hOne hEnd)

----
-- Exempt Threads
----

variable {N : Nat} {cfg : Config N} {k k' : Kernel N}

/- Threads with pid 1 or 2 stay on the queue they are on. -/
def KeepsExempt
    (k k' : Kernel N) : Prop :=
  ∀ t p, exemptPid (k.thread t).pid = true → t ∈ k.runqueue p → t ∈ k'.runqueue p

/-
  The next `sched_run` takes an exempt thread off queue 1: it
  charges a thread that is not exempt, and the first thread
  of queue 1 is exempt and has no service time.
-/
def Kernel.evictsExempt
    (k : Kernel N) : Bool :=
  k.schedActiveThread.any (fun active =>
    !exemptPid (k.thread active).pid &&
      (k.runqueue 1).head?.any (fun next =>
        exemptPid (k.thread next).pid && (k.thread next).sTime == 0))

/- The incoming exempt thread is not charged itself. -/
theorem timeAfterCharge_exempt
    {active : Option (Fin N)} {t : Fin N}
    (hExempt : exemptPid (k.thread t).pid = true) :
    timeAfterCharge k active t = (k.thread t).sTime := by
  unfold timeAfterCharge
  apply if_neg
  rintro ⟨_, hNot⟩
  rw [hExempt] at hNot
  cases hNot

/- The nodes of queue 1 are held when `sched_run` returns. -/
theorem circular_of_schedRunFrom
    {activeThread previousThread : Option (Fin N)}
    (hRun : schedRunFrom cfg k activeThread previousThread = some k') :
    ∃ l, IsCircular k.next (.runqueue 1) l := by
  rcases schedRunFrom_some hRun with ⟨nextrq, _, _, _, hQueue, _⟩
  rcases Option.bind_eq_some_iff.mp hQueue with ⟨n, hn, _⟩
  rcases clistCount_some hn with ⟨l, hCirc, _⟩
  exact ⟨l, hCirc⟩

section

variable (hOn : cfg.coreIdleThread = true) (hReach : (schedSystem cfg).Reachable k)
variable (hRun : schedRun cfg k = some k')

include hOn hReach hRun

/-
  What a `sched_run` of a build with the idle thread does to
  the queues: it selects `t`, and takes the first thread off
  queue 1 when the time of `t` has expired.
-/
theorem schedRun_idleQueues :
    ∃ l t, l.Nodup ∧ (∀ p, k.runqueue p = idleQueues cfg.idleStack l p) ∧
        (idleQueues cfg.idleStack l (servedQueue (idleQueues cfg.idleStack l))).head? = some t ∧
        ∀ u, ∀ p < schedPrioLevels, u ∈ k'.runqueue p ↔ u ∈ expiredQueues
              (k.schedActiveThread.any (fun active =>
                !exemptPid (k.thread active).pid && timeAfterCharge k k.schedActiveThread t == 0))
              (idleQueues cfg.idleStack l) p := by
  rcases managed_of_reachable hReach with ⟨hM, hSound⟩
  have hQuiet := quietQueues_of_reachable hReach
  have hFrom : schedRunFrom cfg k k.schedActiveThread k.schedActiveThread = some k' := by
    unfold schedRun at hRun
    rwa [if_neg (by simp [mustIdle, hOn])] at hRun
  rcases circular_of_schedRunFrom hFrom with ⟨l, hCirc⟩
  have hQ := hM.idleQueues hQuiet hOn hCirc
  have hCache : CacheServes cfg k (idleQueues cfg.idleStack l) := by
    constructor
    · apply Bool.eq_false_of_not_eq_true
      intro hTest
      rcases hSound.bits 0 (by decide) hTest with h | h <;> cases h
    · intro hNe
      apply hSound.served
      intro hNull
      exact hNe (hCirc.eq_nil_iff.mpr hNull)
  have hNodes : ∀ p, k.runqueue p = idleQueues cfg.idleStack l p := by
    intro p
    by_cases hp : p < schedPrioLevels
    · exact hQ.circularNodes_eq hp
    · have hRange : 16 ≤ p := Nat.le_of_not_lt hp
      have hOne : p ≠ 1 := by omega
      have hEnd : p ≠ 15 := by omega
      have hNull : k.next (.head (.runqueue p)) = .null := hQuiet p hOne hEnd
      simp [Kernel.runqueue, circularNodes, hNull, idleQueues, hOne, hEnd]
  -- the queue that is served has a node
  have hServed : ∃ t rest,
        idleQueues cfg.idleStack l (servedQueue (idleQueues cfg.idleStack l)) = t :: rest := by
    unfold servedQueue
    by_cases hNil : idleQueues cfg.idleStack l 1 = []
    · rw [if_pos hNil]
      exact ⟨cfg.idleStack, [], rfl⟩
    · rw [if_neg hNil]
      exact List.exists_cons_of_ne_nil hNil
  rcases hServed with ⟨t, rest, hServed⟩
  rcases schedRunFrom_eq (.inr rfl) hQ hCache hServed with ⟨mem, hEq, hQ', _⟩
  rw [hFrom] at hEq
  have hk' := Option.some.inj hEq
  refine ⟨l, t, hCirc.1, hNodes, by rw [hServed]; rfl, ?_⟩
  intro u p hp
  have hHeld : k'.runqueue p = queuesAfterRun k k.schedActiveThread
          k.schedActiveThread t (idleQueues cfg.idleStack l) p := by
    rw [hk']
    exact hQ'.circularNodes_eq hp
  rw [hHeld, ← serviceTimeFired_switchedKernel (.inr rfl)]
  exact mem_rotatedQueues_iff

/-
  In every reachable state a `sched_run` keeps the idle
  thread and the main thread on their run queues exactly
  when it does not evict the exempt head of queue 1.
-/
theorem keepsExempt_iff :
    KeepsExempt k k' ↔ k.evictsExempt = false := by
  rcases schedRun_idleQueues hOn hReach hRun with ⟨l, t, hNodup, hNodes, hHead, hAfter⟩
  have hFirst : k.runqueue 1 = l := hNodes 1
  constructor
  · intro hKeeps
    by_contra hEvicts
    -- the head of queue 1 is selected, and it has expired
    have hTrue := Bool.eq_true_of_not_eq_false hEvicts
    unfold Kernel.evictsExempt at hTrue
    rcases (Option.any_eq_true _ _).mp hTrue with ⟨active, hActive, hBoth⟩
    rw [Bool.and_eq_true, Option.any_eq_true, hFirst] at hBoth
    rcases hBoth with ⟨hCharged, next, hNext, hExpired⟩
    rw [Bool.and_eq_true] at hExpired
    rcases List.head?_eq_some_iff.mp hNext with ⟨rest, rfl⟩
    have hSame : t = next := by
      have hServed : servedQueue (idleQueues cfg.idleStack (next :: rest)) = 1 := by
        simp [servedQueue, idleQueues]
      rw [hServed] at hHead
      exact (Option.some.inj hHead).symm
    subst hSame
    have hIn := hKeeps t 1 hExpired.1 (by simp [hFirst])
    rw [hAfter t 1 (by decide), hActive] at hIn
    have hTime :
        timeAfterCharge k (some active) t = (k.thread t).sTime :=
      timeAfterCharge_exempt hExpired.1
    simp only [Option.any_some, hCharged, hTime, hExpired.2, Bool.and_self, expiredQueues, if_true,
      Function.update_self, idleQueues, List.tail_cons] at hIn
    exact (List.nodup_cons.mp hNodup).1 hIn
  · intro hKept u p hExempt hIn
    rw [hNodes] at hIn
    have hp : p < schedPrioLevels := by
      rcases mem_idleQueues_iff.mp hIn with ⟨rfl, _⟩ | ⟨rfl, _⟩ <;> decide
    rw [hAfter u p hp]
    unfold expiredQueues
    split
    · rename_i hFired
      rw [mem_update_iff]
      by_cases hOne : p = 1
      · left
        subst hOne
        cases l with
        | nil => cases hIn
        | cons x rest =>
          rcases List.mem_cons.mp hIn with rfl | hRest
          · -- the exempt head would have been evicted
            have hSame : t = u := by
              have hServed : servedQueue (idleQueues cfg.idleStack (u :: rest)) = 1 := by
                simp [servedQueue, idleQueues]
              rw [hServed] at hHead
              exact (Option.some.inj hHead).symm
            subst hSame
            rw [timeAfterCharge_exempt hExempt] at hFired
            rcases (Option.any_eq_true _ _).mp hFired with ⟨active, hActive, hBoth⟩
            rw [Bool.and_eq_true] at hBoth
            unfold Kernel.evictsExempt at hKept
            simp [hActive, hFirst, hBoth.1, hBoth.2, hExempt] at hKept
          · exact ⟨rfl, hRest⟩
      · exact .inr ⟨hOne, hIn⟩
    · exact hIn

end

/- Main has gone to the end of queue 1 behind thread 3. -/
theorem keepsExempt_iff_main :
    ∃ k k', (schedSystem idleConfig).Reachable k ∧ schedRun idleConfig k = some k' ∧
        (KeepsExempt k k' ↔ k.evictsExempt = false) := by
  rcases
    exists_reachable_of_schedRuns idleConfig (fun _ _ => True)
      (fun k => (schedRun idleConfig k).isSome = true)
      [.pendsv, .threadCreate false 2 8 4 1000]
      (by decide +kernel) with
    ⟨k, _, hReach, hSome⟩
  rcases Option.isSome_iff_exists.mp hSome with ⟨k', hRun⟩
  exact ⟨k, k', hReach, hRun, keepsExempt_iff rfl hReach hRun⟩

theorem droppedRuns :
    (schedRuns idleConfig (fun _ _ => True)
        [.pendsv, .threadCreate false 2 8 4 1000, .timerTick, .timerTick]).any
      (fun k =>
        (k.thread 1).pid = 2 ∧ 1 ∈ k.runqueue 1 ∧
        (schedRun idleConfig k).any (fun k' => decide (1 ∉ k'.runqueue 1)) = true) ∧
    (schedRuns idleConfig (fun _ _ => True)
        [.pendsv, .threadCreate false 2 8 4 1000, .timerTick, .timerTick, .timerTick]).any
      (fun k => 1 ∉ k.runqueue 1) := by
  decide +kernel

/-
  Main, created with no service time, is dropped when it
  follows a thread that is charged.
-/
theorem not_keepsExempt :
    ∃ k k', (schedSystem idleConfig).Reachable k ∧ schedRun idleConfig k = some k' ∧
        (k.thread idleConfig.mainStack).pid = 2 ∧ idleConfig.mainStack ∈ k.runqueue 1 ∧
        idleConfig.mainStack ∉ k'.runqueue 1 ∧ ¬ KeepsExempt k k' := by
  rcases exists_reachable_of_schedRuns _ _ _ _ droppedRuns.1 with
    ⟨k, _, hReach, hPid, hIn, hAfter⟩
  rcases (Option.any_eq_true _ _).mp hAfter with ⟨k', hRun, hNot⟩
  have hOut := of_decide_eq_true hNot
  refine ⟨k, k', hReach, hRun, hPid, hIn, hOut, ?_⟩
  intro hKeeps
  have hExempt : exemptPid (k.thread 1).pid = true := by
    rw [hPid]
    rfl
  exact hOut (hKeeps 1 1 hExempt hIn)

/-
  Whatever happened to the lists, the idle thread stays alone
  on queue 15, and all other threads are on queue 1.
-/
theorem idleReady_of_reachable
    (hOn : cfg.coreIdleThread = true) (hReach : (schedSystem cfg).Reachable k) :
    IdleReady cfg k ∧ QuietQueues k :=
  ⟨(managed_of_reachable hReach).1.idle hOn, quietQueues_of_reachable hReach⟩

theorem idleReady_mainDropped :
    ∃ k, schedRuns idleConfig (fun _ _ => True)
          [.pendsv, .threadCreate false 2 8 4 1000, .timerTick, .timerTick, .timerTick] = some k ∧
        1 ∉ k.runqueue 1 ∧ IdleReady idleConfig k ∧ QuietQueues k :=
  (exists_reachable_of_schedRuns _ _ _ _ droppedRuns.2).imp
    fun _ ⟨hRun, hReach, hOut⟩ => ⟨hRun, hOut, idleReady_of_reachable rfl hReach⟩

end Riot
