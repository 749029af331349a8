import Riot.Scheduler.Links
import Riot.Scheduler.System

/-
  Agreement of thread status and run queues.

  `Agrees cfg k q w` says that the kernel holds the run
  queues `q` and the wait lists `w`, and that a recorded
  thread is runnable exactly when its queue has it.  Every
  operation keeps this, as long as a thread that blocks is
  the first of its queue and `sched_run` drops no thread
  whose service time has expired.
-/

----
-- Agreement
----

namespace Riot

variable {N : Nat}

/- What holds of recorded threads apart from the lists. -/
structure Registry
    (k : Kernel N) : Prop where
  prios : ∀ t, k.Recorded t → (k.thread t).priority = 1 ∨ (k.thread t).priority = 15
  pids : ∀ pid t, k.schedThreads pid = some t → k.Recorded t ∧ (k.thread t).pid = pid
  active : ∀ t, k.schedActiveThread = some t → k.Recorded t ∧ k.schedActivePid = (k.thread t).pid
  frames : k.idleFrames = []

/- The registry does not read any status. -/
theorem Registry.setStatus
    {k : Kernel N} {t : Fin N} {status : ThreadStatus} {mem : LinkMem (ListHead N) (Fin N)}
    {bitcache : BitVec 32} (hReg : Registry k) :
    Registry
      { k.setStatus t status with next := mem, runqueueBitcache := bitcache } where
  prios := by
    intro u hu
    rw [Kernel.setStatus_priority]
    exact hReg.prios u hu
  pids := by
    intro pid u hu
    rw [Kernel.setStatus_pid]
    exact hReg.pids pid u hu
  active := by
    intro u hu
    rw [Kernel.setStatus_pid]
    exact hReg.active u hu
  frames := hReg.frames

/- Queues, wait lists and status of all threads agree. -/
structure Agrees
    (cfg : Config N) (k : Kernel N) (q : Nat → List (Fin N))
    (w : WaitHead N → List (Fin N)) : Prop where
  links : Links k.next q w
  cache : CacheServes cfg k q
  queued :
    ∀ p < schedPrioLevels, ∀ t ∈ q p,
      k.Recorded t ∧ (k.thread t).priority = p ∧ (k.thread t).status.onRunqueue = true
  runnable : ∀ t, k.Recorded t → (k.thread t).status.onRunqueue = true → t ∈ q (k.thread t).priority
  waiting :
    ∀ h, ∀ t ∈ w h, (∃ m, h = .mutexQueue m) ∧ k.Recorded t ∧ (k.thread t).status = .mutexBlocked
  registry : Registry k

namespace Agrees

variable {cfg : Config N} {k k' : Kernel N} {q : Nat → List (Fin N)}
variable {w : WaitHead N → List (Fin N)} {t : Fin N} {status : ThreadStatus}

section

variable (hA : Agrees cfg k q w)

include hA

/- Priorities of recorded threads have a queue. -/
theorem prio_lt
    (hRec : k.Recorded t) :
    (k.thread t).priority < schedPrioLevels := by
  rcases hA.registry.prios t hRec with hOne | hLast
  · rw [hOne]
    decide
  · rw [hLast]
    decide

/- Flags and timers have no part in the agreement. -/
theorem setFlags
    {c p r : Bool} :
    Agrees cfg { k with schedContextSwitchRequest := c, pendsv := p, runTimer := r } q w :=
  ⟨hA.links, hA.cache, hA.queued, hA.runnable, hA.waiting,
    ⟨hA.registry.prios, hA.registry.pids, hA.registry.active, hA.registry.frames⟩⟩

/- A thread that is in no list does not run. -/
theorem off_of_unlinked
    (hRec : k.Recorded t) (hOff : Unlinked q w t) :
    (k.thread t).status.onRunqueue = false := by
  apply Bool.eq_false_of_not_eq_true
  intro hOn
  exact hOff.1 ⟨_, hA.prio_lt hRec, hA.runnable t hRec hOn⟩

/- A thread without a pid is in no list. -/
theorem unlinked_of_not_recorded
    (hRec : ¬ k.Recorded t) :
    Unlinked q w t := by
  constructor
  · rintro ⟨p, hp, hIn⟩
    exact hRec (hA.queued p hp t hIn).1
  · intro h hIn
    exact hRec (hA.waiting h t hIn).2.1

/- A wait list of a null reference is empty. -/
theorem waiters_nil_of_null
    {h : WaitHead N} (hNull : k.next (.head (.waiting h)) = .null) :
    w h = [] := by
  cases hw : w h with
  | nil => rfl
  | cons t l =>
    have hHead : (w h).head? = some t := by
      rw [hw]
      rfl
    have hRef := (hA.links.waits h).head_ref_iff.mpr hHead
    rw [hNull] at hRef
    cases hRef

end

end Agrees

----
-- Status Changes
----

namespace Agrees

variable {cfg : Config N} {k k' : Kernel N} {q : Nat → List (Fin N)}
variable {w : WaitHead N → List (Fin N)} {t : Fin N} {status : ThreadStatus}

/- Waking an unlinked thread. -/
theorem wake
    (status : ThreadStatus) (hA : Agrees cfg k q w)
    (hNew : status.onRunqueue = true) (hRec : k.Recorded t)
    (hOff : Unlinked q w t) :
    ∃ k', schedSetStatus cfg k t status = some k' ∧
        Agrees cfg k' (Function.update q (k.thread t).priority (q (k.thread t).priority ++ [t])) w ∧
        k'.schedThreads = k.schedThreads ∧ k'.schedActiveThread = k.schedActiveThread ∧
        (∀ u, (k'.thread u).priority = (k.thread u).priority) := by
  have hPrio := hA.prio_lt hRec
  rcases schedSetStatus_push cfg hA.links.queues hNew
      (hA.off_of_unlinked hRec hOff) hPrio hOff.1 with
    ⟨mem, hSet, hQ, hSame⟩
  refine ⟨_, hSet, ?_, rfl, rfl, fun u => Kernel.setStatus_priority _ _ _ _⟩
  have hNe : ∀ u p, p < schedPrioLevels → u ∈ q p → u ≠ t := by
    rintro u p hp hIn rfl
    exact hOff.1 ⟨p, hp, hIn⟩
  rw [pushedKernel_eq]
  constructor
  · -- Waiting threads were not touched and are not pushed.
    apply hA.links.withQueues hQ hSame
    · rintro h u hu (rfl | hOn)
      · exact hOff.2 h hu
      · exact hA.links.apart h u hu hOn
    · rintro h u hu ⟨p, hp, hIn⟩
      rcases mem_update_iff.mp hIn with ⟨_, hPushed⟩ | ⟨_, hOld⟩
      · rcases List.mem_append.mp hPushed with hOld | hLast
        · exact hA.links.apart h u hu ⟨_, hPrio, hOld⟩
        · rw [List.mem_singleton] at hLast
          exact hOff.2 h (hLast ▸ hu)
      · exact hA.links.apart h u hu ⟨p, hp, hOld⟩
  · apply hA.cache.pushed hPrio
    rcases hA.registry.prios t hRec with hOne | hLast <;> omega
  · intro p hp u hu
    rw [Kernel.setStatus_priority, Kernel.setStatus_status]
    rcases mem_update_iff.mp hu with ⟨hEq, hPushed⟩ | ⟨_, hOld⟩
    · rcases List.mem_append.mp hPushed with hOld | hLast
      · rw [if_neg (hNe u _ hPrio hOld), hEq]
        exact hA.queued _ hPrio u hOld
      · rw [List.mem_singleton] at hLast
        subst hLast
        exact ⟨hRec, hEq.symm, by simpa using hNew⟩
    · rw [if_neg (hNe u p hp hOld)]
      exact hA.queued p hp u hOld
  · intro u hu hOn
    rw [Kernel.setStatus_status] at hOn
    rw [Kernel.setStatus_priority, mem_update_iff]
    by_cases hEq : u = t
    · subst hEq
      simp
    · rw [if_neg hEq] at hOn
      have hIn := hA.runnable u hu hOn
      by_cases hSamePrio : (k.thread u).priority = (k.thread t).priority
      · rw [hSamePrio] at hIn
        simp [hSamePrio, hIn]
      · exact .inr ⟨hSamePrio, hIn⟩
  · intro h u hu
    have hNeT : u ≠ t := by
      rintro rfl
      exact hOff.2 h hu
    rw [Kernel.setStatus_status, if_neg hNeT]
    exact hA.waiting h u hu
  · exact hA.registry.setStatus

/- A blocked status of an unlinked thread may change. -/
theorem store
    (hA : Agrees cfg k q w) (hNew : status.onRunqueue = false)
    (hOff : Unlinked q w t) :
    Agrees cfg (k.setStatus t status) q w where
  links := hA.links
  cache := hA.cache
  queued := by
    intro p hp u hu
    have hNe : u ≠ t := by
      rintro rfl
      exact hOff.1 ⟨p, hp, hu⟩
    rw [Kernel.setStatus_priority, Kernel.setStatus_status, if_neg hNe]
    exact hA.queued p hp u hu
  runnable := by
    intro u hu hOn
    rw [Kernel.setStatus_status] at hOn
    by_cases hEq : u = t
    · rw [if_pos hEq, hNew] at hOn
      cases hOn
    · rw [if_neg hEq] at hOn
      rw [Kernel.setStatus_priority]
      exact hA.runnable u hu hOn
  waiting := by
    intro h u hu
    have hNe : u ≠ t := by
      rintro rfl
      exact hOff.2 h hu
    rw [Kernel.setStatus_status, if_neg hNe]
    exact hA.waiting h u hu
  registry := hA.registry.setStatus

/- New wait lists of blocked threads. -/
theorem setLinks
    {mem : LinkMem (ListHead N) (Fin N)} {w' : WaitHead N → List (Fin N)}
    (hA : Agrees cfg k q w) (hLinks : Links mem q w')
    (hWaiting : ∀ h, ∀ t ∈ w' h,
        (∃ m, h = .mutexQueue m) ∧ k.Recorded t ∧ (k.thread t).status = .mutexBlocked) :
    Agrees cfg { k with next := mem } q w' :=
  ⟨hLinks, hA.cache, hA.queued, hA.runnable, hWaiting,
    ⟨hA.registry.prios, hA.registry.pids, hA.registry.active, hA.registry.frames⟩⟩

/- Blocking the first thread of a queue. -/
theorem block
    {rest : List (Fin N)} (status : ThreadStatus) (hA : Agrees cfg k q w)
    (hNew : status.onRunqueue = false) (hRec : k.Recorded t)
    (hFirst : q (k.thread t).priority = t :: rest) :
    ∃ k', schedSetStatus cfg k t status = some k' ∧
        Agrees cfg k' (Function.update q (k.thread t).priority rest) w ∧
        Unlinked (Function.update q (k.thread t).priority rest) w t ∧
        (k'.thread t).status = status ∧ k'.schedThreads = k.schedThreads ∧
        k'.schedActiveThread = k.schedActiveThread := by
  have hPrio := hA.prio_lt hRec
  have hIn : t ∈ q (k.thread t).priority := by
    simp [hFirst]
  have hOld := (hA.queued _ hPrio t hIn).2.2
  have hCirc := hA.links.queues.circular _ hPrio
  have hNodup := hCirc.1
  rw [hFirst] at hNodup
  rcases List.nodup_cons.mp hNodup with ⟨hNotRest, _⟩
  have hSub : ∀ u ∈ rest, u ∈ q (k.thread t).priority := by
    intro u hu
    simp [hFirst, hu]
  rcases schedSetStatus_pop cfg hA.links.queues hNew hOld hPrio with ⟨mem, hSet, hQ, hSame⟩
  have hTail : (q (k.thread t).priority).tail = rest := by
    simp [hFirst]
  have hCache := hA.cache.popped status hPrio hQ
  rw [hTail] at hQ hCache
  -- The remaining members of all queues are other threads.
  have hKept : ∀ p < schedPrioLevels,
        ∀ u ∈ Function.update q (k.thread t).priority rest p, u ∈ q p ∧ u ≠ t := by
    intro p hp u hu
    rcases mem_update_iff.mp hu with ⟨hEq, hRest⟩ | ⟨hNe, hOther⟩
    · rw [hEq]
      refine ⟨hSub u hRest, ?_⟩
      rintro rfl
      exact hNotRest hRest
    · refine ⟨hOther, ?_⟩
      rintro rfl
      exact hNe (hA.links.queues.disjoint p hp _ hPrio u hOther hIn)
  have hWait : ∀ h, ∀ u ∈ w h, u ≠ t := by
    rintro h u hu rfl
    exact hA.links.apart h u hu ⟨_, hPrio, hIn⟩
  refine ⟨_, hSet, ?_, ⟨?_, ?_⟩, ?_, ?_, ?_⟩
  · rw [poppedKernel_eq] at hCache ⊢
    constructor
    · apply hA.links.withQueues hQ hSame hA.links.apart
      rintro h u hu ⟨p, hp, hOn⟩
      exact hA.links.apart h u hu ⟨p, hp, (hKept p hp u hOn).1⟩
    · exact hCache
    · intro p hp u hu
      rcases hKept p hp u hu with ⟨hBefore, hNe⟩
      rw [Kernel.setStatus_priority, Kernel.setStatus_status, if_neg hNe]
      exact hA.queued p hp u hBefore
    · intro u hu hOn
      rw [Kernel.setStatus_status] at hOn
      rw [Kernel.setStatus_priority, mem_update_iff]
      by_cases hEq : u = t
      · rw [if_pos hEq, hNew] at hOn
        cases hOn
      · rw [if_neg hEq] at hOn
        have hOnQueue := hA.runnable u hu hOn
        by_cases hSamePrio : (k.thread u).priority = (k.thread t).priority
        · rw [hSamePrio, hFirst] at hOnQueue
          rcases List.mem_cons.mp hOnQueue with hSelf | hRest
          · exact (hEq hSelf).elim
          · exact .inl ⟨hSamePrio, hRest⟩
        · exact .inr ⟨hSamePrio, hOnQueue⟩
    · intro h u hu
      rw [Kernel.setStatus_status, if_neg (hWait h u hu)]
      exact hA.waiting h u hu
    · exact hA.registry.setStatus
  · rintro ⟨p, hp, hOn⟩
    exact (hKept p hp t hOn).2 rfl
  · intro h hu
    exact hWait h t hu rfl
  · rw [poppedKernel_eq]
    simp [Kernel.setStatus_status]
  · rw [poppedKernel_eq]
    rfl
  · rw [poppedKernel_eq]
    rfl

end Agrees

----
-- Scheduling
----

namespace Agrees

variable {cfg : Config N} {k k' : Kernel N} {q : Nat → List (Fin N)}
variable {w : WaitHead N → List (Fin N)} {t : Fin N}

/- The walk over a run queue returns its nodes. -/
theorem runqueue_eq
    {p : Nat} (hA : Agrees cfg k q w) (hp : p < schedPrioLevels) :
    k.runqueue p = q p :=
  hA.links.queues.circularNodes_eq hp

/- Without an expired thread the queues only rotate. -/
theorem expiredQueues_eq
    {rest : List (Fin N)} (hA : Agrees cfg k q w)
    (hServed : q (servedQueue q) = t :: rest) (hKeep : k.expiresNext = false) :
    expiredQueues (serviceTimeFired (switchedKernel k k.schedActiveThread k.schedActiveThread t)
          k.schedActiveThread t)
        q = q := by
  unfold expiredQueues
  by_cases hNil : q 1 = []
  · -- Dropping from the empty queue 1 has no effect.
    have hSame : Function.update q 1 (q 1).tail = q := by
      rw [hNil, List.tail_nil, ← hNil, Function.update_eq_self]
    rw [hSame, ite_self]
  · have hFirst : (k.runqueue 1).head? = some t := by
      rw [hA.runqueue_eq (by decide)]
      simp only [servedQueue, hNil, if_false] at hServed
      rw [hServed]
      rfl
    have hNot : serviceTimeFired
          (switchedKernel k k.schedActiveThread k.schedActiveThread t)
          k.schedActiveThread t = false := by
      rw [serviceTimeFired_switchedKernel (.inr rfl)]
      cases hActive : k.schedActiveThread with
      | none => rfl
      | some active => simpa [Kernel.expiresNext, hFirst, hActive] using hKeep
    rw [hNot]
    rfl

/- A scheduler run that drops no thread. -/
theorem schedRun
    (hIdle : cfg.coreIdleThread = true) (hA : Agrees cfg k q w)
    (hKeep : k.expiresNext = false) (hRun : Riot.schedRun cfg k = some k') :
    Agrees cfg k' (rotatedQueues q) w := by
  unfold Riot.schedRun mustIdle at hRun
  simp only [hIdle, Bool.not_true, Bool.false_and, Bool.false_eq_true, if_false] at hRun
  have hQ := hA.links.queues
  cases hServed : q (servedQueue q) with
  | nil =>
    rw [schedRunFrom_none hQ hA.cache hServed] at hRun
    cases hRun
  | cons t rest =>
    rcases schedRunFrom_eq (.inr rfl) hQ hA.cache hServed with ⟨mem, hEq, hQ', hSame⟩
    rw [hEq] at hRun
    cases hRun
    unfold queuesAfterRun at hQ'
    rw [hA.expiredQueues_eq hServed hKeep] at hQ'
    have hLevel : servedQueue q < schedPrioLevels := by
      unfold servedQueue
      split <;> decide
    have hIn : t ∈ q (servedQueue q) := by
      simp [hServed]
    rcases hA.queued _ hLevel t hIn with ⟨hRec, hPrio, _⟩
    have hOn : ∀ u, OnQueues (rotatedQueues q) u ↔ OnQueues q u := by
      intro u
      simp only [OnQueues, mem_rotatedQueues_iff]
    rw [switchedKernel_eq (.inr rfl)]
    constructor
    · apply hA.links.withQueues hQ' hSame hA.links.apart
      intro h u hu
      rw [hOn]
      exact hA.links.apart h u hu
    · refine ⟨hA.cache.1, ?_⟩
      intro hNil
      apply hA.cache.2
      intro hEmpty
      simp [rotatedQueues, hEmpty] at hNil
    · intro p hp u hu
      rcases hA.queued p hp u (mem_rotatedQueues_iff.mp hu) with ⟨hRecU, hPrioU, hOnU⟩
      refine ⟨hRecU, hPrioU, ?_⟩
      simp only [finishRun, statusAfterSwitch_onRunqueue, hOnU, Bool.or_true]
    · intro u hu hOnU
      apply mem_rotatedQueues_iff.mpr
      simp only [finishRun, statusAfterSwitch_onRunqueue,
        Bool.or_eq_true, decide_eq_true_eq] at hOnU ⊢
      rcases hOnU with rfl | hBefore
      · rw [hPrio]
        exact hIn
      · exact hA.runnable u hu hBefore
    · intro h u hu
      rcases hA.waiting h u hu with ⟨hMutex, hRecU, hStatus⟩
      have hNe : u ≠ t := by
        rintro rfl
        exact hA.links.apart h u hu ⟨_, hLevel, hIn⟩
      refine ⟨hMutex, hRecU, ?_⟩
      simp [finishRun, statusAfterSwitch, hNe, hStatus]
    · refine ⟨hA.registry.prios, hA.registry.pids, ?_, hA.registry.frames⟩
      intro u hu
      simp only [finishRun] at hu ⊢
      by_cases hStay : k.schedActiveThread = some t
      · simp only [if_pos hStay] at hu ⊢
        exact hA.registry.active u hu
      · simp only [if_neg hStay] at hu ⊢
        cases hu
        exact ⟨hRec, rfl⟩

end Agrees

end Riot
