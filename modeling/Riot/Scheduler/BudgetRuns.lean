import Riot.Scheduler.Budget
import Mathlib.Data.Prod.Lex

/-
  Service times along runs that first create threads and
  then only take timer ticks.

  A thread that waits on queue 1 while the timer is set is
  returned with no service time left after finitely many
  ticks.
-/

----
-- Budgets
----

namespace Riot

variable {N : Nat}

/- Thread creation, and the switches that it asks for. -/
def SchedOp.creates : SchedOp N → Bool
| .threadCreate _ _ _ _ _ => true
| .pendsv => true
| _ => false

/- Timer ticks. -/
def SchedOp.ticks : SchedOp N → Bool
| .timerTick => true
| _ => false

/-
  The thread was returned at most once for each 500 units of
  its service time, and never with no service time left.
-/
def KeepsBudget
    (t : Fin N) (sTime : Int) (k : Kernel N) : Prop :=
  (((k.schedTrace.map Prod.fst).count t : Nat) : Int) ≤ (sTime + 499) / 500 ∧ (t, 0) ∉ k.schedTrace

instance
    (t : Fin N) (sTime : Int) :
    DecidablePred (KeepsBudget (N := N) t sTime) := by
  intro k
  unfold KeepsBudget
  infer_instance

/- A thread that was never returned keeps its budget. -/
theorem keepsBudget_of_untraced
    {t : Fin N} {sTime : Int} {k : Kernel N} (hPos : 0 < sTime)
    (hTrace : ∀ e ∈ k.schedTrace, e.1 ≠ t) :
    KeepsBudget t sTime k := by
  constructor
  · have hZero : (k.schedTrace.map Prod.fst).count t = 0 := by
      apply List.count_eq_zero.mpr
      intro hIn
      rcases List.mem_map.mp hIn with ⟨e, he, hEq⟩
      exact hTrace e he hEq
    rw [hZero]
    omega
  · intro hIn
    exact hTrace _ hIn rfl

----
-- Waiting for the End
----

/-
  The thread is on queue 1, and has time left or has yet to
  be returned.
-/
structure Awaiting
    (t : Fin N) (k : Kernel N)
    (l : List (Fin N)) : Prop where
  queued : t ∈ l
  time : 0 ≤ (k.thread t).sTime
  active : k.schedActiveThread = some t → 0 < (k.thread t).sTime

/-
  Turns that the thread still has, the length of the queue
  and the thread's position in it.
-/
def waitMeasure
    (t : Fin N) (k : Kernel N) : Nat ×ₗ Nat ×ₗ Nat :=
  toLex
    (2 * (k.thread t).sTime.toNat -
        (if k.schedActiveThread = some t then 1 else 0),
      toLex ((k.runqueue 1).length, (k.runqueue 1).idxOf t))

namespace RoundRobin

variable {cfg : Config N} {k k' : Kernel N} {q q' : Nat → List (Fin N)} {t u : Fin N}

/- The queues that `runqueue` reads. -/
theorem runqueue_eq
    (hR : RoundRobin cfg k q) :
    k.runqueue 1 = q 1 :=
  hR.queues.circularNodes_eq (by decide)

namespace Ran

/- While queue 1 has nodes, its first thread is returned. -/
theorem first
    (hRan : Ran k k' q q' u) (hQueued : t ∈ q 1) :
    ∃ rest, q 1 = u :: rest := by
  rcases hRan.served with ⟨rest, hq⟩
  unfold servedQueue at hq
  rw [if_neg (List.ne_nil_of_mem hQueued)] at hq
  exact ⟨rest, hq⟩

/- Service time of a thread that does not run. -/
theorem time_of_ne
    (hRan : Ran k k' q q' u) (hActive : k.schedActiveThread ≠ some t) :
    (k'.thread t).sTime = (k.thread t).sTime := by
  rw [hRan.times]
  unfold timeAfterCharge
  rw [if_neg]
  exact fun hBoth => hActive hBoth.1

/- Service time of the thread that ran. -/
theorem time_of_active
    (hRan : Ran k k' q q' u) (hPid : exemptPid (k.thread t).pid = false)
    (hActive : k.schedActiveThread = some t) (hTime : 0 < (k.thread t).sTime) :
    0 ≤ (k'.thread t).sTime ∧ (k'.thread t).sTime < (k.thread t).sTime := by
  rw [hRan.times]
  unfold timeAfterCharge chargedTime
  rw [if_pos ⟨hActive, hPid⟩]
  split <;> omega

/-
  A thread that waits goes on waiting or is returned with no
  service time left.
-/
theorem awaiting
    (hRan : Ran k k' q q' u) (hPid : exemptPid (k.thread t).pid = false)
    (hWait : Awaiting t k (q 1)) :
    (t, 0) ∈ k'.schedTrace ∨ Awaiting t k' (q' 1) := by
  have hTime : 0 ≤ (k'.thread t).sTime := by
    by_cases hActive : k.schedActiveThread = some t
    · exact (hRan.time_of_active hPid hActive (hWait.active hActive)).1
    · rw [hRan.time_of_ne hActive]
      exact hWait.time
  rcases hRan.first hWait.queued with ⟨rest, hFirst⟩
  rcases hRan.queue with ⟨fired, rfl, hFired⟩
  rw [Function.update_self]
  by_cases hEq : t = u
  · subst hEq
    by_cases hZero : (k'.thread t).sTime = 0
    · left
      rw [hRan.trace, ← hRan.times, hZero]
      exact List.mem_cons_self
    · right
      refine ⟨?_, hTime, fun _ => by omega⟩
      cases fired with
      | true =>
        rw [hRan.times] at hZero
        exact (hZero (hFired rfl)).elim
      | false => exact List.mem_rotate.mpr hWait.queued
  · right
    refine ⟨?_, hTime, ?_⟩
    · have hRest : t ∈ rest := by
        have hIn := hWait.queued
        rw [hFirst] at hIn
        exact (List.mem_cons.mp hIn).resolve_left hEq
      rw [hFirst]
      apply List.mem_rotate.mpr
      cases fired with
      | true => exact hRest
      | false => exact List.mem_cons_of_mem _ hRest
    · intro hActive
      rw [hRan.active] at hActive
      cases hActive
      exact (hEq rfl).elim

/- Each turn brings the thread closer to its end. -/
theorem lowersWait
    (hR : RoundRobin cfg k q) (hR' : RoundRobin cfg k' q') (hRan : Ran k k' q q' u)
    (hPid : exemptPid (k.thread t).pid = false) (hWait : Awaiting t k (q 1))
    (hWait' : Awaiting t k' (q' 1)) :
    waitMeasure t k' < waitMeasure t k := by
  unfold waitMeasure
  rw [hR.runqueue_eq, hR'.runqueue_eq]
  apply Prod.Lex.toLex_lt_toLex.mpr
  dsimp only
  by_cases hActive : k.schedActiveThread = some t
  · left
    have hTime := hWait.active hActive
    have hLess := hRan.time_of_active hPid hActive hTime
    rw [if_pos hActive]
    split <;> omega
  · have hSame := hRan.time_of_ne hActive
    rw [if_neg hActive, hSame]
    by_cases hEq : u = t
    · left
      subst hEq
      have hTime := hWait'.active hRan.active
      rw [if_pos hRan.active]
      omega
    · right
      have hActive' : k'.schedActiveThread ≠ some t := by
        rw [hRan.active]
        simpa using hEq
      rw [if_neg hActive']
      refine ⟨rfl, Prod.Lex.toLex_lt_toLex.mpr ?_⟩
      rcases hRan.first hWait.queued with ⟨rest, hFirst⟩
      rcases hRan.queue with ⟨fired, rfl, _⟩
      rw [Function.update_self, hFirst]
      cases fired with
      | true =>
        left
        simp [turned]
      | false =>
        right
        have hRest : t ∈ rest := by
          have hIn := hWait.queued
          rw [hFirst] at hIn
          exact (List.mem_cons.mp hIn).resolve_left (Ne.symm hEq)
        constructor
        · simp [turned]
        · have hTurned : turned false (u :: rest) = rest ++ [u] := by
            simp [turned]
          rw [hTurned, List.idxOf_append_of_mem hRest, List.idxOf_cons_ne _ hEq]
          omega

end Ran

/- One step of the first phase. -/
theorem createStep
    {op : SchedOp N} (hR : RoundRobin cfg k q) (hCreates : op.creates = true)
    (hEnabled : op.Enabled cfg k) (hExec : op.exec cfg k = some k') :
    ∃ q', RoundRobin cfg k' q' ∧ ((∃ p, k' = { k with pendsv := p } ∧ q' = q) ∨
          (∃ tcb flags sTime, ¬ k.Recorded tcb ∧ Created k k' q q' tcb flags sTime) ∨
          ∃ u, Ran k k' q q' u) := by
  cases op with
  | threadCreate inIrq tcb priority flags sTime =>
    rcases Option.map_eq_some_iff.mp hExec with ⟨⟨k₁, result⟩, hCreate, rfl⟩
    rcases endCall_eq inIrq k₁ with ⟨p, hEnd⟩
    dsimp only
    rw [hEnd]
    rcases hR.threadCreate hEnabled.2 hCreate with
      rfl | ⟨q', hR', hCreated⟩
    · exact ⟨q, hR.setFlags, .inl ⟨p, rfl, rfl⟩⟩
    · refine ⟨q', hR'.setFlags, .inr (.inl ⟨tcb, flags, sTime, hEnabled.2, ?_⟩)⟩
      exact ⟨hCreated.queue, hCreated.recorded, hCreated.time,
          hCreated.times, hCreated.pids, hCreated.active, hCreated.trace, hCreated.timer⟩
  | pendsv =>
    have hR₁ : RoundRobin cfg { k with pendsv := false } q := hR.setFlags
    rcases hR₁.schedRun with ⟨k₁, q', u, hRun, hR', hRan⟩
    have hEq : some k₁ = some k' := hRun.symm.trans hExec
    cases hEq
    refine ⟨q', hR', .inr (.inr ⟨u, ?_⟩)⟩
    exact ⟨hRan.served, hRan.queue, hRan.active, hRan.trace,
        hRan.times, hRan.pids, hRan.threads, hRan.timer⟩
  | _ => cases hCreates

/- One timer tick. -/
theorem tick
    (hR : RoundRobin cfg k q) :
    ∃ k' q' u, SchedOp.timerTick.exec cfg k = some k' ∧ RoundRobin cfg k' q' ∧
        Ran { k with runTimer := false } k' q q' u := by
  have hR₁ : RoundRobin cfg { k with runTimer := false } q := hR.setFlags
  exact hR₁.schedRun

end RoundRobin

----
-- Phases of a Run
----

open RoundRobin

/-
  A recorded thread with a service time, in a round robin
  with the property `P`.
-/
def Sharing
    (cfg : Config N) (t : Fin N) (P : Kernel N → (Nat → List (Fin N)) → Prop)
    (k : Kernel N) : Prop :=
  ∃ q, RoundRobin cfg k q ∧ k.Recorded t ∧ exemptPid (k.thread t).pid = false ∧ P k q

/- The thread sleeps and was never returned. -/
def Asleep
    (t : Fin N) (k : Kernel N) (q : Nat → List (Fin N)) : Prop :=
  t ∉ q 1 ∧ ∀ e ∈ k.schedTrace, e.1 ≠ t

/- While the timer is not set, the thread was not returned. -/
def Unstarted
    (t : Fin N) (k : Kernel N) (_ : Nat → List (Fin N)) : Prop :=
  k.runTimer = false → ∀ e ∈ k.schedTrace, e.1 ≠ t

/- The thread has exceeded its budget or waits for that. -/
def Doomed
    (t : Fin N) (k : Kernel N) (q : Nat → List (Fin N)) : Prop :=
  (t, 0) ∈ k.schedTrace ∨ Awaiting t k (q 1)

/- What a `sched_run` keeps of such a state. -/
theorem Sharing.ran
    {cfg : Config N} {t u : Fin N} {P : Kernel N → (Nat → List (Fin N)) → Prop}
    {k k' : Kernel N} {q q' : Nat → List (Fin N)} (hRec : k.Recorded t)
    (hPid : exemptPid (k.thread t).pid = false) (hR' : RoundRobin cfg k' q')
    (hRan : Ran k k' q q' u) (hP : P k' q') :
    Sharing cfg t P k' := by
  refine ⟨q', hR', ?_, ?_, hP⟩
  · unfold Kernel.Recorded
    rw [hRan.threads]
    exact hRec
  · rw [hRan.pids]
    exact hPid

/- A property that each kind of step keeps, a run keeps. -/
theorem Sharing.creates
    {cfg : Config N} {t : Fin N} {P : Kernel N → (Nat → List (Fin N)) → Prop} {k k' : Kernel N}
    {ops : List (SchedOp N)} (hFlags : ∀ k q p, P k q → P { k with pendsv := p } q)
    (hCreated :
      ∀ k k' q q' tcb flags sTime, t ≠ tcb → Created k k' q q' tcb flags sTime → P k q → P k' q')
    (hRan : ∀ k k' q q' u,
        RoundRobin cfg k q → exemptPid (k.thread t).pid = false → Ran k k' q q' u → P k q → P k' q')
    (hRun : (schedSystem cfg).runVia (fun _ op => op.creates = true) k ops = some k')
    (hShare : Sharing cfg t P k) :
    Sharing cfg t P k' := by
  refine System.runVia_invariant ?_ hRun hShare
  rintro s op s' ⟨q, hR, hRec, hPid, hP⟩ hCreates hEnabled hExec
  rcases hR.createStep hCreates hEnabled hExec with
    ⟨q', hR', ⟨p, rfl, rfl⟩ | ⟨tcb, flags, sTime, hNew, hNewThread⟩ | ⟨u, hRun'⟩⟩
  · exact ⟨q', hR', hRec, hPid, hFlags s q' p hP⟩
  · have hNe : t ≠ tcb := by
      rintro rfl
      exact hNew hRec
    refine ⟨q', hR', ?_, ?_, ?_⟩
    · exact (hNewThread.recorded t).mpr (.inr hRec)
    · rw [hNewThread.pids t hNe]
      exact hPid
    · exact hCreated s s' q q' tcb flags sTime hNe hNewThread hP
  · exact .ran hRec hPid hR' hRun' (hRan s s' q q' u hR hPid hRun' hP)

/- The returned thread is on queue 1 or has pid 1. -/
theorem RoundRobin.Ran.returned
    {cfg : Config N} {k k' : Kernel N} {q q' : Nat → List (Fin N)} {u : Fin N}
    (hR : RoundRobin cfg k q) (hRan : Ran k k' q q' u) :
    u ∈ q 1 ∨ (k.thread u).pid = 1 := by
  rcases hRan.served with ⟨rest, hq⟩
  unfold servedQueue at hq
  split at hq
  · right
    rcases hR.last with ⟨v, hLast, hPid, _⟩
    rw [hLast] at hq
    cases hq
    exact hPid
  · left
    rw [hq]
    exact List.mem_cons_self

/- A thread with a service time does not have pid 1. -/
theorem pid_ne_one
    {pid : Int} (hPid : exemptPid pid = false) :
    pid ≠ 1 := by
  rintro rfl
  cases hPid

/- Sleeping threads are not returned. -/
theorem Asleep.ran
    {cfg : Config N} {k k' : Kernel N} {q q' : Nat → List (Fin N)} {t u : Fin N}
    (hR : RoundRobin cfg k q) (hPid : exemptPid (k.thread t).pid = false)
    (hRan : Ran k k' q q' u) (hAsleep : Asleep t k q) :
    Asleep t k' q' := by
  constructor
  · rcases hRan.queue with ⟨fired, rfl, _⟩
    rw [Function.update_self]
    exact fun hIn => hAsleep.1 (mem_of_mem_turned hIn)
  · rw [hRan.trace]
    intro e he
    rcases List.mem_cons.mp he with rfl | hOld
    · rintro rfl
      rcases hRan.returned hR with hIn | hOne
      · exact hAsleep.1 hIn
      · exact pid_ne_one hPid hOne
    · exact hAsleep.2 e hOld

/- They stay so while further threads are created. -/
theorem Asleep.creates
    {cfg : Config N} {k k' : Kernel N} {t : Fin N} {ops : List (SchedOp N)}
    (hRun : (schedSystem cfg).runVia (fun _ op => op.creates = true) k ops = some k')
    (hShare : Sharing cfg t (Asleep t) k) :
    Sharing cfg t (Asleep t) k' := by
  refine hShare.creates ?_ ?_ ?_ hRun
  · intro k q p hAsleep
    exact hAsleep
  · intro k k' q q' tcb flags sTime hNe hCreated hAsleep
    constructor
    · rw [hCreated.queue]
      split
      · exact hAsleep.1
      · rw [Function.update_self]
        intro hIn
        rcases List.mem_append.mp hIn with hOld | hLast
        · exact hAsleep.1 hOld
        · exact hNe (List.mem_singleton.mp hLast)
    · rw [hCreated.trace]
      exact hAsleep.2
  · intro k k' q q' u hR hPid hRan hAsleep
    exact hAsleep.ran hR hPid hRan

/- And at every tick. -/
theorem Asleep.ticks
    {cfg : Config N} {k k' : Kernel N} {t : Fin N} {ops : List (SchedOp N)}
    (hRun : (schedSystem cfg).runVia (fun _ op => op.ticks = true) k ops = some k')
    (hShare : Sharing cfg t (Asleep t) k) :
    Sharing cfg t (Asleep t) k' := by
  refine System.runVia_invariant ?_ hRun hShare
  rintro s op s' ⟨q, hR, hRec, hPid, hAsleep⟩ hTicks _ hExec
  cases op with
  | timerTick =>
    rcases hR.tick with ⟨k₁, q', u, hTick, hR', hRan⟩
    have hEq : some k₁ = some s' := hTick.symm.trans hExec
    cases hEq
    have hR₁ : RoundRobin cfg { s with runTimer := false } q := hR.setFlags
    have hBefore : Asleep t { s with runTimer := false } q := hAsleep
    exact .ran (k := { s with runTimer := false }) hRec hPid hR' hRan (hBefore.ran hR₁ hPid hRan)
  | _ => cases hTicks

/- Without the timer, only the thread of pid 1 ever ran. -/
theorem Unstarted.creates
    {cfg : Config N} {k k' : Kernel N} {t : Fin N} {ops : List (SchedOp N)}
    (hRun : (schedSystem cfg).runVia (fun _ op => op.creates = true) k ops = some k')
    (hShare : Sharing cfg t (Unstarted t) k) :
    Sharing cfg t (Unstarted t) k' := by
  refine hShare.creates ?_ ?_ ?_ hRun
  · intro k q p hUnstarted
    exact hUnstarted
  · intro k k' q q' tcb flags sTime _ hCreated hUnstarted
    unfold Unstarted
    rw [hCreated.timer, hCreated.trace]
    exact hUnstarted
  · intro k k' q q' u _ hPid hRan hUnstarted hOff
    rw [hRan.timer, Bool.or_eq_false_iff] at hOff
    have hOne : (k.thread u).pid = 1 := by
      simpa using hOff.1
    rw [hRan.trace]
    intro e he
    rcases List.mem_cons.mp he with rfl | hOld
    · rintro rfl
      exact pid_ne_one hPid hOne
    · exact hUnstarted hOff.2 e hOld

/- Threads on queue 1 stay doomed. -/
theorem Doomed.creates
    {cfg : Config N} {k k' : Kernel N} {t : Fin N} {ops : List (SchedOp N)}
    (hRun : (schedSystem cfg).runVia (fun _ op => op.creates = true) k ops = some k')
    (hShare : Sharing cfg t (Doomed t) k) :
    Sharing cfg t (Doomed t) k' := by
  refine hShare.creates ?_ ?_ ?_ hRun
  · rintro k q p (hDone | hWait)
    · exact .inl hDone
    · exact .inr ⟨hWait.queued, hWait.time, hWait.active⟩
  · rintro k k' q q' tcb flags sTime hNe hCreated (hDone | hWait)
    · left
      rw [hCreated.trace]
      exact hDone
    · right
      constructor
      · rw [hCreated.queue]
        split
        · exact hWait.queued
        · rw [Function.update_self]
          exact List.mem_append_left _ hWait.queued
      · rw [hCreated.times t hNe]
        exact hWait.time
      · rw [hCreated.active, hCreated.times t hNe]
        exact hWait.active
  · rintro k k' q q' u _ hPid hRan (hDone | hWait)
    · left
      rw [hRan.trace]
      exact List.mem_cons_of_mem _ hDone
    · exact hRan.awaiting hPid hWait

/- With the timer set, ticks carry a doomed thread out. -/
theorem Doomed.exceeds
    {cfg : Config N} {k : Kernel N} {t : Fin N} (hTimer : k.runTimer = true)
    (hShare : Sharing cfg t (Doomed t) k) :
    ∃ ops k', (schedSystem cfg).runVia
          (fun _ op => op.ticks = true) k ops = some k' ∧ (t, 0) ∈ k'.schedTrace := by
  rcases hShare with ⟨q, hR, hRec, hPid, hDone | hWait⟩
  · exact ⟨[], k, rfl, hDone⟩
  · refine System.exists_runVia_of_decreasing (waitMeasure t)
      (I := fun k =>
        k.runTimer = true ∧ Sharing cfg t (fun k q => Awaiting t k (q 1)) k)
      ?_ ⟨hTimer, q, hR, hRec, hPid, hWait⟩
    rintro k ⟨hTimer, q, hR, hRec, hPid, hWait⟩
    rcases hR.tick with ⟨k', q', u, hTick, hR', hRan⟩
    refine ⟨.timerTick, k', rfl, hTimer, hTick, ?_⟩
    have hR₁ : RoundRobin cfg { k with runTimer := false } q := hR.setFlags
    have hWait₁ : Awaiting t { k with runTimer := false } (q 1) :=
      ⟨hWait.queued, hWait.time, hWait.active⟩
    rcases hRan.awaiting hPid hWait₁ with hDone | hWait'
    · exact .inl hDone
    · right
      refine ⟨⟨?_, ?_⟩, ?_⟩
      · -- The returned thread is on queue 1: it sets the timer.
        rcases hRan.first hWait.queued with ⟨rest, hFirst⟩
        have hIn : u ∈ q 1 := by
          rw [hFirst]
          exact List.mem_cons_self
        rw [hRan.timer]
        simp [(hR.members u hIn).2]
      · exact .ran (k := { k with runTimer := false }) hRec hPid hR' hRan hWait'
      · have hLess := hRan.lowersWait hR₁ hR' hPid hWait₁ hWait'
        exact hLess

----
-- Budgets along Runs
----

variable {N : Nat} {cfg : Config N} {k₀ k₁ k₂ : Kernel N} {t : Fin N}

/- Runs of the first phase are round robins. -/
theorem roundRobin_of_creates
    {ops : List (SchedOp N)}
    (hRun : schedRuns cfg (fun _ op => op.creates = true) ops = some k₀) :
    ∃ q, RoundRobin cfg k₀ q := by
  rcases Option.bind_eq_some_iff.mp hRun with ⟨start, hInit, hRest⟩
  refine System.runVia_invariant
    (I := fun k => ∃ q, RoundRobin cfg k q) ?_ hRest
    (RoundRobin.kernelInit hInit)
  rintro s op s' ⟨q, hR⟩ hCreates hEnabled hExec
  rcases hR.createStep hCreates hEnabled hExec with ⟨q', hR', _⟩
  exact ⟨q', hR'⟩

/- A thread that has just been created. -/
theorem sharing_of_created
    {inIrq : Bool} {priority flags : Nat} {sTime : Int} {q : Nat → List (Fin N)}
    (hR : RoundRobin cfg k₀ q) (hNew : ¬ k₀.Recorded t)
    (hExec : (SchedOp.threadCreate inIrq t priority flags sTime).exec cfg k₀ = some k₁)
    (hRec : k₁.Recorded t) (hPid : exemptPid (k₁.thread t).pid = false)
    (hPos : 0 < sTime) :
    Sharing cfg t (Unstarted t) k₁ ∧
      (flags &&& threadCreateSleeping ≠ 0 → Sharing cfg t (Asleep t) k₁) ∧
      (flags &&& threadCreateSleeping = 0 → Sharing cfg t (Doomed t) k₁) := by
  rcases Option.map_eq_some_iff.mp hExec with ⟨⟨k', result⟩, hCreate, rfl⟩
  rcases endCall_eq inIrq k' with ⟨p, hEnd⟩
  dsimp only at hRec hPid ⊢
  rw [hEnd] at hRec hPid ⊢
  have hRec' : k'.Recorded t := hRec
  rcases hR.threadCreate hNew hCreate with
    rfl | ⟨q', hR', hCreated⟩
  · exact (hNew hRec').elim
  · have hTrace : ∀ e ∈ k'.schedTrace, e.1 ≠ t := by
      rw [hCreated.trace]
      rintro e he rfl
      exact hNew (hR.traced e he)
    refine ⟨?_, ?_, ?_⟩
    · exact ⟨q', hR'.setFlags, hRec, hPid, fun _ => hTrace⟩
    · intro hSleeping
      refine ⟨q', hR'.setFlags, hRec, hPid, ?_, hTrace⟩
      rw [hCreated.queue, if_pos hSleeping]
      exact fun hIn => hNew (hR.members t hIn).1
    · intro hAwake
      have hTime : (k'.thread t).sTime = sTime := hCreated.time
      refine ⟨q', hR'.setFlags, hRec, hPid, .inr ⟨?_, ?_, ?_⟩⟩
      · rw [hCreated.queue, if_neg (not_not_intro hAwake), Function.update_self]
        exact List.mem_append_right _ List.mem_cons_self
      · exact hTime ▸ hPos.le
      · exact fun _ => hTime ▸ hPos

/-
  A thread is created in a run of thread creations, and
  timer ticks follow: it keeps its budget in all of them if
  and only if it was created asleep, or the timer was not
  set by then and no tick follows.
-/
theorem keepsBudget_iff
    {ops₁ ops₂ : List (SchedOp N)} {inIrq : Bool} {priority flags : Nat} {sTime : Int}
    (hBefore : schedRuns cfg (fun _ op => op.creates = true) ops₁ = some k₀)
    (hEnabled : (SchedOp.threadCreate inIrq t priority flags sTime).Enabled cfg k₀)
    (hExec : (SchedOp.threadCreate inIrq t priority flags sTime).exec cfg k₀ = some k₁)
    (hRec : k₁.Recorded t) (hPid : exemptPid (k₁.thread t).pid = false)
    (hPos : 0 < sTime)
    (hAfter : (schedSystem cfg).runVia (fun _ op => op.creates = true) k₁ ops₂ = some k₂) :
    (∀ ops₃ k₃,
      (schedSystem cfg).runVia
          (fun _ op => op.ticks = true) k₂ ops₃ = some k₃ → KeepsBudget t sTime k₃) ↔
      flags &&& threadCreateSleeping ≠ 0 ∨ k₂.runTimer = false := by
  rcases roundRobin_of_creates hBefore with ⟨q, hR⟩
  rcases sharing_of_created hR hEnabled.2 hExec hRec hPid hPos with ⟨hUnstarted, hAsleep, hDoomed⟩
  constructor
  · intro hKeeps
    by_contra hNot
    rw [not_or, not_not, Bool.not_eq_false] at hNot
    rcases Doomed.exceeds hNot.2
        (Doomed.creates hAfter (hDoomed hNot.1)) with
      ⟨ops₃, k₃, hRun, hDone⟩
    exact (hKeeps ops₃ k₃ hRun).2 hDone
  · rintro (hSleeping | hTimer)
    · intro ops₃ k₃ hRun
      have hShare := Asleep.creates hAfter (hAsleep hSleeping)
      rcases Asleep.ticks hRun hShare with ⟨_, _, _, _, _, hTrace⟩
      exact keepsBudget_of_untraced hPos hTrace
    · intro ops₃ k₃ hRun
      rcases Unstarted.creates hAfter hUnstarted with ⟨_, _, _, _, hUntraced⟩
      cases ops₃ with
      | nil =>
        cases hRun
        exact keepsBudget_of_untraced hPos (hUntraced hTimer)
      | cons op ops =>
        unfold System.runVia at hRun
        split at hRun
        · rename_i hBoth
          cases op with
          | timerTick =>
            have hSet : k₂.runTimer = true := hBoth.2
            rw [hTimer] at hSet
            cases hSet
          | _ => cases hBoth.1
        · cases hRun

/-
  Main, just started, creates thread 3 with a service time
  of 500.
-/
def createThree (flags : Nat) : SchedOp 4 :=
  .threadCreate false 2 8 flags 500

/- The creation as a checked step. -/
theorem exists_createThree
    (flags : Nat) (P : Kernel 4 → Prop) [DecidablePred P]
    (hCheck : (schedRuns idleConfig (fun _ op => op.creates = true) [.pendsv]).any (fun k₀ =>
          decide ((createThree flags).Enabled idleConfig k₀) &&
            ((createThree flags).exec idleConfig k₀).any (fun k₁ =>
                decide (k₁.Recorded 2 ∧ exemptPid (k₁.thread 2).pid = false ∧ P k₁))) = true) :
    ∃ k₀ k₁, schedRuns idleConfig (fun _ op => op.creates = true)
          [.pendsv] = some k₀ ∧ (createThree flags).Enabled idleConfig k₀ ∧
        (createThree flags).exec idleConfig k₀ = some k₁ ∧ k₁.Recorded 2 ∧
        exemptPid (k₁.thread 2).pid = false ∧ P k₁ := by
  rcases (Option.any_eq_true _ _).mp hCheck with ⟨k₀, hRun, hBoth⟩
  rcases Bool.and_eq_true_iff.mp hBoth with ⟨hEnabled, hStep⟩
  rcases (Option.any_eq_true _ _).mp hStep with ⟨k₁, hExec, hRest⟩
  exact ⟨k₀, k₁, hRun, of_decide_eq_true hEnabled, hExec, of_decide_eq_true hRest⟩

/- Thread 3, created asleep, keeps its budget. -/
theorem keepsBudget_asleep :
    ∃ k₀ k₁,
      schedRuns idleConfig (fun _ op => op.creates = true)
          [.pendsv] = some k₀ ∧ (createThree 1).exec idleConfig k₀ = some k₁ ∧ ∀ ops k,
          (schedSystem idleConfig).runVia
              (fun _ op => op.ticks = true) k₁ ops = some k → KeepsBudget 2 500 k := by
  rcases exists_createThree 1 (fun _ => True)
      (by decide +kernel) with
    ⟨k₀, k₁, hRun, hEnabled, hExec, hRec, hPid, _⟩
  have hAfter :
      (schedSystem idleConfig).runVia (fun _ op => op.creates = true) k₁ [] = some k₁ :=
    rfl
  refine ⟨k₀, k₁, hRun, hExec, ?_⟩
  exact (keepsBudget_iff hRun hEnabled hExec hRec hPid (by decide) hAfter).mpr (.inl (by decide))

/-
  Thread 3 is returned a second time, with no service time
  left, within five ticks.
-/
theorem not_keepsBudget :
    ∃ k₀ k₁ k,
      schedRuns idleConfig (fun _ op => op.creates = true)
          [.pendsv] = some k₀ ∧ (createThree 4).Enabled idleConfig k₀ ∧
        (createThree 4).exec idleConfig k₀ = some k₁ ∧ k₁.Recorded 2 ∧
        exemptPid (k₁.thread 2).pid = false ∧
        (schedSystem idleConfig).runVia
            (fun _ op => op.ticks = true) k₁
            (List.replicate 5 .timerTick) = some k ∧ ¬ KeepsBudget 2 500 k := by
  rcases exists_createThree 4
      (fun k₁ =>
        ((schedSystem idleConfig).runVia
          (fun _ op => op.ticks = true) k₁
          (List.replicate 5 .timerTick)).any (fun k => decide (¬ KeepsBudget 2 500 k)) = true)
      (by decide +kernel) with
    ⟨k₀, k₁, hRun, hEnabled, hExec, hRec, hPid, hTicks⟩
  rcases (Option.any_eq_true _ _).mp hTicks with ⟨k, hTicks', hNot⟩
  exact ⟨k₀, k₁, k, hRun, hEnabled, hExec, hRec, hPid, hTicks', of_decide_eq_true hNot⟩

end Riot
