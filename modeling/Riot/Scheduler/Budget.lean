import Riot.Scheduler.System
import Mathlib.Algebra.BigOperators.Group.Finset.Basic

/-
  Threads that are created and then share the CPU by timer.

  Without blocking operations queue 15 has the thread of pid
  1 for good, and the other created threads take turns on
  queue 1.  `RoundRobin cfg k q` describes these states, and
  what `thread_create` and `sched_run` do to them.
-/

----
-- Round Robin
----

namespace Riot

variable {N : Nat}

/- States of runs without blocking operations. -/
structure RoundRobin
    (cfg : Config N) (k : Kernel N)
    (q : Nat → List (Fin N)) : Prop where
  queues : Runqueues k.next q
  cache : CacheServes cfg k q
  lastBit : cfg.bitOrder.test k.runqueueBitcache 15 = true
  others : ∀ p < schedPrioLevels, p ≠ 1 → p ≠ 15 → q p = []
  last : ∃ u, q 15 = [u] ∧ (k.thread u).pid = 1 ∧ k.schedThreads 1 = some u
  members : ∀ t ∈ q 1, k.Recorded t ∧ (k.thread t).pid ≠ 1
  traced : ∀ e ∈ k.schedTrace, k.Recorded e.1
  frames : k.idleFrames = []

namespace RoundRobin

variable {cfg : Config N} {k k' : Kernel N} {q : Nat → List (Fin N)} {t tcb : Fin N}

/- Flags and timers have no part. -/
theorem setFlags
    {c p r : Bool} (hR : RoundRobin cfg k q) :
    RoundRobin cfg { k with schedContextSwitchRequest := c, pendsv := p, runTimer := r } q :=
  ⟨hR.queues, hR.cache, hR.lastBit, hR.others, hR.last, hR.members, hR.traced, hR.frames⟩

/- Statuses have no part either. -/
theorem setStatus
    (status : ThreadStatus) (hR : RoundRobin cfg k q) :
    RoundRobin cfg (k.setStatus t status) q := by
  constructor
  · exact hR.queues
  · exact hR.cache
  · exact hR.lastBit
  · exact hR.others
  · rcases hR.last with ⟨u, hLast, hPid, hSlot⟩
    refine ⟨u, hLast, ?_, hSlot⟩
    rw [Kernel.setStatus_pid]
    exact hPid
  · intro u hu
    rw [Kernel.setStatus_pid]
    exact hR.members u hu
  · exact hR.traced
  · exact hR.frames

/- Queue 1 and queue 15 have all nodes. -/
theorem queueTotal_eq
    (hOthers : ∀ p < schedPrioLevels, p ≠ 1 → p ≠ 15 → q p = []) :
    queueTotal q = (q 1).length + (q 15).length := by
  have hSum :
      queueTotal q = ∑ p ∈ Finset.range schedPrioLevels, (q p).length :=
    rfl
  rw [hSum]
  apply Finset.sum_eq_add 1 15 (by decide)
  · intro p hp hNe
    rw [hOthers p (Finset.mem_range.mp hp) hNe.1 hNe.2]
    rfl
  · intro hNot
    exact (hNot (by decide)).elim
  · intro hNot
    exact (hNot (by decide)).elim

/- Some bit of the cache is set, so nothing idles. -/
theorem mustIdle_eq
    (hR : RoundRobin cfg k q) :
    mustIdle cfg k = false := by
  have hNe : k.runqueueBitcache ≠ 0#32 := by
    intro hZero
    have hBit := hR.lastBit
    rw [hZero, cfg.bitOrder.test_zero] at hBit
    cases hBit
  simp [mustIdle, hNe]

/- A queue that `sched_run` has served. -/
def turned
    (fired : Bool) (l : List (Fin N)) : List (Fin N) :=
  (if fired then l.tail else l).rotate 1

/- Turning introduces no node. -/
theorem mem_of_mem_turned
    {fired : Bool} {l : List (Fin N)} (hIn : t ∈ turned fired l) :
    t ∈ l := by
  unfold turned at hIn
  rw [List.mem_rotate] at hIn
  cases fired with
  | true => exact List.mem_of_mem_tail hIn
  | false => exact hIn

/- The queues that a `sched_run` leaves. -/
theorem queuesAfterRun_eq
    (activeThread previousThread : Option (Fin N)) (hR : RoundRobin cfg k q) :
    queuesAfterRun k activeThread previousThread t q = Function.update q 1 (turned
          (serviceTimeFired (switchedKernel k activeThread previousThread t) activeThread t)
          (q 1)) := by
  rcases hR.last with ⟨u, hLast, _⟩
  unfold queuesAfterRun rotatedQueues
  generalize serviceTimeFired
    (switchedKernel k activeThread previousThread t)
    activeThread t = fired
  have hExpired :
      expiredQueues fired q = Function.update q 1 (if fired then (q 1).tail else q 1) := by
    unfold expiredQueues
    cases fired with
    | true => rfl
    | false => exact (Function.update_eq_self 1 q).symm
  have hTotal :
      queueTotal (expiredQueues fired q) = (if fired then (q 1).tail else q 1).length + 1 := by
    rw [hExpired, queueTotal_eq]
    · rw [Function.update_self, Function.update_of_ne (by decide), hLast]
      rfl
    · intro p hp hOne hFifteen
      rw [Function.update_of_ne hOne]
      exact hR.others p hp hOne hFifteen
  rw [hTotal, hExpired, Function.update_self, Function.update_idem, ← List.rotate_rotate,
    List.rotate_length]
  rfl

/- What one `sched_run` that returns `t` does. -/
structure Ran
    (k k' : Kernel N) (q q' : Nat → List (Fin N))
    (t : Fin N) : Prop where
  served : ∃ rest, q (servedQueue q) = t :: rest
  queue :
    ∃ fired, q' = Function.update q 1 (turned fired (q 1)) ∧
        (fired = true → timeAfterCharge k k.schedActiveThread t = 0)
  active : k'.schedActiveThread = some t
  trace : k'.schedTrace = (t, timeAfterCharge k k.schedActiveThread t) :: k.schedTrace
  times : ∀ u, (k'.thread u).sTime = timeAfterCharge k k.schedActiveThread u
  pids : ∀ u, (k'.thread u).pid = (k.thread u).pid
  threads : k'.schedThreads = k.schedThreads
  timer : k'.runTimer = ((k.thread t).pid != 1 || k.runTimer)

/- `sched_run` returns a thread and keeps the round robin. -/
theorem schedRun
    (hR : RoundRobin cfg k q) :
    ∃ k' q' t, Riot.schedRun cfg k = some k' ∧ RoundRobin cfg k' q' ∧ Ran k k' q q' t := by
  rcases hR.last with ⟨u, hLast, hPid, hSlot⟩
  have hServed : ∃ t rest, q (servedQueue q) = t :: rest := by
    unfold servedQueue
    split
    · exact ⟨u, [], hLast⟩
    · rename_i hNe
      exact List.exists_cons_of_ne_nil hNe
  rcases hServed with ⟨t, rest, hq⟩
  rcases schedRunFrom_eq (.inr rfl) hR.queues hR.cache hq with ⟨mem, hEq, hQ, _⟩
  rw [hR.queuesAfterRun_eq] at hQ
  have hRun :
      Riot.schedRun cfg k =
        some (finishRun (switchedKernel k k.schedActiveThread k.schedActiveThread t) mem t) := by
    unfold Riot.schedRun
    rw [hR.mustIdle_eq]
    exact hEq
  refine ⟨_, Function.update q 1 (turned (serviceTimeFired
            (switchedKernel k k.schedActiveThread k.schedActiveThread t)
            k.schedActiveThread t)
          (q 1)), t, hRun, ?_, ?_⟩
  · -- The thread that was returned is on one of the queues.
    have hRec : k.Recorded t := by
      have hIn : t ∈ q (servedQueue q) := by
        simp [hq]
      unfold servedQueue at hIn
      split at hIn
      · rw [hLast, List.mem_singleton] at hIn
        subst hIn
        exact ⟨0, hSlot⟩
      · exact (hR.members t hIn).1
    rw [switchedKernel_eq (.inr rfl)] at hQ ⊢
    constructor
    · exact hQ
    · refine ⟨hR.cache.1, ?_⟩
      intro hNe
      apply hR.cache.2
      rw [Function.update_self] at hNe
      rcases List.exists_mem_of_ne_nil _ hNe with ⟨x, hx⟩
      exact List.ne_nil_of_mem (mem_of_mem_turned hx)
    · exact hR.lastBit
    · intro p hp hOne hFifteen
      rw [Function.update_of_ne hOne]
      exact hR.others p hp hOne hFifteen
    · refine ⟨u, ?_, hPid, hSlot⟩
      rw [Function.update_of_ne (by decide)]
      exact hLast
    · intro x hx
      rw [Function.update_self] at hx
      exact hR.members x (mem_of_mem_turned hx)
    · intro e he
      rcases List.mem_cons.mp he with rfl | hOld
      · exact hRec
      · exact hR.traced e hOld
    · exact hR.frames
  · rw [switchedKernel_eq (.inr rfl)]
    refine ⟨⟨rest, hq⟩, ⟨_, rfl, ?_⟩, ?_, rfl, fun _ => rfl, fun _ => rfl, rfl, rfl⟩
    · intro hFired
      rw [← switchedKernel_eq (.inr rfl), serviceTimeFired_switchedKernel (.inr rfl)] at hFired
      rcases (Option.any_eq_true _ _).mp hFired with ⟨active, _, hBoth⟩
      simp only [Bool.and_eq_true, beq_iff_eq] at hBoth
      exact hBoth.2
    · simp only [finishRun]
      split
      · assumption
      · rfl

/- The thread of pid 1 is not on queue 1. -/
theorem slot_ne
    (hR : RoundRobin cfg k q) {pid : Int} (hNone : k.schedThreads pid = none) :
    pid ≠ 1 := by
  rintro rfl
  rcases hR.last with ⟨u, _, _, hSlot⟩
  rw [hNone] at hSlot
  cases hSlot

/- Only recorded threads are on queues. -/
theorem not_onQueues
    (hR : RoundRobin cfg k q) (hNew : ¬ k.Recorded tcb) :
    ¬ OnQueues q tcb := by
  rintro ⟨p, hp, hIn⟩
  rcases hR.last with ⟨u, hLast, _, hSlot⟩
  by_cases hOne : p = 1
  · subst hOne
    exact hNew (hR.members tcb hIn).1
  · by_cases hFifteen : p = 15
    · subst hFifteen
      rw [hLast, List.mem_singleton] at hIn
      subst hIn
      exact hNew ⟨0, hSlot⟩
    · rw [hR.others p hp hOne hFifteen] at hIn
      cases hIn

/- A new thread enters queue 1. -/
theorem push
    (hR : RoundRobin cfg k q) (hPrio : (k.thread t).priority = 1)
    (hStatus : (k.thread t).status.onRunqueue = false) (hRec : k.Recorded t)
    (hPid : (k.thread t).pid ≠ 1) (hOff : ¬ OnQueues q t) :
    ∃ mem, schedSetStatus cfg k t .pending = some (pushedKernel cfg k mem t .pending) ∧
        RoundRobin cfg (pushedKernel cfg k mem t .pending) (Function.update q 1 (q 1 ++ [t])) := by
  have hLevel : (k.thread t).priority < schedPrioLevels := by
    rw [hPrio]
    decide
  have hPos : (k.thread t).priority ≠ 0 := by
    rw [hPrio]
    decide
  have hNew : ThreadStatus.pending.onRunqueue = true := rfl
  rcases schedSetStatus_push cfg hR.queues hNew hStatus hLevel hOff with ⟨mem, hSet, hQ, _⟩
  have hCache :
      CacheServes cfg (pushedKernel cfg k mem t .pending)
        (Function.update q (k.thread t).priority (q 1 ++ [t])) :=
    hR.cache.pushed hLevel hPos
  rw [hPrio] at hQ hCache
  refine ⟨mem, hSet, ?_⟩
  rw [pushedKernel_eq, hPrio] at hCache ⊢
  have hStored := hR.setStatus (t := t) .pending
  constructor
  · exact hQ
  · exact hCache
  · dsimp only
    rw [cfg.bitOrder.test_or_bit _ (by decide) (by decide), hR.lastBit]
    rfl
  · intro p hp hOne hFifteen
    rw [Function.update_of_ne hOne]
    exact hR.others p hp hOne hFifteen
  · rw [Function.update_of_ne (by decide)]
    exact hStored.last
  · intro u hu
    rw [Function.update_self] at hu
    rcases List.mem_append.mp hu with hOld | hLast
    · exact hStored.members u hOld
    · rw [List.mem_singleton] at hLast
      subst hLast
      exact ⟨hRec, by simpa using hPid⟩
  · exact hR.traced
  · exact hR.frames

/- What a successful `thread_create` does. -/
structure Created
    (k k' : Kernel N) (q q' : Nat → List (Fin N)) (tcb : Fin N) (flags : Nat)
    (sTime : Int) : Prop where
  queue :
    q' =
      if flags &&& threadCreateSleeping ≠ 0 then
        q
      else
        Function.update q 1 (q 1 ++ [tcb])
  recorded : ∀ u, k'.Recorded u ↔ u = tcb ∨ k.Recorded u
  time : (k'.thread tcb).sTime = sTime
  times : ∀ u, u ≠ tcb → (k'.thread u).sTime = (k.thread u).sTime
  pids : ∀ u, u ≠ tcb → (k'.thread u).pid = (k.thread u).pid
  active : k'.schedActiveThread = k.schedActiveThread
  trace : k'.schedTrace = k.schedTrace
  timer : k'.runTimer = k.runTimer

/- A filled control block is on no queue yet. -/
theorem initThread
    {pid : Int} (sTime : Int) (hR : RoundRobin cfg k q)
    (hFree : freePid k = some pid) (hNew : ¬ k.Recorded tcb) :
    RoundRobin cfg (Riot.initThread k tcb pid sTime) q := by
  have hOff := hR.not_onQueues hNew
  have hNone := (freePid_some hFree).1
  have hNe := hR.slot_ne hNone
  have hThread : ∀ u, k.Recorded u → (Riot.initThread k tcb pid sTime).thread u = k.thread u := by
    intro u hu
    apply Function.update_of_ne
    rintro rfl
    exact hNew hu
  have hKeep :
      ∀ u, k.Recorded u → (Riot.initThread k tcb pid sTime).Recorded u :=
    fun u hu => (recorded_initThread_iff hFree).mpr (.inr hu)
  constructor
  · apply hR.queues.congr
    · intro p _
      simp only [Riot.initThread]
      rw [LinkMem.set_of_ne _ _ (by simp), LinkMem.set_of_ne _ _ (by simp)]
    · intro e he
      simp only [Riot.initThread]
      rw [LinkMem.set_of_ne _ _ (by simp), LinkMem.set_of_ne]
      intro hEq
      cases hEq
      exact hOff he
  · exact hR.cache
  · exact hR.lastBit
  · exact hR.others
  · rcases hR.last with ⟨u, hLast, hPid, hSlot⟩
    refine ⟨u, hLast, ?_, ?_⟩
    · rw [hThread u ⟨0, hSlot⟩]
      exact hPid
    · simp only [Riot.initThread]
      rw [Function.update_of_ne (Ne.symm hNe)]
      exact hSlot
  · intro u hu
    rcases hR.members u hu with ⟨hRec, hPid⟩
    rw [hThread u hRec]
    exact ⟨hKeep u hRec, hPid⟩
  · exact fun e he => hKeep e.1 (hR.traced e he)
  · exact hR.frames

/- `thread_create` keeps the round robin. -/
theorem threadCreate
    {inIrq : Bool} {priority flags : Nat} {sTime result : Int}
    (hR : RoundRobin cfg k q) (hNew : ¬ k.Recorded tcb)
    (hCreate :
      Riot.threadCreate (schedSetStatus cfg) inIrq k tcb priority flags sTime = some (k', result)) :
    k' = k ∨ ∃ q', RoundRobin cfg k' q' ∧ Created k k' q q' tcb flags sTime := by
  rcases threadCreate_some hCreate with
    rfl | ⟨pid, k₂, c, p, hFree, hSet, rfl⟩
  · exact .inl rfl
  · right
    have hInit := hR.initThread sTime hFree hNew
    have hOff := hR.not_onQueues hNew
    have hNe := hR.slot_ne (freePid_some hFree).1
    have hSelf :
        (Riot.initThread k tcb pid sTime).thread tcb =
          { status := .stopped
            priority := 1
            pid := pid
            sTime := sTime
            waitData := none
            msgQueue := ⟨0#32, 0#32, 0#32 - 1#32⟩
            msgArray := none } := by
      simp [Riot.initThread, hNe]
    have hOther :
        ∀ u, u ≠ tcb → (Riot.initThread k tcb pid sTime).thread u = k.thread u :=
      fun u hu => Function.update_of_ne hu _ _
    have hRec :
        ∀ u, (Riot.initThread k tcb pid sTime).Recorded u ↔ u = tcb ∨ k.Recorded u :=
      fun u => recorded_initThread_iff hFree
    by_cases hSleeping : flags &&& threadCreateSleeping ≠ 0
    · rw [if_pos hSleeping, schedSetStatus_keep_off rfl (by rw [hSelf]; rfl)] at hSet
      cases hSet
      refine ⟨q, (hInit.setStatus .sleeping).setFlags, ?_⟩
      constructor
      · rw [if_pos hSleeping]
      · exact hRec
      · simp [hSelf]
      · intro u hu
        simp [hOther u hu]
      · intro u hu
        simp [hOther u hu]
      · rfl
      · rfl
      · rfl
    · rw [if_neg hSleeping] at hSet
      rcases hInit.push (by rw [hSelf]) (by rw [hSelf]; rfl)
          ((hRec tcb).mpr (.inl rfl)) (by rw [hSelf]; exact hNe)
          hOff with
        ⟨mem, hEq, hPushed⟩
      rw [hEq] at hSet
      cases hSet
      refine ⟨_, hPushed.setFlags, ?_⟩
      rw [pushedKernel_eq]
      constructor
      · rw [if_neg hSleeping]
      · exact hRec
      · simp [hSelf]
      · intro u hu
        simp [hOther u hu]
      · intro u hu
        simp [hOther u hu]
      · rfl
      · rfl
      · rfl

/- The first thread that is created has queue 15. -/
theorem firstThread
    {priority : Nat} {result : Int} (hPriority : priority < schedPrioLevels)
    (hCreate : Riot.threadCreate (schedSetStatus cfg) true
        (Kernel.zero N) tcb priority initFlags 0 = some (k, result)) :
    RoundRobin cfg k (Function.update (fun _ => []) 15 [tcb]) ∧ ∀ u, k.Recorded u → u = tcb := by
  have hFree : freePid (Kernel.zero N) = some 1 := rfl
  have hNone : ∀ u, ¬ (Kernel.zero N).Recorded u := by
    rintro u ⟨i, hi⟩
    cases hi
  have hSelf :
      (Riot.initThread (Kernel.zero N) tcb 1 0).thread tcb =
        { status := .stopped
          priority := 15
          pid := 1
          sTime := 0
          waitData := none
          msgQueue := ⟨0#32, 0#32, 0#32 - 1#32⟩
          msgArray := none } := by
    simp [Riot.initThread]
  have hQ : Runqueues (Riot.initThread (Kernel.zero N) tcb 1 0).next (fun _ => []) := by
    constructor
    · intro p _
      apply LinkMem.IsCircular.nil_iff.mpr
      simp only [Riot.initThread]
      rw [LinkMem.set_of_ne _ _ (by simp), LinkMem.set_of_ne _ _ (by simp)]
      rfl
    · intro p _ p' _ u hu
      cases hu
  have hOff : ¬ OnQueues (fun _ => []) tcb := by
    rintro ⟨p, _, hIn⟩
    cases hIn
  have hNew : ThreadStatus.pending.onRunqueue = true := rfl
  rcases schedSetStatus_push cfg hQ hNew
      (by rw [hSelf]; rfl) (by rw [hSelf]; exact (by decide : 15 < 16))
      hOff with
    ⟨mem, hSet, hQ', _⟩
  rw [hSelf] at hQ'
  unfold Riot.threadCreate at hCreate
  rw [if_neg (by omega), hFree] at hCreate
  dsimp only at hCreate
  rw [if_neg (by decide), hSet] at hCreate
  simp only [Option.bind_eq_bind, Option.bind_some] at hCreate
  rw [if_neg (by decide)] at hCreate
  cases hCreate
  rw [pushedKernel_eq, hSelf]
  have hRec : ∀ u, (Riot.initThread (Kernel.zero N) tcb 1 0).Recorded u → u = tcb := by
    intro u hu
    rcases (recorded_initThread_iff hFree).mp hu with hEq | hOld
    · exact hEq
    · exact (hNone u hOld).elim
  refine ⟨?_, hRec⟩
  have hTest :
      ∀ p < 32, cfg.bitOrder.test (0#32 ||| cfg.bitOrder.bit 15) p = decide (p = 15) := by
    intro p hp
    rw [cfg.bitOrder.test_or_bit _ (by decide) hp, cfg.bitOrder.test_zero, Bool.false_or]
  constructor
  · exact hQ'
  · refine ⟨hTest 0 (by decide), ?_⟩
    intro hNil
    exact (hNil rfl).elim
  · exact hTest 15 (by decide)
  · intro p _ _ hFifteen
    rw [Function.update_of_ne hFifteen]
  · refine ⟨tcb, Function.update_self _ _ _, ?_, ?_⟩
    · simp [hSelf]
    · simp [Riot.initThread]
  · intro u hu
    cases hu
  · intro e he
    cases he
  · rfl

/- The states that `kernel_init` leaves. -/
theorem kernelInit
    (hInit : Riot.kernelInit cfg = some k) :
    ∃ q, RoundRobin cfg k q := by
  unfold Riot.kernelInit at hInit
  rcases Option.bind_eq_some_iff.mp hInit with ⟨k₁, hFirst, hRest⟩
  rcases Option.bind_eq_some_iff.mp hRest with ⟨⟨k₂, result⟩, hMain, hLast⟩
  cases hLast
  unfold createIdleThread at hFirst
  split at hFirst
  · rcases Option.map_eq_some_iff.mp hFirst with ⟨⟨k', result'⟩, hIdle, rfl⟩
    rcases firstThread (by decide) hIdle with ⟨hR, hRec⟩
    have hNew : ¬ k'.Recorded cfg.mainStack := fun hOld => cfg.stacks_ne (hRec _ hOld).symm
    rcases hR.threadCreate hNew hMain with
      rfl | ⟨q', hR', _⟩
    · exact ⟨_, hR.setFlags⟩
    · exact ⟨q', hR'.setFlags⟩
  · cases hFirst
    exact ⟨_, (firstThread (by decide) hMain).1.setFlags⟩

end RoundRobin

end Riot
