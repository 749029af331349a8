import Riot.Core.Mutex
import Riot.Lib.System
import Riot.Scheduler.Specs

/-
  The scheduler as a transition system.

  One step is one call of a kernel function by the running
  thread or by an interrupt handler, the timer tick, the
  pending scheduler interrupt, or the end of the idle loop.
  A thread runs while no scheduler interrupt is pending and
  no `sched_run` waits in the idle loop; the idle thread
  calls nothing.

  Key definitions include:
    * `SchedOp`
    * `SchedOp.Enabled`
    * `SchedOp.exec`
    * `schedSystem`
    * `schedRuns`
-/

----
-- Operations
----

namespace Riot

/- The calls and interrupts of the scheduler. -/
inductive SchedOp (N : Nat) where
  | threadCreate
      (inIrq : Bool)
      (tcb : Fin N)
      (priority flags : Nat)
      (sTime : Int)
  | timerTick
  | pendsv
  | idleReturn
  | threadYieldHigher
  | threadYield
  | threadSleep
  | threadWakeup (inIrq : Bool) (pid : Int)
  | mutexLock (mutex : Nat)
  | mutexTrylock (mutex : Nat)
  | mutexUnlock (inIrq : Bool) (mutex : Nat)
  | mutexUnlockAndSleep (mutex : Nat)
  | taskExit
deriving DecidableEq, Repr

variable {N : Nat}

/- The thread that executes, if one does. -/
def Kernel.running
    (cfg : Config N) (k : Kernel N) : Option (Fin N) :=
  if k.pendsv || !k.idleFrames.isEmpty then
    none
  else
    k.schedActiveThread.filter (fun t => !(cfg.coreIdleThread && t == cfg.idleStack))

/- The control block belongs to a recorded thread. -/
def Kernel.Recorded
    (k : Kernel N) (tcb : Fin N) : Prop :=
  ∃ i : Fin 32, k.schedThreads (kernelPidFirst + i) = some tcb

instance
    (k : Kernel N) (tcb : Fin N) :
    Decidable (k.Recorded tcb) := by
  unfold Kernel.Recorded
  infer_instance

/- The threads recorded after a control block is filled. -/
theorem recorded_initThread_iff
    {k : Kernel N} {tcb u : Fin N} {pid sTime : Int}
    (hFree : freePid k = some pid) :
    (initThread k tcb pid sTime).Recorded u ↔ u = tcb ∨ k.Recorded u := by
  rcases freePid_some hFree with ⟨hNone, i, rfl⟩
  unfold Kernel.Recorded
  simp only [initThread]
  constructor
  · rintro ⟨j, hj⟩
    by_cases hEq : kernelPidFirst + (j : Int) = kernelPidFirst + (i : Int)
    · rw [hEq, Function.update_self] at hj
      cases hj
      exact .inl rfl
    · rw [Function.update_of_ne hEq] at hj
      exact .inr ⟨j, hj⟩
  · rintro (rfl | ⟨j, hj⟩)
    · exact ⟨i, by rw [Function.update_self]⟩
    · refine ⟨j, ?_⟩
      rw [Function.update_of_ne]
      · exact hj
      · intro hEq
        rw [hEq, hNone] at hj
        cases hj

/-
  An interrupt handler that asked for a context switch
  raises the scheduler interrupt when it ends.
-/
def isrEnd
    (k : Kernel N) : Kernel N :=
  if k.schedContextSwitchRequest then
    threadYieldHigher k
  else
    k

/- End a call, from a thread or from a handler. -/
def endCall
    (inIrq : Bool) (k : Kernel N) : Kernel N :=
  if inIrq then isrEnd k else k

namespace SchedOp

/-
  When an operation can happen.  A caller hands over stack
  memory that no recorded thread uses.
-/
def Enabled
    (cfg : Config N)
    (k : Kernel N) : SchedOp N → Prop
| .threadCreate inIrq tcb _ _ _ =>
  (inIrq = true ∨ (k.running cfg).isSome) ∧ ¬ k.Recorded tcb
| .timerTick => k.runTimer = true
| .pendsv => k.pendsv = true ∧ k.idleFrames = []
| .idleReturn => k.idleFrames ≠ [] ∧ k.runqueueBitcache ≠ 0#32
| .threadWakeup inIrq _ => inIrq = true ∨ (k.running cfg).isSome
| .mutexUnlock inIrq _ => inIrq = true ∨ (k.running cfg).isSome
| _ => (k.running cfg).isSome

instance
    (cfg : Config N) (k : Kernel N) (op : SchedOp N) :
    Decidable (Enabled cfg k op) := by
  cases op <;> unfold Enabled <;> infer_instance

/- The operation takes the CPU from the running thread. -/
def blocks
    (k : Kernel N) : SchedOp N → Bool
| .threadSleep => true
| .mutexUnlockAndSleep _ => true
| .taskExit => true
| .mutexLock mutex => k.next (.head (.waiting (.mutexQueue mutex))) ≠ .null
| _ => false

/- The operation starts a `sched_run`. -/
def schedules : SchedOp N → Bool
| .timerTick => true
| .pendsv => true
| _ => false

/- The effect of an operation. -/
def exec
    (cfg : Config N) (k : Kernel N) : SchedOp N → Option (Kernel N)
| .threadCreate inIrq tcb priority flags sTime =>
  (Riot.threadCreate (schedSetStatus cfg) inIrq k tcb
    priority flags sTime).map (fun result => endCall inIrq result.1)
| .timerTick => schedRun cfg { k with runTimer := false }
| .pendsv => schedRun cfg { k with pendsv := false }
| .idleReturn => schedIdleReturn cfg k
| .threadYieldHigher => some (Riot.threadYieldHigher k)
| .threadYield => Riot.threadYield k
| .threadSleep => Riot.threadSleep (schedSetStatus cfg) false k
| .threadWakeup inIrq pid =>
  (Riot.threadWakeup (schedSetStatus cfg) inIrq k pid).map (fun result => endCall inIrq result.1)
| .mutexLock mutex => (Riot.mutexLock (schedSetStatus cfg) k mutex).map Prod.fst
| .mutexTrylock mutex => (Riot.mutexTrylock (schedSetStatus cfg) k mutex).map Prod.fst
| .mutexUnlock inIrq mutex =>
  (Riot.mutexUnlock (schedSetStatus cfg) inIrq k mutex).map (endCall inIrq)
| .mutexUnlockAndSleep mutex => Riot.mutexUnlockAndSleep (schedSetStatus cfg) k mutex
| .taskExit => schedTaskExit cfg k

end SchedOp

/- The end of a call only raises a flag. -/
theorem endCall_eq
    (inIrq : Bool) (k : Kernel N) :
    ∃ p, endCall inIrq k = { k with pendsv := p } := by
  unfold endCall isrEnd
  split
  · split
    · exact ⟨true, rfl⟩
    · exact ⟨k.pendsv, rfl⟩
  · exact ⟨k.pendsv, rfl⟩

/- The scheduler, started by `kernel_init`. -/
def schedSystem
    (cfg : Config N) : System (Kernel N) (SchedOp N) where
  Start := fun k => kernelInit cfg = some k
  Enabled := fun k op => op.Enabled cfg k
  exec := fun k op => op.exec cfg k

instance
    (cfg : Config N) (k : Kernel N) (op : SchedOp N) :
    Decidable ((schedSystem cfg).Enabled k op) :=
  inferInstanceAs (Decidable (op.Enabled cfg k))

/-
  Execute operations after `kernel_init`, as long as they
  meet the condition `ok`.
-/
def schedRuns
    (cfg : Config N) (ok : Kernel N → SchedOp N → Prop)
    [∀ k op, Decidable (ok k op)]
    (ops : List (SchedOp N)) : Option (Kernel N) :=
  (kernelInit cfg).bind (fun k => (schedSystem cfg).runVia ok k ops)

/- Executed operations lead to reachable states. -/
theorem reachableVia_of_schedRuns
    {cfg : Config N} {ok : Kernel N → SchedOp N → Prop}
    [∀ k op, Decidable (ok k op)] {k : Kernel N} {ops : List (SchedOp N)}
    (hRun : schedRuns cfg ok ops = some k) :
    (schedSystem cfg).ReachableVia ok k := by
  rcases Option.bind_eq_some_iff.mp hRun with ⟨start, hInit, hRest⟩
  exact System.reachableVia_of_runVia (.start hInit) hRest

/- A checked run reaches a state with the checked property. -/
theorem exists_reachable_of_schedRuns
    (cfg : Config N) (ok : Kernel N → SchedOp N → Prop)
    [∀ k op, Decidable (ok k op)] (P : Kernel N → Prop) [DecidablePred P]
    (ops : List (SchedOp N))
    (hRun : (schedRuns cfg ok ops).any (fun k => decide (P k)) = true) :
    ∃ k, schedRuns cfg ok ops = some k ∧ (schedSystem cfg).ReachableVia ok k ∧ P k := by
  rcases (Option.any_eq_true _ _).mp hRun with ⟨k, hk, hP⟩
  exact ⟨k, hk, reachableVia_of_schedRuns hk, of_decide_eq_true hP⟩

/- A build with the idle thread and the CLZ encoding. -/
def idleConfig : Config 4 where
  coreIdleThread := true
  bitOrder := .clz
  idleStack := 0
  mainStack := 1
  stacks_ne := by decide

/- A build without the idle thread, in the LSB encoding. -/
def noIdleConfig : Config 4 where
  coreIdleThread := false
  bitOrder := .lsb .loop
  idleStack := 0
  mainStack := 1
  stacks_ne := by decide

end Riot
