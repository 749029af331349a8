import Riot.Scheduler.System

/-
  What every run of the scheduler keeps, whatever happened
  to its lists.

  Lists can break: a thread can be popped in place of
  another, and the stack of a thread that is still linked
  can be used again.  Pointers nevertheless lead to managed
  threads only, whose priority is 1, or 15 in a build
  without the idle thread; and in a build with it, queue 15
  holds the idle thread for good.
-/

----
-- Managed Threads
----

namespace Riot

variable {N : Nat}

/- The idle thread of a build that has one. -/
def IsIdle
    (cfg : Config N) (t : Fin N) : Prop :=
  cfg.coreIdleThread = true ∧ t = cfg.idleStack

/- A thread that was created, other than the idle thread. -/
def IsManaged
    (cfg : Config N) (k : Kernel N) (t : Fin N) : Prop :=
  ((k.thread t).priority = 1 ∨ (cfg.coreIdleThread = false ∧ (k.thread t).priority = 15)) ∧
    (cfg.coreIdleThread = true → t ≠ cfg.idleStack ∧ (k.thread t).pid ≠ 1)

/-
  The fields that operations on managed threads change: all,
  except those that link the idle thread.
-/
def managedRegion
    (cfg : Config N)
    (k : Kernel N) : Region (ListHead N) (Fin N) where
  cells := fun c =>
    cfg.coreIdleThread = true → c ≠ .head (.runqueue 15) ∧ c ≠ .entry cfg.idleStack
  members := IsManaged cfg k
  entry_cells := by
    intro e hManaged hIdle
    exact ⟨by simp, by simpa using (hManaged.2 hIdle).1⟩

/- The idle thread is recorded, runnable and linked. -/
structure IdleReady
    (cfg : Config N)
    (k : Kernel N) : Prop where
  recorded : k.schedThreads 1 = some cfg.idleStack
  status : (k.thread cfg.idleStack).status.onRunqueue = true
  head : k.next (.head (.runqueue 15)) = .ref cfg.idleStack
  entry : k.next (.entry cfg.idleStack) = .ref cfg.idleStack
  activePid : ∀ t, k.schedActiveThread = some t → t ≠ cfg.idleStack → k.schedActivePid ≠ 1
  frames : k.idleFrames = []

/- Pointers, pids and the CPU lead to managed threads. -/
structure Managed
    (cfg : Config N)
    (k : Kernel N) : Prop where
  confined : (managedRegion cfg k).Confined k.next
  threads : ∀ pid t, k.schedThreads pid = some t → IsManaged cfg k t ∨ IsIdle cfg t
  active : ∀ t, k.schedActiveThread = some t → IsManaged cfg k t ∨ IsIdle cfg t
  idle : cfg.coreIdleThread = true → IdleReady cfg k

namespace IsManaged

variable {cfg : Config N} {k k' : Kernel N} {t : Fin N}

/- Priorities of managed threads. -/
theorem prio_eq
    (hManaged : IsManaged cfg k t) :
    (k.thread t).priority = 1 ∨ (k.thread t).priority = 15 := by
  rcases hManaged.1 with hOne | ⟨_, hLast⟩
  · exact .inl hOne
  · exact .inr hLast

/- Managed threads have a run queue. -/
theorem prio_lt
    (hManaged : IsManaged cfg k t) :
    (k.thread t).priority < schedPrioLevels := by
  rcases hManaged.prio_eq with hOne | hLast
  · rw [hOne]
    decide
  · rw [hLast]
    decide

/- The run queue of a managed thread is in the region. -/
theorem queue_cells
    (hManaged : IsManaged cfg k t) :
    (managedRegion cfg k).cells (.head (.runqueue (k.thread t).priority)) := by
  intro hIdle
  rcases hManaged.1 with hOne | ⟨hNone, _⟩
  · simp [hOne]
  · rw [hIdle] at hNone
    cases hNone

/- Being managed depends on priority and pid only. -/
theorem congr
    (hPrio : (k'.thread t).priority = (k.thread t).priority)
    (hPid : (k'.thread t).pid = (k.thread t).pid) :
    IsManaged cfg k' t ↔ IsManaged cfg k t := by
  unfold IsManaged
  rw [hPrio, hPid]

end IsManaged

/- Wait-list references are in the region. -/
theorem waiting_cells
    (cfg : Config N) (k : Kernel N) (h : WaitHead N) :
    (managedRegion cfg k).cells (.head (.waiting h)) := by
  intro _
  exact ⟨by simp, by simp⟩

namespace Managed

variable {cfg : Config N} {k k' : Kernel N} {t : Fin N}

/-
  A change inside the region that keeps priorities, pids and
  the recorded threads.
-/
theorem transfer
    (hM : Managed cfg k) (hWithin : (managedRegion cfg k).Within k.next k'.next)
    (hPrio : ∀ t, (k'.thread t).priority = (k.thread t).priority)
    (hPid : ∀ t, (k'.thread t).pid = (k.thread t).pid)
    (hThreads : k'.schedThreads = k.schedThreads)
    (hActive : ∀ t, k'.schedActiveThread = some t → IsManaged cfg k t ∨ IsIdle cfg t)
    (hIdle : cfg.coreIdleThread = true → (k'.thread cfg.idleStack).status.onRunqueue = true ∧
          k'.idleFrames = [] ∧
          ∀ t, k'.schedActiveThread = some t → t ≠ cfg.idleStack → k'.schedActivePid ≠ 1) :
    Managed cfg k' := by
  have hSame : ∀ t, IsManaged cfg k' t ↔ IsManaged cfg k t :=
    fun t => IsManaged.congr (hPrio t) (hPid t)
  constructor
  · intro c hc e he
    exact (hSame e).mpr (hWithin.1 c hc e he)
  · intro pid t ht
    rw [hThreads] at ht
    rw [hSame]
    exact hM.threads pid t ht
  · intro t ht
    rw [hSame]
    exact hActive t ht
  · intro hOn
    rcases hIdle hOn with ⟨hStatus, hFrames, hActivePid⟩
    have hReady := hM.idle hOn
    constructor
    · rw [hThreads]
      exact hReady.recorded
    · exact hStatus
    · rw [hWithin.2 _ (fun h => (h hOn).1 rfl)]
      exact hReady.head
    · rw [hWithin.2 _ (fun h => (h hOn).2 rfl)]
      exact hReady.entry
    · exact hActivePid
    · exact hFrames

/- A change of list memory alone. -/
theorem setNext
    {mem : LinkMem (ListHead N) (Fin N)} (hM : Managed cfg k)
    (hWithin : (managedRegion cfg k).Within k.next mem) :
    Managed cfg { k with next := mem } := by
  refine hM.transfer hWithin (fun _ => rfl) (fun _ => rfl) rfl hM.active ?_
  intro hOn
  have hReady := hM.idle hOn
  exact ⟨hReady.status, hReady.frames, hReady.activePid⟩

/- Flags and timers have no part. -/
theorem setFlags
    {c p r : Bool} (hM : Managed cfg k) :
    Managed cfg { k with
        schedContextSwitchRequest := c
        pendsv := p
        runTimer := r } := by
  refine hM.transfer (.refl hM.confined) (fun _ => rfl) (fun _ => rfl) rfl hM.active ?_
  intro hOn
  have hReady := hM.idle hOn
  exact ⟨hReady.status, hReady.frames, hReady.activePid⟩

/- A running thread is managed. -/
theorem running
    (hM : Managed cfg k) (hRunning : k.running cfg = some t) :
    k.schedActiveThread = some t ∧ IsManaged cfg k t := by
  unfold Kernel.running at hRunning
  split at hRunning
  · cases hRunning
  · rcases Option.filter_eq_some_iff.mp hRunning with ⟨hActive, hNot⟩
    refine ⟨hActive, ?_⟩
    rcases hM.active t hActive with hManaged | ⟨hOn, hEq⟩
    · exact hManaged
    · simp [hOn, hEq] at hNot

end Managed

----
-- Queue References and Cache
----

/- The reference of a run queue. -/
def Kernel.queueRef
    (k : Kernel N) (p : Nat) : Link (Fin N) :=
  k.next (.head (.runqueue p))

/-
  What a status change does to the references of the run
  queues and to the cache.  `pops` are the queues that a
  node may be taken from.
-/
inductive QueueStep
    (cfg : Config N) (pops : Nat → Prop)
    (k k' : Kernel N) : Prop
| same
    (hRefs : ∀ p, k'.queueRef p = k.queueRef p)
    (hCache : k'.runqueueBitcache = k.runqueueBitcache)
| push
    (p : Nat)
    (hPrio : p = 1 ∨ (cfg.coreIdleThread = false ∧ p = 15))
    (hRef : k'.queueRef p ≠ .null)
    (hRefs : ∀ p', p' ≠ p → k'.queueRef p' = k.queueRef p')
    (hCache : k'.runqueueBitcache = k.runqueueBitcache ||| cfg.bitOrder.bit p)
| pop
    (p : Nat)
    (hPops : pops p)
    (hPrio : p = 1 ∨ (cfg.coreIdleThread = false ∧ p = 15))
    (hRef : k'.queueRef p ≠ .null → k.queueRef p ≠ .null)
    (hRefs : ∀ p', p' ≠ p → k'.queueRef p' = k.queueRef p')
    (hCache :
      k'.runqueueBitcache =
        if k'.queueRef p = .null then
          k.runqueueBitcache &&& ~~~(cfg.bitOrder.bit p)
        else
          k.runqueueBitcache)

/- Several such changes. -/
inductive QueueSteps
    (cfg : Config N) (pops : Nat → Prop) :
    Kernel N → Kernel N → Prop
| refl
    {k : Kernel N} :
    QueueSteps cfg pops k k
| step
    {k k₁ k₂ : Kernel N}
    (hSteps : QueueSteps cfg pops k k₁)
    (hStep : QueueStep cfg pops k₁ k₂) :
    QueueSteps cfg pops k k₂

namespace QueueSteps

variable {cfg : Config N} {pops pops' : Nat → Prop} {k k' k'' : Kernel N}

/- One change. -/
theorem single
    (hStep : QueueStep cfg pops k k') :
    QueueSteps cfg pops k k' :=
  .step .refl hStep

/- More queues may be popped. -/
theorem mono
    (hSteps : QueueSteps cfg pops k k') (hImp : ∀ p, pops p → pops' p) :
    QueueSteps cfg pops' k k' := by
  induction hSteps with
  | refl => exact .refl
  | step _ hStep ih =>
    refine .step ih ?_
    cases hStep with
    | same hRefs hCache => exact .same hRefs hCache
    | push p hPrio hRef hRefs hCache => exact .push p hPrio hRef hRefs hCache
    | pop p hPops hPrio hRef hRefs hCache =>
      exact .pop p (hImp p hPops) hPrio hRef hRefs hCache

/- Changes compose. -/
theorem trans
    (hLeft : QueueSteps cfg pops k k') (hRight : QueueSteps cfg pops k' k'') :
    QueueSteps cfg pops k k'' := by
  induction hRight with
  | refl => exact hLeft
  | step _ hStep ih => exact .step ih hStep

/- A kernel with the same references and cache. -/
theorem congr
    (hSteps : QueueSteps cfg pops k k')
    (hRefs : ∀ p, k''.queueRef p = k'.queueRef p)
    (hCache : k''.runqueueBitcache = k'.runqueueBitcache) :
    QueueSteps cfg pops k k'' :=
  .step hSteps (.same hRefs hCache)

/- What every change keeps, all changes keep. -/
theorem invariant
    {I : Kernel N → Prop} (hSteps : QueueSteps cfg pops k k')
    (hStep : ∀ s s', QueueStep cfg pops s s' → I s → I s') (hStart : I k) :
    I k' := by
  induction hSteps with
  | refl => exact hStart
  | step _ hNext ih => exact hStep _ _ hNext ih

end QueueSteps

namespace Managed

variable {cfg : Config N} {k k' : Kernel N} {t : Fin N} {status : ThreadStatus}

/- A stored status and a change inside the region. -/
theorem setStatus
    {mem : LinkMem (ListHead N) (Fin N)} {bitcache : BitVec 32} (hM : Managed cfg k)
    (hManaged : IsManaged cfg k t)
    (hWithin : (managedRegion cfg k).Within k.next mem) :
    Managed cfg { k.setStatus t status with
        next := mem
        runqueueBitcache := bitcache } := by
  refine hM.transfer hWithin
      (fun _ => Kernel.setStatus_priority _ _ _ _)
      (fun _ => Kernel.setStatus_pid _ _ _ _) rfl
      hM.active ?_
  intro hOn
  have hReady := hM.idle hOn
  refine ⟨?_, hReady.frames, hReady.activePid⟩
  rw [Kernel.setStatus_status, if_neg (Ne.symm (hManaged.2 hOn).1)]
  exact hReady.status

/- A status change of a managed thread. -/
theorem schedSetStatus
    (hM : Managed cfg k) (hManaged : IsManaged cfg k t)
    (hSet : Riot.schedSetStatus cfg k t status = some k') :
    Managed cfg k' ∧ QueueSteps cfg (fun p =>
          status.onRunqueue = false ∧ p = (k.thread t).priority)
        k k' := by
  rcases schedSetStatus_some hSet with
    ⟨_, rfl⟩ | ⟨_, mem, hPush, _, rfl⟩ | ⟨hOff, mem, first, hPop, _, rfl⟩
  · exact ⟨hM.setStatus hManaged (.refl hM.confined), .single (.same (fun _ => rfl) rfl)⟩
  · rcases clistRpush_within hM.confined
        hManaged.queue_cells hManaged hPush with
      ⟨hWithin, hHead, hHeads⟩
    refine ⟨hM.setStatus hManaged hWithin, .single ?_⟩
    refine .push _ hManaged.1 ?_ ?_ rfl
    · unfold Kernel.queueRef
      rw [pushedKernel_eq]
      simp [hHead]
    · intro p' hNe
      exact hHeads _ (by simpa using hNe)
  · rcases clistLpop_within hM.confined hManaged.queue_cells hPop with ⟨hWithin, hHeads⟩
    rw [poppedKernel_eq]
    refine ⟨hM.setStatus hManaged hWithin, .single ?_⟩
    refine .pop _ ⟨hOff, rfl⟩ hManaged.1 ?_ ?_ rfl
    · intro hSome hNull
      apply hSome
      unfold Kernel.queueRef at hNull
      unfold clistLpop at hPop
      rw [hNull] at hPop
      cases hPop
      exact hNull
    · intro p' hNe
      exact hHeads _ (by simpa using hNe)

end Managed

end Riot
