import Riot.Scheduler.ManagedOps

/-
  Every operation of the scheduler keeps `Managed`, and what
  it does to the references of the run queues and to the
  cache is one of the cases of `OpEffect`.
-/

----
-- Steps
----

namespace Riot

open LinkMem

variable {N : Nat}

/- The queues that an operation may pop a node from. -/
def SchedOp.Pops
    (k : Kernel N) (op : SchedOp N) (p : Nat) : Prop :=
  op.blocks k = true ∧ ∃ t, k.schedActiveThread = some t ∧ (k.thread t).priority = p

/-
  The caller's queue has a last node whose link is null, so
  that `thread_yield` would store null in its reference.
-/
def Kernel.yieldBreaks
    (k : Kernel N) : Bool :=
  k.schedActiveThread.any (fun t =>
    match k.queueRef (k.thread t).priority with
    | .ref last => k.next (.entry last) == .null
    | _ => false)

/-
  What an operation does to the references of the run queues
  and to the cache.
-/
inductive OpEffect
    (cfg : Config N) (k : Kernel N) (op : SchedOp N)
    (k' : Kernel N) : Prop
| status
    (hSteps : QueueSteps cfg (op.Pops k) k k')
| run
    (hCache : k'.runqueueBitcache = k.runqueueBitcache)
    (hRefs : ∀ p, p ≠ 1 → k'.queueRef p = k.queueRef p)
    (hNull : k.queueRef 1 = .null → k'.queueRef 1 = .null)
    (hLost :
      k'.queueRef 1 = .null → k.queueRef 1 ≠ .null → op.schedules = true ∧ k.evictsLast = true)
| yield
    (hOp : op = .threadYield)
    (hCache : k'.runqueueBitcache = k.runqueueBitcache)
    (hNull : ∀ p, k.queueRef p = .null → k'.queueRef p = .null)
    (hLost : ∀ p, k'.queueRef p = .null → k.queueRef p ≠ .null → k.yieldBreaks = true)

/- A status change keeps the cache sound. -/
theorem QueueStep.cacheSound
    {cfg : Config N} {pops : Nat → Prop} {k k' : Kernel N}
    (hStep : QueueStep cfg pops k k') (hSound : CacheSound cfg k) :
    CacheSound cfg k' := by
  have hLt : ∀ p, p = 1 ∨ (cfg.coreIdleThread = false ∧ p = 15) → p < 32 := by
    rintro p (rfl | ⟨_, rfl⟩) <;> decide
  cases hStep with
  | same hRefs hCache =>
    constructor
    · rw [hCache]
      exact hSound.bits
    · rw [hCache, hRefs]
      exact hSound.served
  | push p hPrio hRef hRefs hCache =>
    constructor
    · intro p' hp' hTest
      rw [hCache, cfg.bitOrder.test_or_bit _ (hLt p hPrio) hp'] at hTest
      rcases Bool.or_eq_true _ _ ▸ hTest with hOld | hNew
      · exact hSound.bits p' hp' hOld
      · rw [of_decide_eq_true hNew]
        exact hPrio.imp_right And.right
    · intro hSome
      rw [hCache, cfg.bitOrder.test_or_bit _ (hLt p hPrio) (by decide)]
      by_cases hEq : 1 = p
      · simp [hEq]
      · rw [hRefs 1 hEq] at hSome
        simp [hSound.served hSome]
  | pop p hPops hPrio hRef hRefs hCache =>
    constructor
    · intro p' hp' hTest
      rw [hCache] at hTest
      split at hTest
      · rw [cfg.bitOrder.test_and_not_bit _ (hLt p hPrio) hp'] at hTest
        exact hSound.bits p' hp' (Bool.and_eq_true _ _ ▸ hTest).1
      · exact hSound.bits p' hp' hTest
    · intro hSome
      rw [hCache]
      by_cases hEq : 1 = p
      · rw [hEq] at hSome
        rw [if_neg hSome]
        apply hSound.served
        rw [hEq]
        exact hRef hSome
      · rw [hRefs 1 hEq] at hSome
        split
        · rw [cfg.bitOrder.test_and_not_bit _ (hLt p hPrio) (by decide)]
          simp [hSound.served hSome, hEq]
        · exact hSound.served hSome

/- The cache stays sound. -/
theorem OpEffect.cacheSound
    {cfg : Config N} {k k' : Kernel N} {op : SchedOp N}
    (hEffect : OpEffect cfg k op k') (hSound : CacheSound cfg k) :
    CacheSound cfg k' := by
  cases hEffect with
  | status hSteps => exact hSteps.invariant (fun _ _ hStep => hStep.cacheSound) hSound
  | run hSame hRefs hNull hLost =>
    constructor
    · rw [hSame]
      exact hSound.bits
    · intro hRef
      rw [hSame]
      exact hSound.served (fun h => hRef (hNull h))
  | yield hOp hSame hNull hLost =>
    constructor
    · rw [hSame]
      exact hSound.bits
    · intro hRef
      rw [hSame]
      exact hSound.served (fun h => hRef (hNull 1 h))

/- Unscheduling at most makes a thread pending. -/
theorem unscheduleActive_eq
    (k : Kernel N) (activeThread : Option (Fin N)) :
    unscheduleActive k activeThread = k ∨
      ∃ active, unscheduleActive k activeThread = k.setStatus active .pending := by
  cases activeThread with
  | none => exact .inl rfl
  | some active =>
    unfold unscheduleActive unschedule
    by_cases hRunning : (k.thread active).status = .running
    · right
      exact ⟨active, if_pos hRunning⟩
    · left
      exact if_neg hRunning

namespace Managed

variable {cfg : Config N} {k k' : Kernel N} {op : SchedOp N} {t : Fin N} {mutex : Nat}

/- A scheduler run, or its wait for a runnable thread. -/
theorem schedRun
    {p r : Bool} (hM : Managed cfg k) (hSound : CacheSound cfg k)
    (hOp : op.schedules = true)
    (hRun : Riot.schedRun cfg { k with pendsv := p, runTimer := r } = some k') :
    Managed cfg k' ∧ OpEffect cfg k op k' := by
  unfold Riot.schedRun at hRun
  split at hRun
  · rename_i hIdle
    have hOff : cfg.coreIdleThread = false := by
      simp only [mustIdle, Bool.and_eq_true, Bool.not_eq_true'] at hIdle
      exact hIdle.1
    cases hRun
    rcases unscheduleActive_eq
        { k with pendsv := p, runTimer := r }
        k.schedActiveThread with
      hEq | ⟨active, hEq⟩
    · rw [hEq]
      refine ⟨hM.transfer (.refl hM.confined) (fun _ => rfl)
          (fun _ => rfl) rfl hM.active ?_, .status (.single (.same (fun _ => rfl) rfl))⟩
      intro hOn
      rw [hOff] at hOn
      cases hOn
    · rw [hEq]
      refine ⟨hM.transfer (.refl hM.confined) (fun _ => Kernel.setStatus_priority _ _ _ _)
          (fun _ => Kernel.setStatus_pid _ _ _ _) rfl
          hM.active ?_, .status (.single (.same (fun _ => rfl) rfl))⟩
      intro hOn
      rw [hOff] at hOn
      cases hOn
  · rcases schedRunFrom_refs (.inr rfl) (.inr rfl)
        (k := { k with pendsv := p, runTimer := r })
        ⟨hSound.bits, hSound.served⟩ hRun with
      ⟨hCache, hRefs, hNull, hLost⟩
    refine
      ⟨(hM.setFlags (p := p) (r := r)).schedRunFrom (.inr rfl) hRun, .run hCache hRefs hNull ?_⟩
    intro hAfter hBefore
    exact ⟨hOp, (hLost hAfter hBefore).2⟩

/- The idle loop ends. -/
theorem schedIdleReturn
    (hM : Managed cfg k) (hSound : CacheSound cfg k)
    (hReturn : Riot.schedIdleReturn cfg k = some k') :
    Managed cfg k' ∧ OpEffect cfg k op k' := by
  unfold Riot.schedIdleReturn at hReturn
  split at hReturn
  · cases hReturn
  · rename_i previous frames hFrames
    have hM₁ : Managed cfg { k with idleFrames := frames } := by
      refine hM.transfer (.refl hM.confined) (fun _ => rfl) (fun _ => rfl) rfl hM.active ?_
      intro hOn
      have hNone := (hM.idle hOn).frames
      rw [hFrames] at hNone
      cases hNone
    rcases schedRunFrom_refs (.inl rfl) (.inl rfl)
        (k := { k with idleFrames := frames })
        ⟨hSound.bits, hSound.served⟩ hReturn with
      ⟨hCache, hRefs, hNull, hLost⟩
    refine ⟨hM₁.schedRunFrom (.inl rfl) hReturn, .run hCache hRefs hNull ?_⟩
    intro hAfter hBefore
    exact ((hLost hAfter hBefore).1 rfl).elim

/- Yielding. -/
theorem threadYield
    (hM : Managed cfg k) (hRunning : k.running cfg = some t)
    (hYield : Riot.threadYield k = some k') :
    Managed cfg k' ∧ OpEffect cfg k .threadYield k' := by
  rcases hM.running hRunning with ⟨hActive, hManaged⟩
  rcases Option.bind_eq_some_iff.mp hYield with ⟨t', hSome, hRest⟩
  rw [hActive] at hSome
  cases hSome
  split at hRest
  · rcases Option.bind_eq_some_iff.mp hRest with ⟨mem, hTurn, hLast⟩
    cases hLast
    rcases clistLpoprpush_within hM.confined hManaged.queue_cells hTurn with ⟨hWithin, hHeads, _⟩
    refine ⟨(hM.setNext hWithin).setFlags, .yield rfl rfl ?_ ?_⟩
    · intro p hNull
      by_cases hEq : p = (k.thread t).priority
      · subst hEq
        unfold Kernel.queueRef at hNull
        unfold clistLpoprpush at hTurn
        rw [hNull] at hTurn
        cases hTurn
        exact hNull
      · exact (hHeads _ (by simpa using hEq)).trans hNull
    · intro p hAfter hBefore
      by_cases hEq : p = (k.thread t).priority
      · subst hEq
        unfold clistLpoprpush at hTurn
        split at hTurn
        · rename_i hNull
          exact (hBefore hNull).elim
        · cases hTurn
        · rename_i last hRef
          cases hTurn
          have hLink : k.next (.entry last) = .null := by
            simpa [Kernel.queueRef, threadYieldHigher] using hAfter
          simp [Kernel.yieldBreaks, hActive, Kernel.queueRef, hRef, hLink]
      · have hSame := hHeads (.runqueue p) (by simpa using hEq)
        exact (hBefore (hSame.symm.trans hAfter)).elim
  · cases hRest
    exact ⟨hM.setFlags, .status (.single (.same (fun _ => rfl) rfl))⟩

/- A blocked status of the running thread. -/
theorem blockActive
    {status : ThreadStatus} (op : SchedOp N) (hM : Managed cfg k)
    (hBlocks : op.blocks k = true) (hRunning : k.running cfg = some t)
    (hSet : Riot.schedSetStatus cfg k t status = some k') :
    Managed cfg k' ∧ QueueSteps cfg (op.Pops k) k k' := by
  rcases hM.running hRunning with ⟨hActive, hManaged⟩
  rcases hM.schedSetStatus hManaged hSet with ⟨hM₁, hSteps⟩
  refine ⟨hM₁, hSteps.mono ?_⟩
  rintro p ⟨_, rfl⟩
  exact ⟨hBlocks, t, hActive, rfl⟩

/- Waking a sleeping thread. -/
theorem threadWakeup
    {inIrq : Bool} {pid result : Int} (pops : Nat → Prop) (hM : Managed cfg k)
    (hWakeup : Riot.threadWakeup (Riot.schedSetStatus cfg) inIrq k pid = some (k', result)) :
    Managed cfg k' ∧ QueueSteps cfg pops k k' := by
  unfold Riot.threadWakeup at hWakeup
  split at hWakeup
  · cases hWakeup
    exact ⟨hM, .refl⟩
  · rename_i t hGet
    split at hWakeup
    · rename_i hSleeping
      have hManaged : IsManaged cfg k t := by
        unfold Kernel.threadGet at hGet
        split at hGet
        · rcases hM.threads pid t hGet with hMan | ⟨hOn, hEq⟩
          · exact hMan
          · -- The idle thread never sleeps.
            have hRunnable := (hM.idle hOn).status
            rw [← hEq, hSleeping] at hRunnable
            cases hRunnable
        · cases hGet
      rcases Option.bind_eq_some_iff.mp hWakeup with ⟨k₁, hSet, hRest⟩
      rcases Option.bind_eq_some_iff.mp hRest with ⟨k₂, hSwitch, hLast⟩
      cases hLast
      rcases hM.schedSetStatus hManaged hSet with ⟨hM₁, hSteps₁⟩
      rcases hM₁.schedSwitch hSwitch with ⟨hM₂, hSteps₂⟩
      exact ⟨hM₂, (hSteps₁.mono (fun _ h => nomatch h.1)).trans hSteps₂⟩
    · cases hWakeup
      exact ⟨hM, .refl⟩

/- Unlocking. -/
theorem mutexUnlock
    {inIrq : Bool} (pops : Nat → Prop) (hM : Managed cfg k)
    (hUnlock : Riot.mutexUnlock (Riot.schedSetStatus cfg) inIrq k mutex = some k') :
    Managed cfg k' ∧ QueueSteps cfg pops k k' := by
  rcases Option.bind_eq_some_iff.mp hUnlock with ⟨⟨k₁, next⟩, hRelease, hRest⟩
  rcases hM.mutexRelease hRelease with ⟨hM₁, hSteps₁, _⟩
  cases next with
  | none =>
    cases hRest
    exact ⟨hM₁, hSteps₁⟩
  | some process =>
    rcases hM₁.schedSwitch hRest with ⟨hM₂, hSteps₂⟩
    exact ⟨hM₂, hSteps₁.trans hSteps₂⟩

/- Unlocking and sleeping. -/
theorem mutexUnlockAndSleep
    (hM : Managed cfg k) (hRunning : k.running cfg = some t)
    (hSleep : Riot.mutexUnlockAndSleep (Riot.schedSetStatus cfg) k mutex = some k') :
    Managed cfg k' ∧ OpEffect cfg k (.mutexUnlockAndSleep mutex) k' := by
  rcases hM.running hRunning with ⟨hActive, hManaged⟩
  rcases Option.bind_eq_some_iff.mp hSleep with ⟨⟨k₁, next⟩, hRelease, hRest⟩
  rcases hM.mutexRelease hRelease with ⟨hM₁, hSteps₁, hSame, hPrio, hMan⟩
  rcases Option.bind_eq_some_iff.mp hRest with ⟨t', hSome, hRest₁⟩
  rw [hSame, hActive] at hSome
  cases hSome
  rcases Option.bind_eq_some_iff.mp hRest₁ with ⟨k₂, hSet, hLast⟩
  have hEnd : threadYieldHigher k₂ = k' := Option.some.inj hLast
  rw [← hEnd]
  have hManaged₁ : IsManaged cfg k₁ t := hMan t hManaged
  rcases hM₁.schedSetStatus hManaged₁ hSet with ⟨hM₂, hSteps₂⟩
  refine ⟨hM₂.setFlags, .status ?_⟩
  have hPopped : QueueSteps cfg (SchedOp.Pops k (.mutexUnlockAndSleep mutex)) k₁ k₂ := by
    apply hSteps₂.mono
    rintro p ⟨_, rfl⟩
    exact ⟨rfl, t, hActive, (hPrio t).symm⟩
  exact (hSteps₁.trans hPopped).congr (fun _ => rfl) rfl

/- Exiting. -/
theorem schedTaskExit
    (hM : Managed cfg k) (hRunning : k.running cfg = some t)
    (hExit : Riot.schedTaskExit cfg k = some k') :
    Managed cfg k' ∧ OpEffect cfg k .taskExit k' := by
  rcases hM.running hRunning with ⟨hActive, hManaged⟩
  rcases Option.bind_eq_some_iff.mp hExit with ⟨t', hSome, hRest⟩
  rw [hActive] at hSome
  cases hSome
  rcases Option.bind_eq_some_iff.mp hRest with ⟨k₁, hSet, hLast⟩
  have hEnd : threadYieldHigher { k₁ with schedActiveThread := none } = k' :=
    Option.some.inj hLast
  rw [← hEnd]
  have hM₁ := hM.unrecord (k.schedNumThreads - 1) hActive hManaged
  rcases hM₁.schedSetStatus hManaged hSet with ⟨hM₂, hSteps⟩
  refine ⟨hM₂.clearActive.setFlags, .status ?_⟩
  have hFirst : QueueSteps cfg (SchedOp.Pops k .taskExit) k
        { k with
          schedThreads := Function.update k.schedThreads k.schedActivePid none
          schedNumThreads := k.schedNumThreads - 1 } :=
    .single (.same (fun _ => rfl) rfl)
  have hPopped := hFirst.trans (hSteps.mono (fun p h => ⟨rfl, t, hActive, h.2.symm⟩))
  exact hPopped.congr (fun _ => rfl) rfl

/- Every operation. -/
theorem step
    (hM : Managed cfg k) (hSound : CacheSound cfg k) (hEnabled : op.Enabled cfg k)
    (hExec : op.exec cfg k = some k') :
    Managed cfg k' ∧ OpEffect cfg k op k' := by
  cases op with
  | threadCreate inIrq tcb priority flags sTime =>
    rcases Option.map_eq_some_iff.mp hExec with ⟨⟨k₁, result⟩, hCreate, rfl⟩
    have hNew : cfg.coreIdleThread = true → tcb ≠ cfg.idleStack := by
      rintro hOn rfl
      exact hEnabled.2 ⟨0, (hM.idle hOn).recorded⟩
    rcases hM.threadCreate
        (SchedOp.Pops k (.threadCreate inIrq tcb priority flags sTime))
        hNew hCreate with
      ⟨hM₁, hSteps⟩
    rcases endCall_eq inIrq k₁ with ⟨p, hEnd⟩
    rw [hEnd]
    exact ⟨hM₁.setFlags, .status (hSteps.congr (fun _ => rfl) rfl)⟩
  | timerTick => exact hM.schedRun hSound rfl hExec
  | pendsv => exact hM.schedRun hSound rfl hExec
  | idleReturn => exact hM.schedIdleReturn hSound hExec
  | threadYieldHigher =>
    cases hExec
    exact ⟨hM.setFlags, .status (.single (.same (fun _ => rfl) rfl))⟩
  | threadYield =>
    rcases Option.isSome_iff_exists.mp hEnabled with ⟨t, hRunning⟩
    exact hM.threadYield hRunning hExec
  | threadSleep =>
    rcases Option.isSome_iff_exists.mp hEnabled with ⟨t, hRunning⟩
    have hActive := (hM.running hRunning).1
    rcases Option.bind_eq_some_iff.mp hExec with ⟨t', hSome, hRest⟩
    rw [hActive] at hSome
    cases hSome
    rcases Option.bind_eq_some_iff.mp hRest with ⟨k₁, hSet, hLast⟩
    cases hLast
    rcases hM.blockActive .threadSleep rfl hRunning hSet with ⟨hM₁, hSteps⟩
    exact ⟨hM₁.setFlags, .status (hSteps.congr (fun _ => rfl) rfl)⟩
  | threadWakeup inIrq pid =>
    rcases Option.map_eq_some_iff.mp hExec with ⟨⟨k₁, result⟩, hWakeup, rfl⟩
    rcases endCall_eq inIrq k₁ with ⟨p, hEnd⟩
    rw [hEnd]
    have hBoth := hM.threadWakeup (SchedOp.Pops k (.threadWakeup inIrq pid)) hWakeup
    exact ⟨hBoth.1.setFlags, .status (hBoth.2.congr (fun _ => rfl) rfl)⟩
  | mutexLock mutex =>
    rcases Option.isSome_iff_exists.mp hEnabled with ⟨t, hRunning⟩
    rcases Option.map_eq_some_iff.mp hExec with ⟨⟨k₁, outcome⟩, hLock, rfl⟩
    rcases hM.mutexLockWith hRunning hLock with ⟨hM₁, hSteps⟩
    refine ⟨hM₁, .status (hSteps.mono ?_)⟩
    rintro p ⟨_, hTaken, rfl⟩
    exact ⟨by simpa [SchedOp.blocks] using hTaken, t, (hM.running hRunning).1, rfl⟩
  | mutexTrylock mutex =>
    rcases Option.isSome_iff_exists.mp hEnabled with ⟨t, hRunning⟩
    rcases Option.map_eq_some_iff.mp hExec with ⟨⟨k₁, outcome⟩, hLock, rfl⟩
    rcases hM.mutexLockWith hRunning hLock with ⟨hM₁, hSteps⟩
    exact ⟨hM₁, .status (hSteps.mono (fun _ h => nomatch h.1))⟩
  | mutexUnlock inIrq mutex =>
    rcases Option.map_eq_some_iff.mp hExec with ⟨k₁, hUnlock, rfl⟩
    rcases endCall_eq inIrq k₁ with ⟨p, hEnd⟩
    rw [hEnd]
    have hBoth := hM.mutexUnlock (SchedOp.Pops k (.mutexUnlock inIrq mutex)) hUnlock
    exact ⟨hBoth.1.setFlags, .status (hBoth.2.congr (fun _ => rfl) rfl)⟩
  | mutexUnlockAndSleep mutex =>
    rcases Option.isSome_iff_exists.mp hEnabled with ⟨t, hRunning⟩
    exact hM.mutexUnlockAndSleep hRunning hExec
  | taskExit =>
    rcases Option.isSome_iff_exists.mp hEnabled with ⟨t, hRunning⟩
    exact hM.schedTaskExit hRunning hExec

end Managed

----
-- Runs
----

variable {N : Nat} {cfg : Config N} {k : Kernel N}

/- Memory before `kernel_init`, without the idle thread. -/
theorem Managed.zero
    (hOff : cfg.coreIdleThread = false) :
    Managed cfg (Kernel.zero N) := by
  constructor
  · intro c _ e he
    cases he
  · intro pid t ht
    cases ht
  · intro t ht
    cases ht
  · intro hOn
    rw [hOff] at hOn
    cases hOn

/- The idle thread has been created. -/
theorem createIdleThread_managed
    (hOn : cfg.coreIdleThread = true)
    (hCreate : createIdleThread cfg (Kernel.zero N) = some k) :
    Managed cfg k ∧ k.runqueueBitcache = 0#32 ||| cfg.bitOrder.bit 15 ∧
      ∀ p, p ≠ 15 → k.queueRef p = .null := by
  have hFree : freePid (Kernel.zero N) = some 1 := rfl
  have hNull : ∀ c, (initThread (Kernel.zero N) cfg.idleStack 1 0).next c = .null := by
    intro c
    simp only [initThread, LinkMem.set, Function.update_apply]
    split
    · rfl
    · split <;> rfl
  have hPrio :
      ((initThread (Kernel.zero N) cfg.idleStack 1 0).thread cfg.idleStack).priority = 15 := by
    simp [initThread]
  have hStopped :
      ((initThread (Kernel.zero N) cfg.idleStack 1 0).thread cfg.idleStack).status = .stopped := by
    simp [initThread]
  unfold createIdleThread threadCreate at hCreate
  rw [if_pos hOn, if_neg (by decide), hFree] at hCreate
  dsimp only at hCreate
  rw [if_neg (by decide)] at hCreate
  rcases Option.map_eq_some_iff.mp hCreate with ⟨⟨k₁, result⟩, hRest, rfl⟩
  rcases Option.bind_eq_some_iff.mp hRest with ⟨k₂, hSet, hLast⟩
  rw [if_neg (by decide)] at hLast
  cases hLast
  rcases schedSetStatus_some hSet with ⟨hSame, _⟩ | ⟨_, mem, hPush, _, rfl⟩ | ⟨hOff, _⟩
  · rw [hStopped] at hSame
    cases hSame
  · rw [hPrio] at hPush
    unfold clistRpush at hPush
    rw [hNull] at hPush
    cases hPush
    rw [pushedKernel_eq, hPrio]
    dsimp only
    have hOther : ∀ c, c ≠ .head (.runqueue 15) → c ≠ .entry cfg.idleStack →
          ((initThread (Kernel.zero N) cfg.idleStack 1
              0).next.set (.entry cfg.idleStack) (.ref cfg.idleStack)).set
              (.head (.runqueue 15)) (.ref cfg.idleStack) c = .null := by
      intro c hHead hEntry
      rw [set_of_ne _ _ hHead, set_of_ne _ _ hEntry, hNull]
    constructor
    · constructor
      · intro c hc e he
        rcases hc hOn with ⟨hHead, hEntry⟩
        cases (hOther c hHead hEntry).symm.trans he
      · intro pid t ht
        by_cases hPid : pid = 1
        · have hIdle : cfg.idleStack = t := by
            simpa [initThread, hPid] using ht
          exact .inr ⟨hOn, hIdle.symm⟩
        · simp [initThread, Function.update_of_ne hPid, Kernel.zero] at ht
      · intro t ht
        cases ht
      · intro _
        constructor
        · simp [initThread]
        · simp only [Kernel.setStatus_status, if_true]
          rfl
        · simp
        · simp
        · intro t ht
          cases ht
        · rfl
    · refine ⟨rfl, ?_⟩
      intro p hp
      exact hOther (.head (.runqueue p)) (by simpa using hp) (by simp)
  · cases hOff

/-
  The state that `kernel_init` creates the main thread in:
  no queue has a node, or queue 15 has the idle thread.
-/
structure BeforeMain
    (cfg : Config N)
    (k : Kernel N) : Prop where
  managed : Managed cfg k
  cache : ∀ p < 32, cfg.bitOrder.test k.runqueueBitcache p = true ↔ k.queueRef p ≠ .null
  empty : ∀ p, p ≠ 15 → k.queueRef p = .null

/- With or without the idle thread. -/
theorem createIdleThread_beforeMain
    (hCreate : createIdleThread cfg (Kernel.zero N) = some k) :
    BeforeMain cfg k := by
  by_cases hOn : cfg.coreIdleThread = true
  · rcases createIdleThread_managed hOn hCreate with ⟨hM, hCache, hEmpty⟩
    refine ⟨hM, ?_, hEmpty⟩
    intro p hp
    rw [hCache, cfg.bitOrder.test_or_bit _ (by decide) hp, cfg.bitOrder.test_zero, Bool.false_or]
    by_cases hEq : p = 15
    · subst hEq
      have hHead : k.queueRef 15 = .ref cfg.idleStack := (hM.idle hOn).head
      simp [hHead]
    · simp [hEq, hEmpty p hEq]
  · unfold createIdleThread at hCreate
    rw [if_neg hOn] at hCreate
    cases hCreate
    refine ⟨.zero (Bool.eq_false_of_not_eq_true hOn), ?_, fun _ _ => rfl⟩
    intro p _
    constructor
    · intro hTest
      cases (cfg.bitOrder.test_zero p).symm.trans hTest
    · intro hRef
      exact (hRef rfl).elim

/- Creating the main thread. -/
theorem kernelInit_some
    (hInit : kernelInit cfg = some k) :
    Managed cfg k ∧ ∃ k₁, BeforeMain cfg k₁ ∧ QueueSteps cfg (fun _ => False) k₁ k := by
  unfold kernelInit at hInit
  rcases Option.bind_eq_some_iff.mp hInit with ⟨k₁, hFirst, hRest⟩
  rcases Option.bind_eq_some_iff.mp hRest with ⟨⟨k₂, result⟩, hMain, hLast⟩
  cases hLast
  have hBefore := createIdleThread_beforeMain hFirst
  rcases hBefore.managed.threadCreate (fun _ => False)
      (fun _ => Ne.symm cfg.stacks_ne) hMain with
    ⟨hM₁, hSteps⟩
  exact ⟨hM₁.setFlags, k₁, hBefore, hSteps.congr (fun _ => rfl) rfl⟩

/- What holds when `kernel_init` is done. -/
theorem kernelInit_managed
    (hInit : kernelInit cfg = some k) :
    Managed cfg k ∧ CacheSound cfg k := by
  rcases kernelInit_some hInit with ⟨hM, k₁, hBefore, hSteps⟩
  refine ⟨hM, ?_⟩
  apply hSteps.invariant (fun _ _ hStep => hStep.cacheSound)
  constructor
  · intro p hp hTest
    right
    by_contra hNe
    exact (hBefore.cache p hp).mp hTest (hBefore.empty p hNe)
  · exact (hBefore.cache 1 (by decide)).mpr

/- Every run keeps both. -/
theorem managed_of_reachable
    {ok : Kernel N → SchedOp N → Prop}
    (hReach : (schedSystem cfg).ReachableVia ok k) :
    Managed cfg k ∧ CacheSound cfg k := by
  apply hReach.invariant
  · intro s hInit
    exact kernelInit_managed hInit
  · rintro s op s' ⟨hM, hSound⟩ _ hEnabled hExec
    rcases hM.step hSound hEnabled hExec with ⟨hM', hEffect⟩
    exact ⟨hM', hEffect.cacheSound hSound⟩

end Riot
