import Riot.Scheduler.Managed

/-
  The functions of the scheduler on memory that need not
  hold any list: each keeps `Managed`, and what it does to
  the references of the run queues and to the cache.
-/

----
-- Rotations
----

namespace Riot

open LinkMem

variable {N : Nat} {mem mem' mem'' : LinkMem (ListHead N) (Fin N)}

/- Queue 1 has been advanced some number of times. -/
structure Turned
    (mem mem' : LinkMem (ListHead N) (Fin N)) : Prop where
  other : ∀ c, c ≠ .head (.runqueue 1) → mem' c = mem c
  confined :
    ∀ r : Region (ListHead N) (Fin N),
      r.cells (.head (.runqueue 1)) → r.Confined mem → r.Confined mem'
  circular :
    ∀ l, IsCircular mem (.runqueue 1) l →
      ∃ l', IsCircular mem' (.runqueue 1) l' ∧ l'.length = l.length

namespace Turned

/- No turn. -/
theorem refl :
    Turned mem mem :=
  ⟨fun _ _ => rfl, fun _ _ h => h, fun l h => ⟨l, h, rfl⟩⟩

/- Turns compose. -/
theorem trans
    (hLeft : Turned mem mem') (hRight : Turned mem' mem'') :
    Turned mem mem'' := by
  constructor
  · intro c hNe
    rw [hRight.other c hNe, hLeft.other c hNe]
  · intro r hCell hConf
    exact hRight.confined r hCell (hLeft.confined r hCell hConf)
  · intro l hCirc
    rcases hLeft.circular l hCirc with ⟨l₁, hCirc₁, hLen₁⟩
    rcases hRight.circular l₁ hCirc₁ with ⟨l₂, hCirc₂, hLen₂⟩
    exact ⟨l₂, hCirc₂, hLen₂.trans hLen₁⟩

/- One turn. -/
theorem of_lpoprpush
    (hTurn : clistLpoprpush mem (.runqueue 1) = some mem') :
    Turned mem mem' := by
  constructor
  · intro c hNe
    unfold clistLpoprpush at hTurn
    split at hTurn
    · cases hTurn
      rfl
    · cases hTurn
    · cases hTurn
      exact set_of_ne _ _ hNe
  · intro r hCell hConf
    exact (clistLpoprpush_within hConf hCell hTurn).1.1
  · intro l hCirc
    rcases clistLpoprpush_spec hCirc with ⟨mem₁, hEq, hCirc₁, _⟩
    rw [hEq] at hTurn
    cases hTurn
    exact ⟨_, hCirc₁, List.length_rotate _ _⟩

/- The inner debug loop. -/
theorem of_rotateFor
    {i fuel j : Nat} (hLoop : rotateFor i fuel j mem = some mem') :
    Turned mem mem' := by
  induction fuel generalizing j mem with
  | zero => cases hLoop
  | succ fuel ih =>
    unfold rotateFor at hLoop
    rcases Option.bind_eq_some_iff.mp hLoop with ⟨count, _, hRest⟩
    split at hRest
    · rcases Option.bind_eq_some_iff.mp hRest with ⟨mem₁, hTurn, hMore⟩
      exact (of_lpoprpush hTurn).trans (ih hMore)
    · cases hRest
      exact .refl

/- The debug loop over all run queues. -/
theorem of_rotateRunqueues
    (hLoop : rotateRunqueues mem = some mem') :
    Turned mem mem' := by
  unfold rotateRunqueues at hLoop
  generalize List.range schedPrioLevels = is at hLoop
  induction is generalizing mem with
  | nil =>
    cases hLoop
    exact .refl
  | cons i is ih =>
    rw [List.foldlM_cons] at hLoop
    rcases Option.bind_eq_some_iff.mp hLoop with ⟨mem₁, hOne, hRest⟩
    rcases Option.bind_eq_some_iff.mp hOne with ⟨count, _, hTurns⟩
    have hFirst : Turned mem mem₁ := by
      split at hTurns
      · exact of_rotateFor hTurns
      · cases hTurns
        exact .refl
    exact hFirst.trans (ih hRest)

end Turned

----
-- Scheduler Runs
----

variable {N : Nat} {cfg : Config N} {k k' : Kernel N}

/-
  The cache has no bit but those of priorities 1 and 15, and
  it has the bit of a nonempty queue 1.
-/
structure CacheSound
    (cfg : Config N)
    (k : Kernel N) : Prop where
  bits : ∀ p < 32, cfg.bitOrder.test k.runqueueBitcache p = true → p = 1 ∨ p = 15
  served : k.queueRef 1 ≠ .null → cfg.bitOrder.test k.runqueueBitcache 1 = true

/- The next `sched_run` drops the only node of queue 1. -/
def Kernel.evictsLast
    (k : Kernel N) : Bool :=
  k.expiresNext && (k.runqueue 1).length == 1

/- With a sound cache, queue 1 is served while it has nodes. -/
theorem CacheSound.nextRunqueue_eq
    {l : List (Fin N)} (hCache : CacheSound cfg k)
    (hCirc : IsCircular k.next (.runqueue 1) l) :
    nextRunqueue cfg k = some (if l = [] then 15 else 1) := by
  unfold nextRunqueue
  rw [clistCount_eq hCirc (length_le_of_nodup hCirc.1)]
  by_cases hNil : l = []
  · simp [hNil]
  · have hRef : k.queueRef 1 ≠ .null := fun hNull => hNil (hCirc.eq_nil_iff.mpr hNull)
    have hRead : getPrioQueueFromRunqueue cfg.bitOrder k.runqueueBitcache = some 1 := by
      apply getPrioQueueFromRunqueue_eq _ (by decide) (hCache.served hRef)
      intro p hp
      apply Bool.eq_false_of_not_eq_true
      intro hTest
      rcases hCache.bits p (by omega) hTest with h | h <;> omega
    simp [hNil, hRead]

/- The expiry test pops queue 1 or does nothing. -/
theorem expireNext_some
    {activeThread : Option (Fin N)} {t : Fin N} {popped : LinkMem (ListHead N) (Fin N)}
    (hExpire : expireNext k activeThread t = some popped) :
    (serviceTimeFired k activeThread t = true ∧
        ∃ first, clistLpop k.next (.runqueue 1) = some (popped, first)) ∨
      (serviceTimeFired k activeThread t = false ∧ popped = k.next) := by
  unfold expireNext at hExpire
  split at hExpire
  · rename_i hFired
    rcases Option.map_eq_some_iff.mp hExpire with ⟨⟨mem, first⟩, hPop, hEq⟩
    cases hEq
    exact .inl ⟨hFired, first, hPop⟩
  · rename_i hNot
    cases hExpire
    exact .inr ⟨Bool.eq_false_of_not_eq_true hNot, rfl⟩

/- What a `sched_run` does to the references and the cache. -/
theorem schedRunFrom_refs
    {activeThread previousThread : Option (Fin N)}
    (hArgs : activeThread = none ∨ activeThread = previousThread)
    (hActive : activeThread = none ∨ activeThread = k.schedActiveThread)
    (hCache : CacheSound cfg k)
    (hRun : schedRunFrom cfg k activeThread previousThread = some k') :
    k'.runqueueBitcache = k.runqueueBitcache ∧ (∀ p, p ≠ 1 → k'.queueRef p = k.queueRef p) ∧
      (k.queueRef 1 = .null → k'.queueRef 1 = .null) ∧
      (k'.queueRef 1 = .null → k.queueRef 1 ≠ .null →
        activeThread ≠ none ∧ k.evictsLast = true) := by
  rcases schedRunFrom_some hRun with ⟨nextrq, t, popped, mem, hQueue, hFirst, hExpire, hRotate, rfl⟩
  have hNext : (switchedKernel k activeThread previousThread t).next = k.next := by
    rw [switchedKernel_eq hArgs]
  have hTurned := Turned.of_rotateRunqueues hRotate
  -- The count of queue 1 returned, so it is a circular list.
  have hCount : ∃ l, IsCircular k.next (.runqueue 1) l := by
    rcases Option.bind_eq_some_iff.mp hQueue with ⟨n, hn, _⟩
    rcases clistCount_some hn with ⟨l, hCirc, _⟩
    exact ⟨l, hCirc⟩
  rcases hCount with ⟨l, hCirc⟩
  have hNull := hCirc.eq_nil_iff
  rw [hCache.nextRunqueue_eq hCirc] at hQueue
  refine ⟨?_, ?_, ?_, ?_⟩
  · simp only [finishRun]
    rw [switchedKernel_eq hArgs]
  · intro p hNe
    have hMem : mem (.head (.runqueue p)) = popped (.head (.runqueue p)) :=
      hTurned.other _ (by simpa using hNe)
    have hPop : popped (.head (.runqueue p)) = k.next (.head (.runqueue p)) := by
      rcases expireNext_some hExpire with ⟨_, first, hPop⟩ | ⟨_, rfl⟩
      · rw [hNext] at hPop
        rcases clistLpop_spec hCirc with ⟨mem₁, hEq, _, hHeads, _⟩
        rw [hEq] at hPop
        cases hPop
        exact hHeads _ (by simpa using hNe)
      · rw [hNext]
    exact hMem.trans hPop
  · intro hEmpty
    have hNil : l = [] := hNull.mpr hEmpty
    subst hNil
    have hPopped : IsCircular popped (.runqueue 1) [] := by
      rcases expireNext_some hExpire with ⟨_, first, hPop⟩ | ⟨_, rfl⟩
      · rw [hNext] at hPop
        rcases clistLpop_spec hCirc with ⟨mem₁, hEq, hCirc₁, _⟩
        rw [hEq] at hPop
        cases hPop
        exact hCirc₁
      · rw [hNext]
        exact hCirc
    rcases hTurned.circular [] hPopped with ⟨l', hCirc', hLen⟩
    have hNil' : l' = [] := List.length_eq_zero_iff.mp hLen
    subst hNil'
    exact IsCircular.nil_iff.mp hCirc'
  · intro hEmpty hBefore
    have hNe : l ≠ [] := fun hNil => hBefore (hNull.mp hNil)
    have hLost : ∀ l', IsCircular popped (.runqueue 1) l' → l' = [] := by
      intro l' hCirc'
      rcases hTurned.circular l' hCirc' with ⟨l'', hCirc'', hLen⟩
      have hNil : l'' = [] := hCirc''.eq_nil_iff.mpr hEmpty
      rw [hNil] at hLen
      exact List.length_eq_zero_iff.mp hLen.symm
    rcases expireNext_some hExpire with ⟨hFired, first, hPop⟩ | ⟨_, rfl⟩
    · rw [hNext] at hPop
      rcases clistLpop_spec hCirc with ⟨mem₁, hEq, hCirc₁, _⟩
      rw [hEq] at hPop
      cases hPop
      have hTail := hLost _ hCirc₁
      rw [serviceTimeFired_switchedKernel hArgs] at hFired
      rcases (Option.any_eq_true _ _).mp hFired with ⟨active, hSome, hBoth⟩
      simp only [Bool.and_eq_true] at hBoth
      refine ⟨by simp [hSome], ?_⟩
      have hNodes : k.runqueue 1 = l := hCirc.circularNodes_eq (length_le_of_nodup hCirc.1)
      rw [if_neg hNe] at hQueue
      cases hQueue
      rw [clistFirst_eq hCirc] at hFirst
      have hThread : k.schedActiveThread = some active := by
        rcases hActive with hNone | hSame
        · rw [hNone] at hSome
          cases hSome
        · rw [← hSame, hSome]
      rw [hSome] at hBoth
      unfold Kernel.evictsLast Kernel.expiresNext
      rw [hNodes, hFirst, hThread]
      have hOne : l.length = 1 := by
        cases l with
        | nil => exact (hNe rfl).elim
        | cons x rest =>
          have hRest : rest = [] := hTail
          simp [hRest]
      simp [hBoth.1, hBoth.2, hOne]
    · rw [hNext] at hLost
      exact (hNe (hLost l hCirc)).elim

----
-- Operations
----

variable {N : Nat}

namespace Managed

variable {cfg : Config N} {k k' : Kernel N} {t tcb : Fin N} {mutex : Nat}
variable {pops : Nat → Prop}

/- The first node of a run queue is managed, or idle. -/
theorem clistFirst
    {p : Nat} (hM : Managed cfg k)
    (hFirst : Riot.clistFirst k.next (.runqueue p) = some t) :
    IsManaged cfg k t ∨ IsIdle cfg t := by
  unfold Riot.clistFirst at hFirst
  split at hFirst
  · rename_i last hLast
    split at hFirst
    · rename_i first hEntry
      cases hFirst
      by_cases hOut : cfg.coreIdleThread = true ∧ p = 15
      · -- Queue 15 of a build with the idle thread.
        right
        rcases hOut with ⟨hOn, rfl⟩
        have hReady := hM.idle hOn
        rw [hReady.head] at hLast
        cases hLast
        rw [hReady.entry] at hEntry
        cases hEntry
        exact ⟨hOn, rfl⟩
      · left
        have hCell : (managedRegion cfg k).cells (.head (.runqueue p)) := by
          intro hOn
          refine ⟨?_, by simp⟩
          simp only [ne_eq, Cell.head.injEq, ListHead.runqueue.injEq]
          exact fun hp => hOut ⟨hOn, hp⟩
        exact hM.confined.next hCell hLast hEntry
    · cases hFirst
  · cases hFirst

/- A `sched_run` that returns. -/
theorem schedRunFrom
    {activeThread previousThread : Option (Fin N)} (hM : Managed cfg k)
    (hArgs : activeThread = none ∨ activeThread = previousThread)
    (hRun : Riot.schedRunFrom cfg k activeThread previousThread = some k') :
    Managed cfg k' := by
  rcases schedRunFrom_some hRun with ⟨nextrq, t, popped, mem, _, hFirst, hExpire, hRotate, rfl⟩
  have hNext : (switchedKernel k activeThread previousThread t).next = k.next := by
    rw [switchedKernel_eq hArgs]
  have hCell : (managedRegion cfg k).cells (.head (.runqueue 1)) := fun _ => ⟨by simp, by simp⟩
  have hPopped : (managedRegion cfg k).Within k.next popped := by
    rcases expireNext_some hExpire with ⟨_, first, hPop⟩ | ⟨_, rfl⟩
    · rw [hNext] at hPop
      exact (clistLpop_within hM.confined hCell hPop).1
    · rw [hNext]
      exact .refl hM.confined
  have hTurned := Turned.of_rotateRunqueues hRotate
  have hWithin : (managedRegion cfg k).Within k.next mem := by
    refine ⟨hTurned.confined _ hCell hPopped.1, ?_⟩
    intro c hNot
    rw [hTurned.other c (fun hEq => hNot (hEq ▸ hCell))]
    exact hPopped.2 c hNot
  have hManaged := hM.clistFirst hFirst
  rw [switchedKernel_eq hArgs]
  refine hM.transfer hWithin (fun _ => rfl) (fun _ => rfl) rfl ?_ ?_
  · intro u hu
    simp only [finishRun] at hu
    split at hu
    · exact hM.active u hu
    · cases hu
      exact hManaged
  · intro hOn
    have hReady := hM.idle hOn
    refine ⟨?_, hReady.frames, ?_⟩
    · simp only [finishRun, statusAfterSwitch_onRunqueue, hReady.status, Bool.or_true]
    · intro u hu hNe
      simp only [finishRun] at hu ⊢
      by_cases hStay : previousThread = some t
      · rw [if_pos hStay] at hu ⊢
        exact hReady.activePid u hu hNe
      · rw [if_neg hStay] at hu ⊢
        cases hu
        rcases hManaged with hMan | ⟨_, hEq⟩
        · exact (hMan.2 hOn).2
        · exact (hNe hEq).elim

/- Filling in the control block of a new thread. -/
theorem initThread
    {pid : Int} (sTime : Int) (hM : Managed cfg k)
    (hFree : k.schedThreads pid = none)
    (hNew : cfg.coreIdleThread = true → tcb ≠ cfg.idleStack) :
    Managed cfg (Riot.initThread k tcb pid sTime) ∧
      IsManaged cfg (Riot.initThread k tcb pid sTime) tcb := by
  have hSelf : IsManaged cfg (Riot.initThread k tcb pid sTime) tcb := by
    have hPid : cfg.coreIdleThread = true → pid ≠ 1 := by
      rintro hOn rfl
      rw [(hM.idle hOn).recorded] at hFree
      cases hFree
    unfold IsManaged Riot.initThread
    simp only [Function.update_self]
    refine ⟨?_, fun hOn => ⟨hNew hOn, hPid hOn⟩⟩
    by_cases hOne : pid = 1
    · right
      simp only [hOne, if_true, and_true]
      apply Bool.eq_false_of_not_eq_true
      exact fun hOn => hPid hOn hOne
    · left
      simp [hOne]
  have hThread : ∀ u, u ≠ tcb → (Riot.initThread k tcb pid sTime).thread u = k.thread u :=
    fun u hu => Function.update_of_ne hu _ _
  have hKeep : ∀ u, IsManaged cfg k u → IsManaged cfg (Riot.initThread k tcb pid sTime) u := by
    intro u hu
    by_cases hEq : u = tcb
    · rw [hEq]
      exact hSelf
    · unfold IsManaged
      rw [hThread u hEq]
      exact hu
  refine ⟨⟨?_, ?_, ?_, ?_⟩, hSelf⟩
  · intro c hc e he
    rcases set_ref he with hNull | hRest
    · cases hNull
    · rcases set_ref hRest with hNull | hOld
      · cases hNull
      · exact hKeep e (hM.confined c hc e hOld)
  · intro pid' u hu
    by_cases hPid : pid' = pid
    · have hTcb : u = tcb := by
        simpa [Riot.initThread, hPid, eq_comm] using hu
      rw [hTcb]
      exact .inl hSelf
    · have hOld : k.schedThreads pid' = some u := by
        simpa [Riot.initThread, Function.update_of_ne hPid] using hu
      exact (hM.threads pid' u hOld).imp_left (hKeep u)
  · intro u hu
    exact (hM.active u hu).imp_left (hKeep u)
  · intro hOn
    have hReady := hM.idle hOn
    have hNe : cfg.idleStack ≠ tcb := Ne.symm (hNew hOn)
    have hPid : (1 : Int) ≠ pid := by
      rintro rfl
      rw [hReady.recorded] at hFree
      cases hFree
    constructor
    · simp only [Riot.initThread]
      rw [Function.update_of_ne hPid]
      exact hReady.recorded
    · rw [hThread _ hNe]
      exact hReady.status
    · simp only [Riot.initThread]
      rw [set_of_ne _ _ (by simp), set_entry_head]
      exact hReady.head
    · simp only [Riot.initThread]
      rw [set_head_entry, set_of_ne _ _ (by simpa using hNe)]
      exact hReady.entry
    · exact hReady.activePid
    · exact hReady.frames

/- A yield from `sched_switch`. -/
theorem schedSwitch
    {inIrq : Bool} {otherPrio : Nat} (hM : Managed cfg k)
    (hSwitch : Riot.schedSwitch inIrq k otherPrio = some k') :
    Managed cfg k' ∧ QueueSteps cfg pops k k' := by
  rcases schedSwitch_some hSwitch with ⟨c, p, rfl⟩
  exact ⟨hM.setFlags, .single (.same (fun _ => rfl) rfl)⟩

/- Creating a thread. -/
theorem threadCreate
    {inIrq : Bool} {priority flags : Nat} {sTime result : Int} (pops : Nat → Prop)
    (hM : Managed cfg k) (hNew : cfg.coreIdleThread = true → tcb ≠ cfg.idleStack)
    (hCreate : Riot.threadCreate (Riot.schedSetStatus cfg) inIrq k tcb
        priority flags sTime = some (k', result)) :
    Managed cfg k' ∧ QueueSteps cfg pops k k' := by
  unfold Riot.threadCreate at hCreate
  split at hCreate
  · cases hCreate
    exact ⟨hM, .refl⟩
  · split at hCreate
    · cases hCreate
      exact ⟨hM, .refl⟩
    · rename_i pid hFree
      rcases hM.initThread sTime (freePid_some hFree).1 hNew with ⟨hM₁, hTcb⟩
      have hInit : QueueSteps cfg pops k (Riot.initThread k tcb pid sTime) := by
        refine .single (.same ?_ rfl)
        intro p
        simp only [Kernel.queueRef, Riot.initThread]
        rw [set_of_ne _ _ (by simp), set_entry_head]
      dsimp only at hCreate
      split at hCreate
      · have hStopped :
            ((Riot.initThread k tcb pid sTime).thread tcb).status.onRunqueue = false := by
          simp only [Riot.initThread, Function.update_self]
          rfl
        rw [schedSetStatus_keep_off rfl hStopped] at hCreate
        cases hCreate
        exact ⟨hM₁.setStatus hTcb (.refl hM₁.confined), hInit.congr (fun _ => rfl) rfl⟩
      · rcases Option.bind_eq_some_iff.mp hCreate with ⟨k₂, hSet, hRest⟩
        rcases hM₁.schedSetStatus hTcb hSet with ⟨hM₂, hSteps⟩
        have hSteps₂ : QueueSteps cfg pops k k₂ :=
          hInit.trans (hSteps.mono (fun _ h => by cases h.1))
        split at hRest
        · rcases Option.bind_eq_some_iff.mp hRest with ⟨k₃, hSwitch, hLast⟩
          cases hLast
          rcases hM₂.schedSwitch hSwitch with ⟨hM₃, hSteps₃⟩
          exact ⟨hM₃, hSteps₂.trans hSteps₃⟩
        · cases hRest
          exact ⟨hM₂, hSteps₂⟩

/- A wait list becomes free or marked. -/
theorem setWaiting
    {v : Link (Fin N)} (pops : Nat → Prop) (h : WaitHead N) (hM : Managed cfg k)
    (hv : v = .null ∨ v = .mark) :
    Managed cfg { k with next := k.next.set (.head (.waiting h)) v } ∧ QueueSteps cfg pops k
        { k with
          next := k.next.set (.head (.waiting h)) v } := by
  constructor
  · apply hM.setNext
    apply (Region.Within.refl hM.confined).set (waiting_cells cfg k h)
    rintro e rfl
    rcases hv with hNull | hMark
    · cases hNull
    · cases hMark
  · refine .single (.same ?_ rfl)
    intro p
    simp only [Kernel.queueRef]
    exact set_of_ne _ _ (by simp)

/- A caller enters the queue of a mutex. -/
theorem mutexEnqueue
    (hM : Managed cfg k) (hManaged : IsManaged cfg k t)
    (hEnqueue : Riot.mutexEnqueue k mutex t = some k') :
    Managed cfg k' ∧ QueueSteps cfg pops k k' := by
  have hHead := waiting_cells cfg k (.mutexQueue mutex)
  unfold Riot.mutexEnqueue at hEnqueue
  dsimp only at hEnqueue
  split at hEnqueue
  · cases hEnqueue
    constructor
    · apply hM.setNext
      apply ((Region.Within.refl hM.confined).set hHead ?_).set
        ((managedRegion cfg k).entry_cells t hManaged) ?_
      · intro e he
        cases he
        exact hManaged
      · intro e he
        cases he
    · refine .single (.same ?_ rfl)
      intro p
      simp only [Kernel.queueRef]
      rw [set_entry_head, set_of_ne _ _ (by simp)]
  · unfold threadAddToList at hEnqueue
    split at hEnqueue
    · cases hEnqueue
    · rcases Option.bind_eq_some_iff.mp hEnqueue with ⟨mem, hAdd, hRest⟩
      cases hRest
      rcases threadAddToListFrom_within _ hM.confined hHead hManaged hAdd with ⟨hWithin, hHeads⟩
      refine ⟨hM.setNext hWithin, .single (.same ?_ rfl)⟩
      intro p
      exact hHeads _ (by simp)

/- The first waiter of a mutex is woken. -/
theorem mutexWakeFirst
    {process : Fin N} (hM : Managed cfg k)
    (hWake : Riot.mutexWakeFirst (Riot.schedSetStatus cfg) k mutex = some (k', process)) :
    Managed cfg k' ∧ QueueSteps cfg pops k k' ∧ k'.schedActiveThread = k.schedActiveThread ∧
      (∀ u, (k'.thread u).priority = (k.thread u).priority) ∧
      ∀ u, IsManaged cfg k u → IsManaged cfg k' u := by
  have hHead := waiting_cells cfg k (.mutexQueue mutex)
  unfold Riot.mutexWakeFirst at hWake
  rcases Option.bind_eq_some_iff.mp hWake with ⟨⟨mem, next⟩, hRemove, hRest⟩
  rcases listRemoveHead_within hM.confined hHead hRemove with ⟨hWithin, hNext, hHeads, _⟩
  rcases Option.bind_eq_some_iff.mp hRest with ⟨process', hSome, hRest₁⟩
  rcases Option.bind_eq_some_iff.mp hRest₁ with ⟨k₁, hSet, hLast⟩
  have hManaged : IsManaged cfg k process' := hNext _ hSome
  have hM₁ := hM.setNext hWithin
  rcases hM₁.schedSetStatus hManaged hSet with ⟨hM₂, hSteps⟩
  have hSteps₂ : QueueSteps cfg pops k k₁ := by
    have hFirst : QueueSteps cfg pops k { k with next := mem } :=
      .single (.same (fun p => hHeads _ (by simp)) rfl)
    exact hFirst.trans (hSteps.mono (fun _ h => by cases h.1))
  have hFrame : k₁.schedActiveThread = k.schedActiveThread ∧
        (∀ u, (k₁.thread u).priority = (k.thread u).priority) ∧
        ∀ u, IsManaged cfg k u → IsManaged cfg k₁ u := by
    rcases schedSetStatus_frame hSet with ⟨_, _, rfl⟩
    refine ⟨rfl, fun u => Kernel.setStatus_priority _ _ _ _, ?_⟩
    intro u hu
    exact
      (IsManaged.congr (Kernel.setStatus_priority _ _ _ _) (Kernel.setStatus_pid _ _ _ _)).mpr hu
  split at hLast
  · cases hLast
    rcases hM₂.setWaiting pops (.mutexQueue mutex) (.inr rfl) with ⟨hM₃, hSteps₃⟩
    exact ⟨hM₃, hSteps₂.trans hSteps₃, hFrame⟩
  · cases hLast
    exact ⟨hM₂, hSteps₂, hFrame⟩

/- A mutex is freed or handed over. -/
theorem mutexRelease
    {next : Option (Fin N)} (hM : Managed cfg k)
    (hRelease : Riot.mutexRelease (Riot.schedSetStatus cfg) k mutex = some (k', next)) :
    Managed cfg k' ∧ QueueSteps cfg pops k k' ∧ k'.schedActiveThread = k.schedActiveThread ∧
      (∀ u, (k'.thread u).priority = (k.thread u).priority) ∧
      ∀ u, IsManaged cfg k u → IsManaged cfg k' u := by
  unfold Riot.mutexRelease at hRelease
  dsimp only at hRelease
  split at hRelease
  · cases hRelease
    exact ⟨hM, .refl, rfl, fun _ => rfl, fun _ h => h⟩
  · split at hRelease
    · cases hRelease
      rcases hM.setWaiting pops (.mutexQueue mutex) (.inl rfl) with ⟨hM₁, hSteps₁⟩
      exact ⟨hM₁, hSteps₁, rfl, fun _ => rfl, fun _ h => h⟩
    · rcases Option.map_eq_some_iff.mp hRelease with ⟨⟨k₁, process⟩, hWake, hPair⟩
      cases hPair
      exact hM.mutexWakeFirst hWake

/- Locking, with or without blocking. -/
theorem mutexLockWith
    {blocking : Bool} {outcome : Outcome} (hM : Managed cfg k)
    (hRunning : k.running cfg = some t)
    (hLock : Riot.mutexLockWith (Riot.schedSetStatus cfg) k mutex blocking = some (k', outcome)) :
    Managed cfg k' ∧ QueueSteps cfg (fun p =>
          blocking = true ∧ k.next (.head (.waiting (.mutexQueue mutex))) ≠ .null ∧
            p = (k.thread t).priority)
        k k' := by
  rcases hM.running hRunning with ⟨hActive, hManaged⟩
  unfold Riot.mutexLockWith at hLock
  dsimp only at hLock
  split at hLock
  · cases hLock
    exact hM.setWaiting _ (.mutexQueue mutex) (.inr rfl)
  · rename_i hTaken
    split at hLock
    · rename_i hBlocking
      simp only [hActive, Option.bind_eq_bind, Option.bind_some] at hLock
      rcases Option.bind_eq_some_iff.mp hLock with ⟨k₁, hSet, hRest⟩
      rcases Option.bind_eq_some_iff.mp hRest with ⟨k₂, hEnqueue, hLast⟩
      cases hLast
      rcases hM.schedSetStatus hManaged hSet with ⟨hM₁, hSteps₁⟩
      have hManaged₁ : IsManaged cfg k₁ t := by
        rcases schedSetStatus_frame hSet with ⟨_, _, rfl⟩
        exact (IsManaged.congr (Kernel.setStatus_priority _ _ _ _)
            (Kernel.setStatus_pid _ _ _ _)).mpr hManaged
      rcases hM₁.mutexEnqueue hManaged₁ hEnqueue with ⟨hM₂, hSteps₂⟩
      refine ⟨hM₂.setFlags, ?_⟩
      have hPopped : QueueSteps cfg
            (fun p =>
              blocking = true ∧ k.next (.head (.waiting (.mutexQueue mutex))) ≠ .null ∧
                p = (k.thread t).priority)
            k k₁ :=
        hSteps₁.mono (fun _ h => ⟨hBlocking, hTaken, h.2⟩)
      exact (hPopped.trans hSteps₂).congr (fun _ => rfl) rfl
    · cases hLock
      exact ⟨hM, .refl⟩

/- An exiting thread gives up its pid. -/
theorem unrecord
    (num : Int) (hM : Managed cfg k) (hActive : k.schedActiveThread = some t)
    (hManaged : IsManaged cfg k t) :
    Managed cfg { k with
        schedThreads := Function.update k.schedThreads k.schedActivePid none
        schedNumThreads := num } := by
  constructor
  · exact hM.confined
  · intro pid u hu
    by_cases hEq : pid = k.schedActivePid
    · simp [hEq] at hu
    · dsimp only at hu
      rw [Function.update_of_ne hEq] at hu
      exact hM.threads pid u hu
  · exact hM.active
  · intro hOn
    have hReady := hM.idle hOn
    refine ⟨?_, hReady.status, hReady.head, hReady.entry, hReady.activePid, hReady.frames⟩
    have hNe := hReady.activePid t hActive (hManaged.2 hOn).1
    dsimp only
    rw [Function.update_of_ne (Ne.symm hNe)]
    exact hReady.recorded

/- The CPU is left without a thread. -/
theorem clearActive
    (hM : Managed cfg k) :
    Managed cfg { k with schedActiveThread := none } := by
  refine
    hM.transfer (.refl hM.confined) (fun _ => rfl) (fun _ => rfl) rfl (fun _ h => by cases h) ?_
  intro hOn
  have hReady := hM.idle hOn
  exact ⟨hReady.status, hReady.frames, fun _ h => by cases h⟩

end Managed

end Riot
