import Riot.Scheduler.Agreement

/-
  Agreement of status and run queues over whole runs.

  `AgreementStep` is the condition on a step: a thread that
  blocks is the first of its run queue, and `sched_run`
  finds no expired thread at the head of queue 1.  Runs of
  such steps keep the agreement; without the condition it
  is lost.
-/

----
-- Creation
----

namespace Riot

variable {N : Nat}

namespace Agrees

variable {cfg : Config N} {k k' : Kernel N} {q : Nat → List (Fin N)}
variable {w : WaitHead N → List (Fin N)} {tcb : Fin N}

/- Filling in the control block of a new thread. -/
theorem initThread
    {pid : Int} (sTime : Int) (hA : Agrees cfg k q w) (hFree : freePid k = some pid)
    (hNew : ¬ k.Recorded tcb) :
    Agrees cfg (Riot.initThread k tcb pid sTime) q w := by
  have hOff := hA.unlinked_of_not_recorded hNew
  have hRec : ∀ u, (Riot.initThread k tcb pid sTime).Recorded u → u ≠ tcb → k.Recorded u := by
    intro u hu hNe
    rcases (recorded_initThread_iff hFree).mp hu with hEq | hOld
    · exact (hNe hEq).elim
    · exact hOld
  have hKeep :
      ∀ u, k.Recorded u → (Riot.initThread k tcb pid sTime).Recorded u :=
    fun u hu => (recorded_initThread_iff hFree).mpr (.inr hu)
  have hNe : ∀ u, k.Recorded u → u ≠ tcb := by
    rintro u hu rfl
    exact hNew hu
  have hThread :
      ∀ u, u ≠ tcb → (Riot.initThread k tcb pid sTime).thread u = k.thread u :=
    fun u hu => Function.update_of_ne hu _ _
  have hSelf :
      (Riot.initThread k tcb pid sTime).thread tcb =
        { status := .stopped
          priority := if pid = 1 then 15 else 1
          pid := pid
          sTime := sTime
          waitData := none
          msgQueue := ⟨0#32, 0#32, 0#32 - 1#32⟩
          msgArray := none } :=
    Function.update_self _ _ _
  constructor
  · -- The message waiters of the new thread are none.
    have hNil : w (.msgWaiters tcb) = [] := by
      apply List.eq_nil_iff_forall_not_mem.mpr
      intro u hu
      rcases (hA.waiting _ u hu).1 with ⟨m, hm⟩
      cases hm
    exact (hA.links.setEntry hOff).setEmptyHead hNil (.inl rfl)
  · exact hA.cache
  · intro p hp u hu
    rcases hA.queued p hp u hu with ⟨hOld, hRest⟩
    rw [hThread u (hNe u hOld)]
    exact ⟨hKeep u hOld, hRest⟩
  · intro u hu hOn
    by_cases hEq : u = tcb
    · rw [hEq, hSelf] at hOn
      cases hOn
    · rw [hThread u hEq] at hOn ⊢
      exact hA.runnable u (hRec u hu hEq) hOn
  · intro h u hu
    rcases hA.waiting h u hu with ⟨hMutex, hOld, hStatus⟩
    rw [hThread u (hNe u hOld)]
    exact ⟨hMutex, hKeep u hOld, hStatus⟩
  · constructor
    · intro u hu
      by_cases hEq : u = tcb
      · rw [hEq, hSelf]
        dsimp only
        split
        · exact .inr rfl
        · exact .inl rfl
      · rw [hThread u hEq]
        exact hA.registry.prios u (hRec u hu hEq)
    · intro pid' u hu
      by_cases hPid : pid' = pid
      · subst hPid
        have hTcb : (Riot.initThread k tcb pid' sTime).schedThreads pid' = some tcb := by
          simp [Riot.initThread]
        rw [hTcb] at hu
        cases hu
        rw [hSelf]
        exact ⟨(recorded_initThread_iff hFree).mpr (.inl rfl), rfl⟩
      · have hBefore : k.schedThreads pid' = some u := by
          simpa [Riot.initThread, Function.update_of_ne hPid] using hu
        rcases hA.registry.pids pid' u hBefore with ⟨hOld, hPidU⟩
        rw [hThread u (hNe u hOld)]
        exact ⟨hKeep u hOld, hPidU⟩
    · intro u hu
      rcases hA.registry.active u hu with ⟨hOld, hPid⟩
      rw [hThread u (hNe u hOld)]
      exact ⟨hKeep u hOld, hPid⟩
    · exact hA.registry.frames

/- Creating a thread in unused stack memory. -/
theorem threadCreate
    {inIrq : Bool} {priority flags : Nat} {sTime result : Int}
    (hA : Agrees cfg k q w) (hNew : ¬ k.Recorded tcb)
    (hCreate :
      Riot.threadCreate (schedSetStatus cfg) inIrq k tcb priority flags sTime = some (k', result)) :
    ∃ q', Agrees cfg k' q' w ∧ ∀ u, k'.Recorded u → u = tcb ∨ k.Recorded u := by
  unfold Riot.threadCreate at hCreate
  split at hCreate
  · cases hCreate
    exact ⟨q, hA, fun _ hu => .inr hu⟩
  · split at hCreate
    · cases hCreate
      exact ⟨q, hA, fun _ hu => .inr hu⟩
    · rename_i pid hFree
      have hInit := hA.initThread sTime hFree hNew
      have hOff := hA.unlinked_of_not_recorded hNew
      have hRec :
          (Riot.initThread k tcb pid sTime).Recorded tcb :=
        (recorded_initThread_iff hFree).mpr (.inl rfl)
      have hRecorded :
          ∀ u, (Riot.initThread k tcb pid sTime).Recorded u → u = tcb ∨ k.Recorded u :=
        fun u => (recorded_initThread_iff hFree).mp
      dsimp only at hCreate
      split at hCreate
      · rw [schedSetStatus_keep_off rfl (hInit.off_of_unlinked hRec hOff)] at hCreate
        cases hCreate
        exact ⟨q, hInit.store rfl hOff, hRecorded⟩
      · rcases hInit.wake .pending rfl hRec hOff with ⟨k₂, hSet, hWoken, hThreads, _, _⟩
        rw [hSet] at hCreate
        have hRecorded₂ : ∀ u, k₂.Recorded u → u = tcb ∨ k.Recorded u := by
          intro u hu
          apply hRecorded u
          unfold Kernel.Recorded at hu ⊢
          rw [hThreads] at hu
          exact hu
        simp only [Option.bind_eq_bind, Option.bind_some] at hCreate
        split at hCreate
        · rcases Option.bind_eq_some_iff.mp hCreate with ⟨k₃, hSwitch, hRest⟩
          cases hRest
          rcases schedSwitch_some hSwitch with ⟨c, p, rfl⟩
          exact ⟨_, hWoken.setFlags, hRecorded₂⟩
        · cases hCreate
          exact ⟨_, hWoken, hRecorded₂⟩

/- Memory before `kernel_init` has no lists. -/
theorem zero :
    Agrees cfg (Kernel.zero N) (fun _ => []) (fun _ => []) := by
  constructor
  · constructor
    · constructor
      · intro p _
        exact LinkMem.IsCircular.nil_iff.mpr rfl
      · intro p _ p' _ t ht
        cases ht
    · intro h
      exact .inl (LinkMem.IsList.nil_iff.mpr rfl)
    · intro h t ht
      cases ht
    · intro h h' t ht
      cases ht
  · exact ⟨cfg.bitOrder.test_zero 0, fun hNil => (hNil rfl).elim⟩
  · intro p _ t ht
    cases ht
  · rintro t ⟨i, hi⟩
    cases hi
  · intro h t ht
    cases ht
  · constructor
    · rintro t ⟨i, hi⟩
      cases hi
    · intro pid t ht
      cases ht
    · intro t ht
      cases ht
    · rfl

/- The kernel agrees when `kernel_init` is done. -/
theorem kernelInit
    (hInit : Riot.kernelInit cfg = some k) :
    ∃ q, Agrees cfg k q (fun _ => []) := by
  unfold Riot.kernelInit at hInit
  rcases Option.bind_eq_some_iff.mp hInit with ⟨k₁, hFirst, hRest⟩
  rcases Option.bind_eq_some_iff.mp hRest with ⟨⟨k₂, result⟩, hMain, hLast⟩
  cases hLast
  have hStart : ∃ q, Agrees cfg k₁ q (fun _ => []) ∧ ¬ k₁.Recorded cfg.mainStack := by
    unfold createIdleThread at hFirst
    split at hFirst
    · rcases Option.map_eq_some_iff.mp hFirst with ⟨⟨k', result'⟩, hIdle, rfl⟩
      have hNone : ¬ (Kernel.zero N).Recorded cfg.idleStack := by
        rintro ⟨i, hi⟩
        cases hi
      rcases zero.threadCreate hNone hIdle with ⟨q, hA, hRec⟩
      refine ⟨q, hA, ?_⟩
      intro hMainRec
      rcases hRec _ hMainRec with hEq | ⟨i, hi⟩
      · exact cfg.stacks_ne hEq.symm
      · cases hi
    · cases hFirst
      refine ⟨_, zero, ?_⟩
      rintro ⟨i, hi⟩
      cases hi
  rcases hStart with ⟨q, hA, hNew⟩
  rcases hA.threadCreate hNew hMain with ⟨q', hA', _⟩
  exact ⟨q', hA'.setFlags⟩

end Agrees

----
-- Mutexes
----

namespace Agrees

variable {cfg : Config N} {k k' : Kernel N} {q : Nat → List (Fin N)}
variable {w : WaitHead N → List (Fin N)} {me : Fin N} {mutex : Nat}

/- One more blocked thread in the queue of a mutex. -/
theorem addWaiter
    {mem : LinkMem (ListHead N) (Fin N)} {l : List (Fin N)} (hA : Agrees cfg k q w)
    (hRec : k.Recorded me) (hStatus : (k.thread me).status = .mutexBlocked)
    (hLinks : Links mem q (Function.update w (.mutexQueue mutex) l))
    (hNew : ∀ t ∈ l, t = me ∨ t ∈ w (.mutexQueue mutex)) :
    Agrees cfg { k with next := mem } q (Function.update w (.mutexQueue mutex) l) := by
  apply hA.setLinks hLinks
  intro h t ht
  by_cases hEq : h = .mutexQueue mutex
  · subst hEq
    rw [Function.update_self] at ht
    rcases hNew t ht with rfl | hOld
    · exact ⟨⟨mutex, rfl⟩, hRec, hStatus⟩
    · exact hA.waiting _ t hOld
  · rw [Function.update_of_ne hEq] at ht
    exact hA.waiting h t ht

/- A blocked caller enters the queue of a mutex. -/
theorem mutexEnqueue
    (hA : Agrees cfg k q w) (hRec : k.Recorded me)
    (hStatus : (k.thread me).status = .mutexBlocked) (hOff : Unlinked q w me)
    (hEnqueue : Riot.mutexEnqueue k mutex me = some k') :
    ∃ w', Agrees cfg k' q w' := by
  unfold Riot.mutexEnqueue at hEnqueue
  dsimp only at hEnqueue
  split at hEnqueue
  · rename_i hMark
    cases hEnqueue
    refine ⟨_, hA.addWaiter hRec hStatus (hA.links.firstWaiter hOff) ?_⟩
    intro t ht
    exact .inl (List.mem_singleton.mp ht)
  · rename_i hNe
    unfold threadAddToList at hEnqueue
    split at hEnqueue
    · cases hEnqueue
    · rcases hA.links.addToList
          (fun t => (k.thread t).priority) hNe hOff with
        ⟨mem, hAdd, hLinks, _⟩
      rw [hAdd] at hEnqueue
      cases hEnqueue
      refine ⟨_, hA.addWaiter hRec hStatus hLinks ?_⟩
      intro t ht
      have hPerm :=
        (insertByPriority_perm (fun t => (k.thread t).priority)
          (w (.mutexQueue mutex))).mem_iff.mp ht
      exact List.mem_cons.mp hPerm

/- The first waiter of a mutex is woken. -/
theorem mutexWakeFirst
    {process : Fin N} (hA : Agrees cfg k q w)
    (hWake : Riot.mutexWakeFirst (schedSetStatus cfg) k mutex = some (k', process)) :
    ∃ q' w', Agrees cfg k' q' w' ∧ k'.schedThreads = k.schedThreads ∧
        k'.schedActiveThread = k.schedActiveThread ∧
        (∀ u, (k'.thread u).priority = (k.thread u).priority) ∧
        (∀ p t rest, q p = t :: rest → ∃ rest', q' p = t :: rest') := by
  unfold Riot.mutexWakeFirst at hWake
  rcases Option.bind_eq_some_iff.mp hWake with ⟨⟨mem, next⟩, hRemove, hRest⟩
  cases hw : w (.mutexQueue mutex) with
  | nil =>
    -- Without waiters there is nothing to remove.
    unfold listRemoveHead at hRemove
    split at hRemove
    · cases hRemove
      cases hRest
    · cases hRemove
    · rename_i first hRef
      have hHead := (hA.links.waits (.mutexQueue mutex)).head_ref_iff.mp hRef
      rw [hw] at hHead
      cases hHead
  | cons t l =>
    rcases hA.links.removeHead hw with ⟨hEq, hLinks⟩
    rw [hEq] at hRemove
    cases hRemove
    have hIn : t ∈ w (.mutexQueue mutex) := by
      simp [hw]
    have hNodup := (hA.links.waits (.mutexQueue mutex)).nodup
    rw [hw] at hNodup
    rcases hA.waiting _ t hIn with ⟨_, hRec, _⟩
    -- The woken thread leaves the only list that had it.
    have hSub : ∀ h, ∀ u ∈ Function.update w (.mutexQueue mutex) l h, u ∈ w h ∧ u ≠ t := by
      intro h u hu
      by_cases hQueue : h = .mutexQueue mutex
      · subst hQueue
        rw [Function.update_self] at hu
        refine ⟨by simp [hw, hu], ?_⟩
        rintro rfl
        exact (List.nodup_cons.mp hNodup).1 hu
      · rw [Function.update_of_ne hQueue] at hu
        refine ⟨hu, ?_⟩
        rintro rfl
        exact hQueue (hA.links.single h _ u hu hIn)
    have hA₁ := hA.setLinks hLinks (fun h u hu => hA.waiting h u (hSub h u hu).1)
    have hOff :
        Unlinked q (Function.update w (.mutexQueue mutex) l) t :=
      ⟨hA.links.apart _ t hIn, fun h hu => (hSub h t hu).2 rfl⟩
    rcases hA₁.wake .pending rfl hRec hOff with ⟨k₁, hSet, hA₂, hThreads, hActive, hPrio⟩
    simp only [Option.bind_eq_bind, Option.bind_some, hSet] at hRest
    have hHeads :
        ∀ p x rest, q p = x :: rest → ∃ rest',
            Function.update q (k.thread t).priority
              (q (k.thread t).priority ++ [t]) p = x :: rest' := by
      intro p x rest hx
      by_cases hp : p = (k.thread t).priority
      · subst hp
        rw [Function.update_self, hx]
        exact ⟨rest ++ [t], rfl⟩
      · rw [Function.update_of_ne hp]
        exact ⟨rest, hx⟩
    split at hRest
    · rename_i hNull
      cases hRest
      have hA₃ :=
        hA₂.setLinks (hA₂.links.setEmptyHead (hA₂.waiters_nil_of_null hNull) (.inr rfl)) hA₂.waiting
      exact ⟨_, _, hA₃, hThreads, hActive, hPrio, hHeads⟩
    · cases hRest
      exact ⟨_, _, hA₂, hThreads, hActive, hPrio, hHeads⟩

/- A mutex is freed or handed over. -/
theorem mutexRelease
    {next : Option (Fin N)} (hA : Agrees cfg k q w)
    (hRelease : Riot.mutexRelease (schedSetStatus cfg) k mutex = some (k', next)) :
    ∃ q' w', Agrees cfg k' q' w' ∧ k'.schedThreads = k.schedThreads ∧
        k'.schedActiveThread = k.schedActiveThread ∧
        (∀ u, (k'.thread u).priority = (k.thread u).priority) ∧
        (∀ p t rest, q p = t :: rest → ∃ rest', q' p = t :: rest') := by
  unfold Riot.mutexRelease at hRelease
  dsimp only at hRelease
  split at hRelease
  · cases hRelease
    exact ⟨q, w, hA, rfl, rfl, fun _ => rfl, fun _ _ rest h => ⟨rest, h⟩⟩
  · split at hRelease
    · rename_i hMark
      cases hRelease
      have hNil : w (.mutexQueue mutex) = [] := by
        rcases hA.links.waits (.mutexQueue mutex) with ⟨_, hSeg⟩ | ⟨hNil, _⟩
        · cases hw : w (.mutexQueue mutex) with
          | nil => rfl
          | cons t l =>
            rw [hw, hMark] at hSeg
            cases hSeg.1
        · exact hNil
      refine ⟨q, w, ?_, rfl, rfl, fun _ => rfl, fun _ _ rest h => ⟨rest, h⟩⟩
      exact hA.setLinks (hA.links.setEmptyHead hNil (.inl rfl)) hA.waiting
    · rcases Option.map_eq_some_iff.mp hRelease with ⟨⟨k₁, process⟩, hWake, hPair⟩
      cases hPair
      exact hA.mutexWakeFirst hWake

end Agrees

----
-- Steps
----

/- The running thread is the first of its run queue. -/
def Kernel.activeIsFirst
    (k : Kernel N) : Bool :=
  k.schedActiveThread.all (fun t =>
    (k.runqueue (k.thread t).priority).head? == some t)

/-
  A thread that blocks is the first of its run queue, and
  `sched_run` drops no thread.
-/
def AgreementStep
    (k : Kernel N) (op : SchedOp N) : Prop :=
  (op.blocks k = true → k.activeIsFirst = true) ∧ (op.schedules = true → k.expiresNext = false)

instance
    (k : Kernel N) (op : SchedOp N) :
    Decidable (AgreementStep k op) := by
  unfold AgreementStep
  infer_instance

/- The pid of an exiting thread is not read by its removal. -/
theorem schedSetStatus_unrecord
    (cfg : Config N) (k : Kernel N) (t : Fin N) (status : ThreadStatus)
    (threads : Int → Option (Fin N)) (num : Int) :
    schedSetStatus cfg { k with schedThreads := threads, schedNumThreads := num } t status =
      (schedSetStatus cfg k t status).map (fun k' =>
        { k' with
          schedThreads := threads
          schedNumThreads := num }) := by
  unfold schedSetStatus
  dsimp only
  split
  · split
    · cases clistRpush k.next (.runqueue (k.thread t).priority) t with
      | none => rfl
      | some mem =>
        simp only [Option.bind_eq_bind, Option.bind_some, setRunqueueBit]
        cases countRunqueues mem <;> rfl
    · rfl
  · split
    · cases clistLpop k.next (.runqueue (k.thread t).priority) with
      | none => rfl
      | some result =>
        simp only [Option.bind_eq_bind, Option.bind_some, clearRunqueueBit]
        cases countRunqueues result.1 with
        | none => rfl
        | some done =>
          simp only [Option.bind_some]
          split <;> rfl
    · rfl

namespace Agrees

variable {cfg : Config N} {k k' : Kernel N} {q : Nat → List (Fin N)}
variable {w : WaitHead N → List (Fin N)} {t : Fin N} {mutex : Nat}

section

variable (hA : Agrees cfg k q w)

include hA

/- The queue of a running thread that is its first. -/
theorem queue_of_first
    (hFirst : k.activeIsFirst = true) (hActive : k.schedActiveThread = some t) :
    k.Recorded t ∧ ∃ rest, q (k.thread t).priority = t :: rest := by
  have hRec := (hA.registry.active t hActive).1
  refine ⟨hRec, ?_⟩
  simp only [Kernel.activeIsFirst, hActive, Option.all_some,
    hA.runqueue_eq (hA.prio_lt hRec), beq_iff_eq] at hFirst
  exact List.head?_eq_some_iff.mp hFirst

/- Sleeping. -/
theorem threadSleep
    (hFirst : k.activeIsFirst = true)
    (hSleep : Riot.threadSleep (schedSetStatus cfg) false k = some k') :
    ∃ q', Agrees cfg k' q' w := by
  rcases Option.bind_eq_some_iff.mp hSleep with ⟨t, hActive, hRest⟩
  rcases hA.queue_of_first hFirst hActive with ⟨hRec, rest, hq⟩
  rcases hA.block .sleeping rfl hRec hq with ⟨k₁, hSet, hA₁, _⟩
  rw [hSet] at hRest
  cases hRest
  exact ⟨_, hA₁.setFlags⟩

/- Waking a sleeping thread. -/
theorem threadWakeup
    {inIrq : Bool} {pid result : Int}
    (hWakeup : Riot.threadWakeup (schedSetStatus cfg) inIrq k pid = some (k', result)) :
    ∃ q', Agrees cfg k' q' w := by
  unfold Riot.threadWakeup at hWakeup
  split at hWakeup
  · cases hWakeup
    exact ⟨q, hA⟩
  · rename_i t hGet
    split at hWakeup
    · rename_i hSleeping
      have hRec : k.Recorded t := by
        unfold Kernel.threadGet at hGet
        split at hGet
        · exact (hA.registry.pids pid t hGet).1
        · cases hGet
      have hOff : Unlinked q w t := by
        constructor
        · rintro ⟨p, hp, hIn⟩
          have hOn := (hA.queued p hp t hIn).2.2
          rw [hSleeping] at hOn
          cases hOn
        · intro h hIn
          have hBlocked := (hA.waiting h t hIn).2.2
          rw [hSleeping] at hBlocked
          cases hBlocked
      rcases hA.wake .running rfl hRec hOff with ⟨k₁, hSet, hA₁, _⟩
      simp only [hSet, Option.bind_eq_bind, Option.bind_some] at hWakeup
      rcases Option.bind_eq_some_iff.mp hWakeup with ⟨k₂, hSwitch, hRest⟩
      rcases schedSwitch_some hSwitch with ⟨c, p, rfl⟩
      cases hRest
      exact ⟨_, hA₁.setFlags⟩
    · cases hWakeup
      exact ⟨q, hA⟩

/- Queues with the same members in another order. -/
theorem permute
    {mem : LinkMem (ListHead N) (Fin N)} {q' : Nat → List (Fin N)}
    (hQ : Runqueues mem q') (hSame : SameOutside k.next mem (fun _ => False))
    (hMem : ∀ p u, u ∈ q' p ↔ u ∈ q p) :
    Agrees cfg { k with next := mem } q' w := by
  have hApart : ∀ h, ∀ t ∈ w h, ¬ OnQueues q' t := by
    rintro h t ht ⟨p, hp, hIn⟩
    exact hA.links.apart h t ht ⟨p, hp, (hMem p t).mp hIn⟩
  refine ⟨hA.links.withQueues hQ hSame (fun _ _ _ h => h) hApart,
      ⟨hA.cache.1, ?_⟩, ?_, ?_, hA.waiting,
      ⟨hA.registry.prios, hA.registry.pids, hA.registry.active, hA.registry.frames⟩⟩
  · intro hNil
    apply hA.cache.2
    rcases List.exists_mem_of_ne_nil _ hNil with ⟨u, hu⟩
    exact List.ne_nil_of_mem ((hMem 1 u).mp hu)
  · intro p hp u hu
    exact hA.queued p hp u ((hMem p u).mp hu)
  · intro u hu hOn
    exact (hMem _ u).mpr (hA.runnable u hu hOn)

/- Yielding rotates a queue. -/
theorem threadYield
    (hYield : Riot.threadYield k = some k') :
    ∃ q', Agrees cfg k' q' w := by
  rcases Option.bind_eq_some_iff.mp hYield with ⟨me, hActive, hRest⟩
  split at hRest
  · have hPrio := hA.prio_lt (hA.registry.active me hActive).1
    rcases hA.links.queues.lpoprpush hPrio with ⟨mem, hTurn, hQ, hSame⟩
    rw [hTurn] at hRest
    cases hRest
    have hMem :
        ∀ p u,
          u ∈ Function.update q (k.thread me).priority
              ((q (k.thread me).priority).rotate 1) p ↔ u ∈ q p := by
      intro p u
      rw [mem_update_iff, List.mem_rotate]
      by_cases hEq : p = (k.thread me).priority
      · simp [hEq]
      · simp [hEq]
    exact ⟨_, (hA.permute hQ hSame hMem).setFlags⟩
  · cases hRest
    exact ⟨q, hA.setFlags⟩

/- Locking, with or without blocking. -/
theorem mutexLockWith
    {blocking : Bool} {outcome : Outcome}
    (hFirst : blocking = true → k.next (.head (.waiting (.mutexQueue mutex))) ≠ .null →
        k.activeIsFirst = true)
    (hLock : Riot.mutexLockWith (schedSetStatus cfg) k mutex blocking = some (k', outcome)) :
    ∃ q' w', Agrees cfg k' q' w' := by
  unfold Riot.mutexLockWith at hLock
  dsimp only at hLock
  split at hLock
  · rename_i hNull
    cases hLock
    refine ⟨q, w, hA.setLinks ?_ hA.waiting⟩
    exact hA.links.setEmptyHead (hA.waiters_nil_of_null hNull) (.inr rfl)
  · rename_i hTaken
    split at hLock
    · rename_i hBlocking
      rcases Option.bind_eq_some_iff.mp hLock with ⟨me, hActive, hRest⟩
      rcases hA.queue_of_first (hFirst hBlocking hTaken) hActive with ⟨hRec, rest, hq⟩
      rcases hA.block .mutexBlocked rfl hRec hq with ⟨k₁, hSet, hA₁, hOff, hStatus, hThreads, _⟩
      simp only [hSet, Option.bind_eq_bind, Option.bind_some] at hRest
      rcases Option.bind_eq_some_iff.mp hRest with ⟨k₂, hEnqueue, hLast⟩
      have hRec₁ : k₁.Recorded me := by
        unfold Kernel.Recorded at hRec ⊢
        rwa [hThreads]
      rcases hA₁.mutexEnqueue hRec₁ hStatus hOff hEnqueue with ⟨w', hA₂⟩
      cases hLast
      exact ⟨_, w', hA₂.setFlags⟩
    · cases hLock
      exact ⟨q, w, hA⟩

/- Unlocking. -/
theorem mutexUnlock
    {inIrq : Bool}
    (hUnlock : Riot.mutexUnlock (schedSetStatus cfg) inIrq k mutex = some k') :
    ∃ q' w', Agrees cfg k' q' w' := by
  rcases Option.bind_eq_some_iff.mp hUnlock with ⟨⟨k₁, next⟩, hRelease, hRest⟩
  rcases hA.mutexRelease hRelease with ⟨q', w', hA₁, _⟩
  cases next with
  | none =>
    cases hRest
    exact ⟨q', w', hA₁⟩
  | some process =>
    rcases schedSwitch_some hRest with ⟨c, p, rfl⟩
    exact ⟨q', w', hA₁.setFlags⟩

/- Unlocking and sleeping. -/
theorem mutexUnlockAndSleep
    (hFirst : k.activeIsFirst = true)
    (hSleep : Riot.mutexUnlockAndSleep (schedSetStatus cfg) k mutex = some k') :
    ∃ q' w', Agrees cfg k' q' w' := by
  rcases Option.bind_eq_some_iff.mp hSleep with ⟨⟨k₁, next⟩, hRelease, hRest⟩
  rcases hA.mutexRelease hRelease with ⟨q', w', hA₁, hThreads, hActiveSame, hPrio, hHeads⟩
  rcases Option.bind_eq_some_iff.mp hRest with ⟨t, hActive, hLast⟩
  rw [hActiveSame] at hActive
  rcases hA.queue_of_first hFirst hActive with ⟨hRec, rest, hq⟩
  rcases hHeads _ t rest hq with ⟨rest', hq'⟩
  rw [← hPrio t] at hq'
  have hRec₁ : k₁.Recorded t := by
    unfold Kernel.Recorded at hRec ⊢
    rwa [hThreads]
  rcases hA₁.block .sleeping rfl hRec₁ hq' with ⟨k₂, hSet, hA₂, _⟩
  simp only [Option.bind_eq_bind, hSet] at hLast
  cases hLast
  exact ⟨_, w', hA₂.setFlags⟩

/- A thread in no list gives up its pid. -/
theorem unrecord
    {num : Int} (hRec : k.Recorded t) (hOff : Unlinked q w t) :
    Agrees cfg { k with
        schedThreads := Function.update k.schedThreads (k.thread t).pid none
        schedNumThreads := num
        schedActiveThread := none }
      q w := by
  have hSelf : k.schedThreads (k.thread t).pid = some t := by
    rcases hRec with ⟨i, hi⟩
    rw [(hA.registry.pids _ t hi).2]
    exact hi
  have hOld :
      ∀ pid u,
        Function.update k.schedThreads
            (k.thread t).pid none pid = some u → k.schedThreads pid = some u := by
    intro pid u hu
    by_cases hEq : pid = (k.thread t).pid
    · rw [hEq, Function.update_self] at hu
      cases hu
    · rwa [Function.update_of_ne hEq] at hu
  -- Pids are unique, so every other thread keeps its own.
  have hKeep :
      ∀ u, u ≠ t → k.Recorded u → ∃ i : Fin 32,
          Function.update k.schedThreads (k.thread t).pid none (kernelPidFirst + i) = some u := by
    rintro u hNe ⟨i, hi⟩
    refine ⟨i, ?_⟩
    rw [Function.update_of_ne]
    · exact hi
    · intro hEq
      rw [hEq, hSelf] at hi
      cases hi
      exact hNe rfl
  have hQueue : ∀ p < schedPrioLevels, ∀ u ∈ q p, u ≠ t := by
    rintro p hp u hu rfl
    exact hOff.1 ⟨p, hp, hu⟩
  refine ⟨hA.links, hA.cache, ?_, ?_, ?_, ?_, ?_, ?_, hA.registry.frames⟩
  · intro p hp u hu
    rcases hA.queued p hp u hu with ⟨hRecU, hRest⟩
    exact ⟨hKeep u (hQueue p hp u hu) hRecU, hRest⟩
  · rintro u ⟨i, hi⟩ hOn
    exact hA.runnable u ⟨i, hOld _ u hi⟩ hOn
  · intro h u hu
    rcases hA.waiting h u hu with ⟨hMutex, hRecU, hStatus⟩
    have hNe : u ≠ t := by
      rintro rfl
      exact hOff.2 h hu
    exact ⟨hMutex, hKeep u hNe hRecU, hStatus⟩
  · rintro u ⟨i, hi⟩
    exact hA.registry.prios u ⟨i, hOld _ u hi⟩
  · intro pid u hu
    rcases hA.registry.pids pid u (hOld pid u hu) with ⟨hRecU, hPid⟩
    refine ⟨hKeep u ?_ hRecU, hPid⟩
    rintro rfl
    dsimp only at hu
    rw [← hPid, Function.update_self] at hu
    cases hu
  · intro u hu
    cases hu

/- Exiting. -/
theorem schedTaskExit
    (hFirst : k.activeIsFirst = true) (hExit : Riot.schedTaskExit cfg k = some k') :
    ∃ q', Agrees cfg k' q' w := by
  rcases Option.bind_eq_some_iff.mp hExit with ⟨t, hActive, hRest⟩
  rcases hA.queue_of_first hFirst hActive with ⟨hRec, rest, hq⟩
  rcases hA.block .stopped rfl hRec hq with ⟨k₁, hSet, hA₁, hOff, _, hThreads, _⟩
  dsimp only at hRest
  rw [schedSetStatus_unrecord, hSet] at hRest
  cases hRest
  have hRec₁ : k₁.Recorded t := by
    unfold Kernel.Recorded at hRec ⊢
    rwa [hThreads]
  have hPid : k.schedActivePid = (k₁.thread t).pid := by
    rw [(hA.registry.active t hActive).2]
    rcases hRec with ⟨i, hi⟩
    rw [(hA.registry.pids _ t hi).2]
    rw [← hThreads] at hi
    rw [(hA₁.registry.pids _ t hi).2]
  rw [hPid, ← hThreads]
  exact ⟨_, (hA₁.unrecord hRec₁ hOff).setFlags⟩

end

/- Every admitted step keeps the agreement. -/
theorem step
    {op : SchedOp N} (hIdle : cfg.coreIdleThread = true) (hA : Agrees cfg k q w)
    (hOk : AgreementStep k op) (hEnabled : op.Enabled cfg k)
    (hExec : op.exec cfg k = some k') :
    ∃ q' w', Agrees cfg k' q' w' := by
  cases op with
  | threadCreate inIrq tcb priority flags sTime =>
    rcases Option.map_eq_some_iff.mp hExec with ⟨⟨k₁, result⟩, hCreate, rfl⟩
    rcases hA.threadCreate hEnabled.2 hCreate with ⟨q', hA₁, _⟩
    rcases endCall_eq inIrq k₁ with ⟨p, hEnd⟩
    rw [hEnd]
    exact ⟨q', w, hA₁.setFlags⟩
  | timerTick =>
    have hRun := (hA.setFlags (r := false)).schedRun hIdle (hOk.2 rfl) hExec
    exact ⟨_, w, hRun⟩
  | pendsv =>
    have hRun := (hA.setFlags (p := false)).schedRun hIdle (hOk.2 rfl) hExec
    exact ⟨_, w, hRun⟩
  | idleReturn => exact (hEnabled.1 hA.registry.frames).elim
  | threadYieldHigher =>
    cases hExec
    exact ⟨q, w, hA.setFlags⟩
  | threadYield =>
    rcases hA.threadYield hExec with ⟨q', hA₁⟩
    exact ⟨q', w, hA₁⟩
  | threadSleep =>
    rcases hA.threadSleep (hOk.1 rfl) hExec with ⟨q', hA₁⟩
    exact ⟨q', w, hA₁⟩
  | threadWakeup inIrq pid =>
    rcases Option.map_eq_some_iff.mp hExec with ⟨⟨k₁, result⟩, hWakeup, rfl⟩
    rcases hA.threadWakeup hWakeup with ⟨q', hA₁⟩
    rcases endCall_eq inIrq k₁ with ⟨p, hEnd⟩
    rw [hEnd]
    exact ⟨q', w, hA₁.setFlags⟩
  | mutexLock mutex =>
    rcases Option.map_eq_some_iff.mp hExec with ⟨⟨k₁, outcome⟩, hLock, rfl⟩
    apply hA.mutexLockWith _ hLock
    intro _ hTaken
    exact hOk.1 (by simpa [SchedOp.blocks] using hTaken)
  | mutexTrylock mutex =>
    rcases Option.map_eq_some_iff.mp hExec with ⟨⟨k₁, outcome⟩, hLock, rfl⟩
    exact hA.mutexLockWith (fun h => by cases h) hLock
  | mutexUnlock inIrq mutex =>
    rcases Option.map_eq_some_iff.mp hExec with ⟨k₁, hUnlock, rfl⟩
    rcases hA.mutexUnlock hUnlock with ⟨q', w', hA₁⟩
    rcases endCall_eq inIrq k₁ with ⟨p, hEnd⟩
    rw [hEnd]
    exact ⟨q', w', hA₁.setFlags⟩
  | mutexUnlockAndSleep mutex => exact hA.mutexUnlockAndSleep (hOk.1 rfl) hExec
  | taskExit =>
    rcases hA.schedTaskExit (hOk.1 rfl) hExec with ⟨q', hA₁⟩
    exact ⟨q', w, hA₁⟩

end Agrees

----
-- Runs
----

/-
  Every recorded thread is runnable exactly when it occurs
  once on the run queue of its priority, and it occurs on no
  other run queue.
-/
def RunqueueAgreement
    (k : Kernel N) : Prop :=
  ∀ (i : Fin 32) (t : Fin N), k.schedThreads (kernelPidFirst + i) = some t →
      ((k.thread t).status.onRunqueue = true ↔ (k.runqueue (k.thread t).priority).count t = 1) ∧
      ∀ p : Fin schedPrioLevels, (p : Nat) ≠ (k.thread t).priority → t ∉ k.runqueue p

instance
    (k : Kernel N) :
    Decidable (RunqueueAgreement k) := by
  unfold RunqueueAgreement
  infer_instance

/- The invariant gives the agreement. -/
theorem Agrees.runqueueAgreement
    {cfg : Config N} {k : Kernel N} {q : Nat → List (Fin N)} {w : WaitHead N → List (Fin N)}
    (hA : Agrees cfg k q w) :
    RunqueueAgreement k := by
  intro i t ht
  have hRec : k.Recorded t := ⟨i, ht⟩
  have hPrio := hA.prio_lt hRec
  have hNodup := (hA.links.queues.circular _ hPrio).1
  constructor
  · rw [hA.runqueue_eq hPrio]
    constructor
    · intro hOn
      exact List.count_eq_one_of_mem hNodup (hA.runnable t hRec hOn)
    · intro hCount
      have hIn : t ∈ q (k.thread t).priority := List.count_pos_iff.mp (by omega)
      exact (hA.queued _ hPrio t hIn).2.2
  · intro p hNe
    rw [hA.runqueue_eq p.isLt]
    intro hIn
    exact hNe (hA.queued p p.isLt t hIn).2.1.symm

/-
  In every run from `kernel_init` with the idle thread in
  which blocking threads are first of their queue and
  `sched_run` drops no thread, status and queues agree and
  every run queue is a circular list.
-/
theorem runqueueAgreement_of_reachable
    {cfg : Config N} {k : Kernel N} (hIdle : cfg.coreIdleThread = true)
    (hReach : (schedSystem cfg).ReachableVia AgreementStep k) :
    RunqueueAgreement k ∧
      ∀ p < schedPrioLevels, LinkMem.IsCircular k.next (.runqueue p) (k.runqueue p) := by
  have hInv : ∃ q w, Agrees cfg k q w := by
    apply hReach.invariant
    · intro s hInit
      rcases Agrees.kernelInit hInit with ⟨q, hA⟩
      exact ⟨q, _, hA⟩
    · rintro s op s' ⟨q, w, hA⟩ hOk hEnabled hExec
      exact hA.step hIdle hOk hEnabled hExec
  rcases hInv with ⟨q, w, hA⟩
  refine ⟨hA.runqueueAgreement, ?_⟩
  intro p hp
  rw [hA.runqueue_eq hp]
  exact hA.links.queues.circular p hp

/-
  A run under the condition: main blocks on a mutex and
  sleeps while it is alone on its queue, and then shares the
  CPU with a new thread.
-/
theorem runqueueAgreement_of_mutexRun :
    ∃ k,
      schedRuns idleConfig AgreementStep
          [.pendsv, .mutexLock 0, .mutexLock 0, .pendsv,
            .mutexUnlock true 0, .pendsv, .threadSleep, .pendsv, .threadWakeup true 2, .pendsv,
            .threadCreate false 2 8 4 1000, .timerTick, .timerTick] = some k ∧
        RunqueueAgreement k := by
  rcases
    exists_reachable_of_schedRuns idleConfig AgreementStep
      (fun _ => True)
      [.pendsv, .mutexLock 0, .mutexLock 0, .pendsv,
        .mutexUnlock true 0, .pendsv, .threadSleep, .pendsv, .threadWakeup true 2, .pendsv,
        .threadCreate false 2 8 4 1000, .timerTick, .timerTick]
      (by decide +kernel) with
    ⟨k, hRun, hReach, _⟩
  exact ⟨k, hRun, (runqueueAgreement_of_reachable rfl hReach).1⟩

/-
  The agreement fails in general: the debug loop has rotated
  queue 1 when main goes to sleep, so the new thread is
  popped in its place.
-/
theorem not_runqueueAgreement :
    ∃ k, (schedSystem idleConfig).Reachable k ∧ ¬ RunqueueAgreement k := by
  rcases
    exists_reachable_of_schedRuns idleConfig
      (fun _ _ => True) (fun k => ¬ RunqueueAgreement k)
      [.pendsv, .threadCreate false 2 8 0 1000, .timerTick, .threadSleep]
      (by decide +kernel) with
    ⟨k, _, hReach, hNot⟩
  exact ⟨k, hReach, hNot⟩

end Riot
