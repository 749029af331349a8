import Riot.Scheduler.ManagedRuns

/-
  What blocking does to the run queues.

  `sched_set_status` takes the first node off the queue of
  the thread that blocks, whichever thread that is.  It
  removes exactly its caller when the queues are circular
  lists and the caller is the first node of its own.
-/

----
-- Exact Removal
----

namespace Riot

open LinkMem

variable {N : Nat}

/- Every run queue is a circular list. -/
def CircularQueues
    (k : Kernel N) : Prop :=
  ∀ p < schedPrioLevels, IsCircular k.next (.runqueue p) (k.runqueue p)

/-
  The status change takes exactly `me` off its run queue,
  whose other nodes keep their cyclic order, and leaves
  every other run queue alone.
-/
def RemovesExactly
    (cfg : Config N) (k : Kernel N) (me : Fin N) (status : ThreadStatus) : Prop :=
  CircularQueues k ∧ ∃ k', schedSetStatus cfg k me status = some k' ∧ CircularQueues k' ∧
        (k'.runqueue (k.thread me).priority).IsRotated
          ((k.runqueue (k.thread me).priority).erase me) ∧
        ∀ p < schedPrioLevels, p ≠ (k.thread me).priority → k'.runqueue p = k.runqueue p

/-
  The run queues are circular lists.  A runnable `me` is the
  first node of its queue, and if that queue has other nodes
  no other queue has `me`; the queue may also be empty.  A
  blocked `me` is not on its queue.
-/
structure Removable
    (k : Kernel N)
    (me : Fin N) : Prop where
  circular : CircularQueues k
  runnable :
    (k.thread me).status.onRunqueue = true → k.runqueue (k.thread me).priority = [] ∨
        k.runqueue (k.thread me).priority = [me] ∨
        ((k.runqueue (k.thread me).priority).head? = some me ∧
          ∀ p < schedPrioLevels, p ≠ (k.thread me).priority → me ∉ k.runqueue p)
  blocked : (k.thread me).status.onRunqueue = false → me ∉ k.runqueue (k.thread me).priority

/- The walk over a circular list returns its nodes. -/
theorem runqueue_eq_of_isCircular
    {k : Kernel N} {p : Nat} {l : List (Fin N)}
    (hCirc : IsCircular k.next (.runqueue p) l) :
    k.runqueue p = l :=
  hCirc.circularNodes_eq (length_le_of_nodup hCirc.1)

/- The counts of the debug loop tell circular queues. -/
theorem circularQueues_iff
    {k : Kernel N} :
    CircularQueues k ↔ countRunqueues k.next = some () := by
  rw [countRunqueues_eq_some_iff]
  constructor
  · intro hAll p hp
    exact ⟨_, hAll p hp⟩
  · intro hSome p hp
    rcases hSome p hp with ⟨l, hCirc⟩
    rw [runqueue_eq_of_isCircular hCirc]
    exact hCirc

/- If erasing leaves the tail, the head was erased. -/
theorem head_eq_of_tail_perm_erase
    {x me : Fin N} {rest : List (Fin N)} (hNodup : (x :: rest).Nodup)
    (hPerm : rest.Perm ((x :: rest).erase me)) :
    x = me := by
  by_contra hNe
  have hIn : x ∈ (x :: rest).erase me := (List.mem_erase_of_ne hNe).mpr (by simp)
  exact (List.nodup_cons.mp hNodup).1 (hPerm.mem_iff.mpr hIn)

/- Erasing a member changes the length. -/
theorem notMem_of_isRotated_erase
    {me : Fin N} {l : List (Fin N)} (hRot : l.IsRotated (l.erase me)) :
    me ∉ l := by
  intro hIn
  have hLen := hRot.perm.length_eq
  have hPos := List.length_pos_of_mem hIn
  rw [List.length_erase_of_mem hIn] at hLen
  omega

----
-- Popped Queues
----

variable {N : Nat} {mem mem' : LinkMem (ListHead N) (Fin N)} {prio : Nat}
variable {l : List (Fin N)} {first : Option (Fin N)}

/-
  Popping a node `x` in front of others breaks every other
  circular list that has `x`.
-/
theorem clistLpop_shared
    {x y : Fin N} {rest l' : List (Fin N)} {h : ListHead N}
    (hCirc : IsCircular mem (.runqueue prio) (x :: y :: rest))
    (hPop : clistLpop mem (.runqueue prio) = some (mem', first))
    (hCirc' : IsCircular mem' h l') :
    x ∉ l' := by
  intro hIn
  rcases clistLpop_spec hCirc with ⟨mem₁, hEq, hTail, _, hEntry⟩
  rw [hEq] at hPop
  cases hPop
  have hNot := (List.nodup_cons.mp hCirc.1).1
  -- The link of `x` is not stored to, so it leads to `y`.
  have hLink : mem' (.entry x) = .ref y := by
    rw [hEntry x hNot]
    exact hCirc.link_of_cons
  rcases hCirc'.closed hIn with ⟨z, hz, hRef⟩
  rw [hLink] at hRef
  cases hRef
  have hSub := hCirc'.subset_of_mem hTail hz (by simp : y ∈ y :: rest)
  exact hNot (hSub x hIn)

/-
  Popping keeps the other circular lists if they do not have
  the first node, or if that node was the only one.
-/
theorem clistLpop_other
    {x : Fin N} {rest l' : List (Fin N)} {h : ListHead N}
    (hCirc : IsCircular mem (.runqueue prio) (x :: rest))
    (hPop : clistLpop mem (.runqueue prio) = some (mem', first))
    (hHead : h ≠ .runqueue prio) (hCirc' : IsCircular mem h l')
    (hApart : rest = [] ∨ x ∉ l') :
    IsCircular mem' h l' := by
  rcases clistLpop_spec hCirc with ⟨mem₁, hEq, _, hHeads, hEntry⟩
  rw [hEq] at hPop
  cases hPop
  apply hCirc'.congr (hHeads h hHead)
  intro e he
  apply hEntry e
  intro hIn
  rcases hApart with hNil | hNot
  · rw [hNil] at hIn
    cases hIn
  · -- A shared node would make `x` a node of both lists.
    have hShared : e ∈ x :: rest := List.mem_of_mem_tail hIn
    exact hNot (hCirc.subset_of_mem hCirc' hShared he x (by simp))

----
-- Characterization
----

variable {N : Nat} {cfg : Config N} {k : Kernel N} {me : Fin N} {status : ThreadStatus}

section

variable (hNew : status.onRunqueue = false)

include hNew

/- A blocked thread leaves all queues as they are. -/
theorem removesExactly_iff_of_blocked
    (hOld : (k.thread me).status.onRunqueue = false) :
    RemovesExactly cfg k me status ↔ Removable k me := by
  have hSet : schedSetStatus cfg k me status = some (k.setStatus me status) :=
    schedSetStatus_keep_off hNew hOld
  constructor
  · rintro ⟨hCircular, k', hSome, _, hRot, _⟩
    rw [hSet] at hSome
    cases hSome
    refine ⟨hCircular, ?_, ?_⟩
    · intro hOn
      rw [hOld] at hOn
      cases hOn
    · intro _
      exact notMem_of_isRotated_erase hRot
  · intro hRem
    refine ⟨hRem.circular, _, hSet, hRem.circular, ?_, fun _ _ _ => rfl⟩
    rw [List.erase_of_not_mem (hRem.blocked hOld)]
    exact .refl _

/- The first thread to lose its place is the caller. -/
theorem removable_of_removesExactly
    (hOld : (k.thread me).status.onRunqueue = true)
    (hPrio : (k.thread me).priority < schedPrioLevels)
    (hRemoves : RemovesExactly cfg k me status) :
    Removable k me := by
  rcases hRemoves with ⟨hCircular, k', hSet, hCircular', hRot, hOther⟩
  refine ⟨hCircular, ?_, ?_⟩
  · intro _
    have hCirc := hCircular _ hPrio
    rcases schedSetStatus_some hSet with ⟨hSame, _⟩ | ⟨hOn, _⟩ | ⟨_, mem, first, hPop, _, rfl⟩
    · rw [hNew, hOld] at hSame
      cases hSame
    · rw [hNew] at hOn
      cases hOn
    · cases hq : k.runqueue (k.thread me).priority with
      | nil => exact .inl rfl
      | cons x rest =>
        rw [hq] at hCirc hRot
        have hNext : (poppedKernel cfg k mem me status).next = mem := by
          rw [poppedKernel_eq]
        rcases clistLpop_spec hCirc with ⟨mem₁, hEq, hTail, _, _⟩
        have hMem : mem₁ = mem := by
          rw [hEq] at hPop
          cases hPop
          rfl
        rw [hMem, ← hNext] at hTail
        rw [runqueue_eq_of_isCircular hTail] at hRot
        have hx : x = me := head_eq_of_tail_perm_erase hCirc.1 hRot.perm
        subst hx
        cases rest with
        | nil => exact .inr (.inl rfl)
        | cons y rest =>
          refine .inr (.inr ⟨rfl, ?_⟩)
          intro p hp hNe
          have hAfter := hCircular' p hp
          rw [hOther p hp hNe, hNext] at hAfter
          exact clistLpop_shared hCirc hPop hAfter
  · intro hOff
    rw [hOld] at hOff
    cases hOff

/- A removable caller is removed. -/
theorem removesExactly_of_removable
    (hOld : (k.thread me).status.onRunqueue = true)
    (hPrio : (k.thread me).priority < schedPrioLevels) (hRem : Removable k me) :
    RemovesExactly cfg k me status := by
  have hCirc := hRem.circular _ hPrio
  rcases clistLpop_spec hCirc with ⟨mem, hPop, hTail, hHeads, hEntry⟩
  -- The other queues keep their nodes in all three cases.
  have hOther : ∀ p < schedPrioLevels, p ≠ (k.thread me).priority →
        IsCircular mem (.runqueue p) (k.runqueue p) := by
    intro p hp hNe
    have hBefore := hRem.circular p hp
    have hHead : ListHead.runqueue (N := N) p ≠ .runqueue (k.thread me).priority := by
      simpa using hNe
    cases hq : k.runqueue (k.thread me).priority with
    | nil =>
      rw [hq] at hEntry
      exact hBefore.congr (hHeads _ hHead) (fun e _ => hEntry e (by simp))
    | cons x rest =>
      rw [hq] at hCirc
      apply clistLpop_other hCirc hPop hHead hBefore
      rcases hRem.runnable hOld with hNil | hOne | ⟨hFirst, hApart⟩
      · rw [hq] at hNil
        cases hNil
      · rw [hq] at hOne
        cases hOne
        exact .inl rfl
      · rw [hq] at hFirst
        cases hFirst
        exact .inr (hApart p hp hNe)
  have hCount : countRunqueues mem = some () := by
    apply countRunqueues_eq_some_iff.mpr
    intro p hp
    by_cases hEq : p = (k.thread me).priority
    · subst hEq
      exact ⟨_, hTail⟩
    · exact ⟨_, hOther p hp hEq⟩
  have hSet : schedSetStatus cfg k me status = some (poppedKernel cfg k mem me status) := by
    unfold schedSetStatus poppedKernel
    simp only [hNew, hOld, hPop, hCount, Option.bind_eq_bind, Option.bind_some, if_true,
      Bool.false_eq_true, if_false]
    split <;> rfl
  have hNext : (poppedKernel cfg k mem me status).next = mem := by
    rw [poppedKernel_eq]
  have hAfter : ∀ p < schedPrioLevels, p ≠ (k.thread me).priority →
        (poppedKernel cfg k mem me status).runqueue p = k.runqueue p := by
    intro p hp hNe
    apply runqueue_eq_of_isCircular
    rw [hNext]
    exact hOther p hp hNe
  have hOwn : (poppedKernel cfg k mem me status).runqueue
          (k.thread me).priority = (k.runqueue (k.thread me).priority).tail := by
    apply runqueue_eq_of_isCircular
    rw [hNext]
    exact hTail
  refine ⟨hRem.circular, _, hSet, ?_, ?_, hAfter⟩
  · intro p hp
    by_cases hEq : p = (k.thread me).priority
    · subst hEq
      rw [hOwn, hNext]
      exact hTail
    · rw [hAfter p hp hEq, hNext]
      exact hOther p hp hEq
  · rw [hOwn]
    rcases hRem.runnable hOld with hNil | hOne | ⟨hFirst, _⟩
    · rw [hNil]
      exact .refl _
    · rw [hOne]
      simp
    · rcases List.head?_eq_some_iff.mp hFirst with ⟨rest, hq⟩
      rw [hq, List.tail_cons, List.erase_cons_head]

/- When a status change removes exactly its thread. -/
theorem removesExactly_iff
    (hPrio : (k.thread me).priority < schedPrioLevels) :
    RemovesExactly cfg k me status ↔ Removable k me := by
  by_cases hOld : (k.thread me).status.onRunqueue = true
  · exact ⟨removable_of_removesExactly hNew hOld hPrio, removesExactly_of_removable hNew hOld hPrio⟩
  · exact removesExactly_iff_of_blocked hNew (Bool.eq_false_of_not_eq_true hOld)

end

----
-- Running Threads
----

variable {N : Nat}

/-
  In every reachable state, blocking the running thread
  removes exactly that thread if and only if it is removable.
-/
theorem removesExactly_of_running_iff
    {cfg : Config N} {k : Kernel N} {me : Fin N} {status : ThreadStatus}
    (hReach : (schedSystem cfg).Reachable k) (hRunning : k.running cfg = some me)
    (hBlocks : status.onRunqueue = false) :
    RemovesExactly cfg k me status ↔ Removable k me := by
  have hManaged := ((managed_of_reachable hReach).1.running hRunning).2
  exact removesExactly_iff hBlocks hManaged.prio_lt

/- No recorded thread has used up its service time. -/
def NoneExhausted
    (k : Kernel N) : Prop :=
  ∀ (i : Fin 32) (t : Fin N), k.schedThreads (kernelPidFirst + i) = some t →
      exemptPid (k.thread t).pid = false → (k.thread t).sTime ≠ 0

instance
    (k : Kernel N) :
    Decidable (NoneExhausted k) := by
  unfold NoneExhausted
  infer_instance

theorem createRuns :
    (schedRuns idleConfig (fun _ _ => True) [.pendsv, .threadCreate false 2 8 4 1000]).any
      (fun k =>
        k.running idleConfig = some 1 ∧ countRunqueues k.next = some () ∧
        (k.thread 1).status.onRunqueue = true ∧
        (k.runqueue (k.thread 1).priority).head? = some 1 ∧
        ∀ p < schedPrioLevels, p ≠ (k.thread 1).priority → 1 ∉ k.runqueue p) ∧
    (schedRuns idleConfig (fun _ _ => True)
        [.pendsv, .threadCreate false 2 8 0 1000, .timerTick]).any
      (fun k =>
        NoneExhausted k ∧ k.running idleConfig = some 1 ∧
        (k.thread 1).status.onRunqueue = true ∧ (k.thread 1).priority = 1 ∧
        k.runqueue 1 = [2, 1]) := by
  decide +kernel

/- Main is first in front of a new thread and sleeps. -/
theorem removesExactly_main :
    ∃ k,
      schedRuns idleConfig (fun _ _ => True)
          [.pendsv, .threadCreate false 2 8 4 1000] = some k ∧ k.running idleConfig = some 1 ∧
        RemovesExactly idleConfig k 1 .sleeping := by
  rcases exists_reachable_of_schedRuns _ _ _ _ createRuns.1 with
    ⟨k, hRun, hReach, hRunning, hCount, hOn, hFirst, hApart⟩
  refine ⟨k, hRun, hRunning, ?_⟩
  apply (removesExactly_of_running_iff hReach hRunning rfl).mpr
  refine ⟨circularQueues_iff.mpr hCount, ?_, ?_⟩
  · exact fun _ => .inr (.inr ⟨hFirst, hApart⟩)
  · intro hOff
    rw [hOn] at hOff
    cases hOff

/-
  No service time is used up, but main is not first: the
  debug loop of the timer's `sched_run` has rotated queue 1.
-/
theorem not_removesExactly :
    ∃ k, (schedSystem idleConfig).Reachable k ∧ NoneExhausted k ∧
        k.running idleConfig = some 1 ∧ ¬ RemovesExactly idleConfig k 1 .sleeping := by
  rcases exists_reachable_of_schedRuns _ _ _ _ createRuns.2 with
    ⟨k, _, hReach, hNone, hRunning, hOn, hPrio, hQueue⟩
  refine ⟨k, hReach, hNone, hRunning, ?_⟩
  have hLevel : (k.thread 1).priority < schedPrioLevels := by
    rw [hPrio]
    decide
  rw [removesExactly_iff rfl hLevel]
  intro hRem
  have hCases := hRem.runnable hOn
  rw [hPrio, hQueue] at hCases
  simp at hCases

end Riot
