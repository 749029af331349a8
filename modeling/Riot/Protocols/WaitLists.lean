import Riot.Core.Mutex
import Riot.Scheduler.Links

/-
  Protocols apart from the scheduler: any thread that is not
  blocked may make the next call, and the status function
  only stores the status.
-/

----
-- Dispatching
----

namespace Riot

variable {N : Nat}

/- Some scheduler gives the CPU to the thread. -/
@[simps -fullyApplied next thread schedThreads msgBuffer mbox
  schedActiveThread schedActivePid]
def Kernel.dispatch
    (k : Kernel N) (t : Fin N) : Kernel N :=
  { k with schedActiveThread := some t, schedActivePid := (k.thread t).pid }

/- The thread is not blocked. -/
def Kernel.runnable
    (k : Kernel N) (t : Fin N) : Bool :=
  (k.thread t).status.onRunqueue

/- Yielding to another thread only raises a flag. -/
theorem schedSwitch_eq
    {k : Kernel N} {t : Fin N} (inIrq : Bool) (otherPrio : Nat)
    (hActive : k.schedActiveThread = some t) :
    ∃ k', schedSwitch inIrq k otherPrio = some k' ∧ ∃ c p, k' = { k with
              schedContextSwitchRequest := c
              pendsv := p } := by
  have hEq : schedSwitch inIrq k otherPrio = if !(k.thread t).status.onRunqueue ||
            (k.thread t).priority > otherPrio then
          if inIrq then
            some { k with schedContextSwitchRequest := true }
          else
            some (threadYieldHigher k)
        else
          some k := by
    unfold schedSwitch
    rw [hActive]
    rfl
  rw [hEq]
  split
  · split
    · exact ⟨_, rfl, true, k.pendsv, rfl⟩
    · exact ⟨_, rfl, k.schedContextSwitchRequest, true, rfl⟩
  · exact ⟨k, rfl, k.schedContextSwitchRequest, k.pendsv, rfl⟩

----
-- Wait Lists
----

open LinkMem

/-
  The memory holds the wait lists `w`; nothing is on a run
  queue, as the run queues are not kept.
-/
def WaitLists
    (mem : LinkMem (ListHead N) (Fin N)) (w : WaitHead N → List (Fin N)) : Prop :=
  Links mem (fun _ => []) w

namespace WaitLists

variable {mem : LinkMem (ListHead N) (Fin N)} {w : WaitHead N → List (Fin N)}
variable {h : WaitHead N} {t : Fin N} {l : List (Fin N)}

/- Threads outside the wait lists are unlinked. -/
theorem unlinked
    (hNot : ∀ h, t ∉ w h) :
    Unlinked (fun _ => []) w t := by
  refine ⟨?_, hNot⟩
  rintro ⟨p, _, hIn⟩
  cases hIn

/- References that are all null hold empty lists. -/
theorem of_null
    (hNull : ∀ h, mem (.head h) = .null) :
    WaitLists mem (fun _ => []) where
  queues :=
    ⟨fun p _ => IsCircular.nil_iff.mpr (hNull (.runqueue p)), fun _ _ _ _ _ hIn => nomatch hIn⟩
  waits := fun h => .inl (IsList.nil_iff.mpr (hNull (.waiting h)))
  apart := fun _ _ hIn => nomatch hIn
  single := fun _ _ _ hIn => nomatch hIn

section

variable (hWaits : WaitLists mem w)

include hWaits

/- A reference that is no member has an empty list. -/
theorem eq_nil_of_ne
    (hRef : ∀ e, mem (.head (.waiting h)) ≠ .ref e) :
    w h = [] := by
  cases hList : w h with
  | nil => rfl
  | cons e rest =>
    have hHead := (hWaits.waits h).head_ref_iff (t := e)
    rw [hList] at hHead
    exact (hRef e (hHead.mpr rfl)).elim

/- A null reference has an empty list. -/
theorem eq_nil_of_null
    (hNull : mem (.head (.waiting h)) = .null) :
    w h = [] := by
  apply hWaits.eq_nil_of_ne
  intro e hRef
  rw [hNull] at hRef
  cases hRef

/- So has the marker. -/
theorem eq_nil_of_mark
    (hMark : mem (.head (.waiting h)) = .mark) :
    w h = [] := by
  apply hWaits.eq_nil_of_ne
  intro e hRef
  rw [hMark] at hRef
  cases hRef

/- Without null and the marker there is a first waiter. -/
theorem exists_cons
    (hNull : mem (.head (.waiting h)) ≠ .null)
    (hMark : mem (.head (.waiting h)) ≠ .mark) :
    ∃ e rest, w h = e :: rest := by
  cases hRef : mem (.head (.waiting h)) with
  | null => exact (hNull hRef).elim
  | mark => exact (hMark hRef).elim
  | ref e =>
    have hHead := (hWaits.waits h).head_ref_iff.mp hRef
    exact ⟨e, _, List.eq_cons_of_mem_head? hHead⟩

/- The reference of a nonempty list designates its first. -/
theorem head_of_cons
    (hList : w h = t :: l) :
    mem (.head (.waiting h)) = .ref t := by
  apply (hWaits.waits h).head_ref_iff.mpr
  rw [hList]
  rfl

/- A list that is not marked ends with null. -/
theorem null_of_nil
    (hNe : mem (.head (.waiting h)) ≠ .mark) (hNil : w h = []) :
    mem (.head (.waiting h)) = .null := by
  have hList := (hWaits.waits h).isList_of_ne hNe
  rw [hNil] at hList
  exact IsList.nil_iff.mp hList

/- Such a list has no first member to remove. -/
theorem removeHead_nil
    (hNe : mem (.head (.waiting h)) ≠ .mark) (hNil : w h = []) :
    listRemoveHead mem (.waiting h) = some (mem, none) := by
  unfold listRemoveHead
  rw [hWaits.null_of_nil hNe hNil]

end

/- A blocked thread enters a wait list. -/
theorem threadAddToList
    {k : Kernel N} (hWaits : WaitLists k.next w)
    (hNe : k.next (.head (.waiting h)) ≠ .mark) (hNot : ∀ h, t ∉ w h)
    (hStatus : (k.thread t).status.onRunqueue = false) :
    ∃ mem, Riot.threadAddToList k h t = some { k with next := mem } ∧ WaitLists mem
          (Function.update w h (insertByPriority (fun t => (k.thread t).priority) t (w h))) ∧
        mem (.head (.waiting h)) ≠ .null ∧
        (∀ c, c ≠ .waiting h → mem (.head c) = k.next (.head c)) := by
  rcases Links.addToList (fun t => (k.thread t).priority)
      hWaits hNe (unlinked hNot) with
    ⟨mem, hAdd, hRest⟩
  refine ⟨mem, ?_, hRest⟩
  unfold Riot.threadAddToList
  rw [hStatus]
  simp only [Bool.false_eq_true, if_false]
  rw [hAdd]
  rfl

end WaitLists

/-
  Insertion keeps a list in the order of a relation that
  refines the priorities, if the new thread comes last among
  its equals.
-/
theorem insertByPriority_pairwise
    {before : Fin N → Fin N → Prop} {priority : Fin N → Nat} {t : Fin N} {l : List (Fin N)}
    (hSorted : l.Pairwise before)
    (hPrio : ∀ a b, before a b → priority a ≤ priority b)
    (hEarlier : ∀ e ∈ l, priority t < priority e → before t e)
    (hLater : ∀ e ∈ l, priority e ≤ priority t → before e t) :
    (insertByPriority priority t l).Pairwise before := by
  induction l with
  | nil => simp [insertByPriority]
  | cons e l ih =>
    rcases List.pairwise_cons.mp hSorted with ⟨hFirst, hRest⟩
    by_cases hLt : priority t < priority e
    · have hInsert : insertByPriority priority t (e :: l) = t :: e :: l := by
        simp [insertByPriority, hLt]
      rw [hInsert, List.pairwise_cons]
      refine ⟨?_, hSorted⟩
      intro x hx
      apply hEarlier x hx
      rcases List.mem_cons.mp hx with rfl | hIn
      · exact hLt
      · exact lt_of_lt_of_le hLt (hPrio e x (hFirst x hIn))
    · have hInsert : insertByPriority priority t (e :: l) = e :: insertByPriority priority t l := by
        simp [insertByPriority, hLt]
      rw [hInsert, List.pairwise_cons]
      constructor
      · intro x hx
        have hMem := (insertByPriority_perm priority l).mem_iff.mp hx
        rcases List.mem_cons.mp hMem with rfl | hIn
        · exact hLater e (by simp) (Nat.le_of_not_lt hLt)
        · exact hFirst x hIn
      · exact ih hRest
          (fun x hx => hEarlier x (List.mem_cons_of_mem _ hx))
          (fun x hx => hLater x (List.mem_cons_of_mem _ hx))

end Riot
