import Riot.Scheduler.Runqueues
import Riot.Core.Thread

/-
  Run queues and wait lists side by side.

  A thread has one list member, `rq_entry`, for the run
  queues and for all wait lists.  `Links mem q w` says that
  the memory holds the run queues `q` and the wait lists `w`
  and that no thread is linked twice.
-/

----
-- Held Lists
----

namespace Riot

open LinkMem

variable {N : Nat}

/-
  A wait list holds `l`; the marker of a taken mutex counts
  as an empty list.
-/
def HoldsWaiters
    (mem : LinkMem (ListHead N) (Fin N))
    (h : WaitHead N)
    (l : List (Fin N)) : Prop :=
  IsList mem (.waiting h) l ∨ (l = [] ∧ mem (.head (.waiting h)) = .mark)

/- All lists of the kernel, linked without overlap. -/
structure Links
    (mem : LinkMem (ListHead N) (Fin N)) (q : Nat → List (Fin N))
    (w : WaitHead N → List (Fin N)) : Prop where
  queues : Runqueues mem q
  waits : ∀ h, HoldsWaiters mem h (w h)
  apart : ∀ h, ∀ t ∈ w h, ¬ OnQueues q t
  single : ∀ h h', ∀ t ∈ w h, t ∈ w h' → h = h'

/- The thread is in no list. -/
def Unlinked
    (q : Nat → List (Fin N)) (w : WaitHead N → List (Fin N)) (t : Fin N) : Prop :=
  ¬ OnQueues q t ∧ ∀ h, t ∉ w h

namespace HoldsWaiters

variable {mem mem' : LinkMem (ListHead N) (Fin N)} {h : WaitHead N} {t : Fin N}
variable {l : List (Fin N)}

/- A wait list reads its reference and its members. -/
theorem congr
    (hHolds : HoldsWaiters mem h l)
    (hHead : mem' (.head (.waiting h)) = mem (.head (.waiting h)))
    (hSame : ∀ e ∈ l, mem' (.entry e) = mem (.entry e)) :
    HoldsWaiters mem' h l := by
  rcases hHolds with hList | ⟨hNil, hMark⟩
  · exact .inl (hList.congr hHead hSame)
  · exact .inr ⟨hNil, hHead.trans hMark⟩

/- A nonempty wait list is null-terminated. -/
theorem isList_of_cons
    (hHolds : HoldsWaiters mem h (t :: l)) :
    IsList mem (.waiting h) (t :: l) := by
  rcases hHolds with hList | ⟨hNil, _⟩
  · exact hList
  · cases hNil

section

variable (hHolds : HoldsWaiters mem h l)

include hHolds

/- Without the marker a wait list is null-terminated. -/
theorem isList_of_ne
    (hNe : mem (.head (.waiting h)) ≠ .mark) :
    IsList mem (.waiting h) l := by
  rcases hHolds with hList | ⟨_, hMark⟩
  · exact hList
  · exact (hNe hMark).elim

/- The reference of a wait list tells its first member. -/
theorem head_ref_iff :
    mem (.head (.waiting h)) = .ref t ↔ l.head? = some t := by
  rcases hHolds with ⟨_, hSeg⟩ | ⟨rfl, hMark⟩
  · cases l with
    | nil =>
      have hNull : mem (.head (.waiting h)) = .null := hSeg
      simp [hNull]
    | cons e l => simp [hSeg.1]
  · simp [hMark]

/- Members of a wait list are distinct. -/
theorem nodup :
    l.Nodup := by
  rcases hHolds with hList | ⟨rfl, _⟩
  · exact hList.1
  · simp

/- The walk over a wait list returns its members. -/
theorem listNodes_eq :
    listNodes N mem (.waiting h) = l := by
  have hFits := length_le_of_nodup hHolds.nodup
  rcases hHolds with hList | ⟨rfl, hMark⟩
  · exact hList.listNodes_eq hFits
  · unfold listNodes
    rw [hMark]
    cases N <;> rfl

end

end HoldsWaiters

----
-- Operations
----

namespace Links

variable {N : Nat} {mem mem' : LinkMem (ListHead N) (Fin N)}
variable {q q' : Nat → List (Fin N)} {w : WaitHead N → List (Fin N)}
variable {h : WaitHead N} {t : Fin N} {l : List (Fin N)}

section

variable (hLinks : Links mem q w)

include hLinks

/- Run-queue operations leave the wait lists alone. -/
theorem withQueues
    {changed : Fin N → Prop} (hQ : Runqueues mem' q')
    (hSame : SameOutside mem mem' changed) (hKept : ∀ h, ∀ t ∈ w h, ¬ changed t)
    (hApart : ∀ h, ∀ t ∈ w h, ¬ OnQueues q' t) :
    Links mem' q' w where
  queues := hQ
  waits := by
    intro h
    exact (hLinks.waits h).congr (hSame.1 h) (fun e he => hSame.2 e (hKept h e he))
  apart := hApart
  single := hLinks.single

/-
  One wait list changes: its new members were unlinked, and
  only its own cells are stored to.
-/
theorem withWaiters
    (hHolds : HoldsWaiters mem' h l) (hNew : ∀ e ∈ l, e ∈ w h ∨ Unlinked q w e)
    (hHeads : ∀ c, c ≠ .waiting h → mem' (.head c) = mem (.head c))
    (hEntries : ∀ e, e ∉ w h → ¬ Unlinked q w e → mem' (.entry e) = mem (.entry e)) :
    Links mem' q (Function.update w h l) where
  queues := by
    apply hLinks.queues.congr
    · intro p _
      exact hHeads _ (by simp)
    · intro e hOn
      apply hEntries e
      · exact fun hIn => hLinks.apart h e hIn hOn
      · exact fun hOff => hOff.1 hOn
  waits := by
    intro h'
    by_cases hEq : h' = h
    · subst hEq
      simpa using hHolds
    · rw [Function.update_of_ne hEq]
      apply (hLinks.waits h').congr
      · exact hHeads _ (by simpa using hEq)
      · intro e he
        apply hEntries e
        · exact fun hIn => hEq (hLinks.single h' h e he hIn)
        · exact fun hOff => hOff.2 h' he
  apart := by
    intro h' e he
    by_cases hEq : h' = h
    · subst hEq
      rw [Function.update_self] at he
      rcases hNew e he with hOld | hOff
      · exact hLinks.apart h' e hOld
      · exact hOff.1
    · rw [Function.update_of_ne hEq] at he
      exact hLinks.apart h' e he
  single := by
    have hOther : ∀ h', h' ≠ h → ∀ e ∈ w h', e ∉ l := by
      intro h' hNe e he hIn
      rcases hNew e hIn with hOld | hOff
      · exact hNe (hLinks.single h' h e he hOld)
      · exact hOff.2 h' he
    intro h₁ h₂ e he₁ he₂
    by_cases hEq₁ : h₁ = h
    · by_cases hEq₂ : h₂ = h
      · exact hEq₁.trans hEq₂.symm
      · subst hEq₁
        rw [Function.update_self] at he₁
        rw [Function.update_of_ne hEq₂] at he₂
        exact (hOther h₂ hEq₂ e he₂ he₁).elim
    · rw [Function.update_of_ne hEq₁] at he₁
      by_cases hEq₂ : h₂ = h
      · subst hEq₂
        rw [Function.update_self] at he₂
        exact (hOther h₁ hEq₁ e he₁ he₂).elim
      · rw [Function.update_of_ne hEq₂] at he₂
        exact hLinks.single h₁ h₂ e he₁ he₂

/- Removing the first waiter. -/
theorem removeHead
    (hHead : w h = t :: l) :
    listRemoveHead mem (.waiting h) =
        some (mem.set (.head (.waiting h)) (mem (.entry t)), some t) ∧
      Links (mem.set (.head (.waiting h)) (mem (.entry t))) q (Function.update w h l) := by
  have hHolds := hLinks.waits h
  rw [hHead] at hHolds
  rcases listRemoveHead_spec hHolds.isList_of_cons with ⟨hRemove, hList⟩
  refine ⟨hRemove, ?_⟩
  apply hLinks.withWaiters (.inl hList)
  · intro e he
    left
    rw [hHead]
    exact List.mem_cons_of_mem _ he
  · intro c hNe
    exact set_of_ne _ _ (by simpa using hNe)
  · intro e _ _
    exact set_head_entry _ _ _ _

/- Without its first waiter the list is not marked. -/
theorem takeFirst
    (hHead : w h = t :: l) :
    ∃ mem', listRemoveHead mem (.waiting h) = some (mem', some t) ∧
        Links mem' q (Function.update w h l) ∧ mem' (.head (.waiting h)) ≠ .mark ∧
        (∀ c, c ≠ .waiting h → mem' (.head c) = mem (.head c)) := by
  rcases hLinks.removeHead hHead with ⟨hRemove, hLinks'⟩
  refine ⟨_, hRemove, hLinks', ?_, ?_⟩
  · have hHolds := hLinks.waits h
    rw [hHead] at hHolds
    have hRest := (listRemoveHead_spec hHolds.isList_of_cons).2
    cases l with
    | nil =>
      rw [IsList.nil_iff.mp hRest]
      simp
    | cons e l =>
      rw [hRest.2.1]
      simp
  · intro c hNe
    exact set_of_ne _ _ (by simpa using hNe)

/- The reference of a list with a member is no mark. -/
theorem ne_mark_of_mem
    (hIn : t ∈ w h) :
    mem (.head (.waiting h)) ≠ .mark := by
  intro hMark
  cases hList : w h with
  | nil =>
    rw [hList] at hIn
    cases hIn
  | cons e l =>
    have hHead := (hLinks.waits h).head_ref_iff (t := e)
    rw [hList, hMark] at hHead
    cases hHead.mpr rfl

end

/- Inserting an unlinked thread by priority. -/
theorem addToList
    (priority : Fin N → Nat) (hLinks : Links mem q w)
    (hNe : mem (.head (.waiting h)) ≠ .mark) (hOff : Unlinked q w t) :
    ∃ mem', threadAddToListFrom priority t (N + 1) mem (.head (.waiting h)) = some mem' ∧
        Links mem' q (Function.update w h (insertByPriority priority t (w h))) ∧
        mem' (.head (.waiting h)) ≠ .null ∧
        (∀ c, c ≠ .waiting h → mem' (.head c) = mem (.head c)) := by
  have hList := (hLinks.waits h).isList_of_ne hNe
  have hFits := length_le_of_nodup hList.1
  rcases threadAddToListFrom_spec priority hList.2
      (hOff.2 h) (by simp) (by simp) hList.1
      (Nat.lt_succ_of_le hFits) with
    ⟨mem', hAdd, hSeg, hSame⟩
  have hPerm : (insertByPriority priority t (w h)).Perm (t :: w h) :=
    insertByPriority_perm priority (w h)
  have hHeads : ∀ c, c ≠ .waiting h → mem' (.head c) = mem (.head c) := by
    intro c hNeHead
    exact hSame _ (by simpa using hNeHead) (by simp) (by simp)
  refine ⟨mem', hAdd, ?_, ?_, hHeads⟩
  · apply hLinks.withWaiters
    · refine .inl ⟨?_, hSeg⟩
      rw [hPerm.nodup_iff, List.nodup_cons]
      exact ⟨hOff.2 h, hList.1⟩
    · intro e he
      rcases List.mem_cons.mp (hPerm.mem_iff.mp he) with
        rfl | hOld
      · exact .inr hOff
      · exact .inl hOld
    · exact hHeads
    · intro e hNotIn hLinked
      apply hSame
      · simp
      · intro hEq
        cases hEq
        exact hLinked hOff
      · intro x hx hEq
        cases hEq
        exact hNotIn hx
  · intro hNull
    rw [hNull] at hSeg
    cases hInsert : insertByPriority priority t (w h) with
    | nil =>
      rw [hInsert] at hPerm
      simpa using hPerm.length_eq
    | cons e rest =>
      rw [hInsert] at hSeg
      cases hSeg.1

/- The first waiter of a taken mutex. -/
theorem firstWaiter
    (hLinks : Links mem q w) (hOff : Unlinked q w t) :
    Links ((mem.set (.head (.waiting h)) (.ref t)).set (.entry t) .null)
      q (Function.update w h [t]) := by
  apply hLinks.withWaiters
  · left
    refine ⟨by simp, ?_⟩
    simp [Seg]
  · intro e he
    rw [List.mem_singleton] at he
    exact .inr (he ▸ hOff)
  · intro c hNe
    rw [set_entry_head, set_of_ne _ _ (by simpa using hNe)]
  · intro e _ hLinked
    have hNe : e ≠ t := by
      rintro rfl
      exact hLinked hOff
    rw [set_of_ne _ _ (by simpa using hNe), set_head_entry]

/- An empty list may switch between null and the marker. -/
theorem setEmptyHead
    {v : Link (Fin N)} (hLinks : Links mem q w) (hNil : w h = [])
    (hv : v = .null ∨ v = .mark) :
    Links (mem.set (.head (.waiting h)) v) q w := by
  have hHolds : HoldsWaiters (mem.set (.head (.waiting h)) v) h [] := by
    rcases hv with rfl | rfl
    · exact .inl (IsList.nil_iff.mpr (set_same _ _ _))
    · exact .inr ⟨rfl, set_same _ _ _⟩
  have hUpdate : Function.update w h [] = w := by
    rw [← hNil, Function.update_eq_self]
  rw [← hUpdate]
  apply hLinks.withWaiters hHolds
  · simp
  · intro c hNe
    exact set_of_ne _ _ (by simpa using hNe)
  · intro e _ _
    exact set_head_entry _ _ _ _

/- Storing into the member of an unlinked thread. -/
theorem setEntry
    {v : Link (Fin N)} (hLinks : Links mem q w) (hOff : Unlinked q w t) :
    Links (mem.set (.entry t) v) q w where
  queues := by
    apply hLinks.queues.congr
    · intro p _
      exact set_entry_head _ _ _ _
    · intro e hOn
      apply set_of_ne
      intro hEq
      cases hEq
      exact hOff.1 hOn
  waits := by
    intro h
    apply (hLinks.waits h).congr (set_entry_head _ _ _ _)
    intro e he
    apply set_of_ne
    intro hEq
    cases hEq
    exact hOff.2 h he
  apart := hLinks.apart
  single := hLinks.single

end Links

end Riot
