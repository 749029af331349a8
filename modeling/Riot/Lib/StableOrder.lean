import Mathlib.Data.List.Sort
import Mathlib.Tactic.Common

/-
  A list against the members it holds in the order in which
  they came: sorted by a key, with equal keys in the order
  of their arrival.
-/

----
-- Stable Order
----

/-
  The list `l` holds the members of `live`, smallest key
  first, and the members of one key in the order of `live`.
-/
structure StableOrder
    {α κ : Type}
    [LinearOrder κ]
    (key : α → κ)
    (l live : List α) : Prop where
  perm : l.Perm live
  sorted : l.Pairwise (fun a b => key a ≤ key b)
  level : ∀ k, l.filter (fun a => key a = k) = live.filter (fun a => key a = k)

namespace StableOrder

variable {α κ : Type} [LinearOrder κ] {key key' : α → κ} {l live : List α} {a x : α}

/- Nothing is in order. -/
theorem nil :
    StableOrder key ([] : List α) [] :=
  ⟨.refl _, .nil, fun _ => rfl⟩

/- Only the keys of the members matter. -/
theorem congr
    (hOrder : StableOrder key l live) (hSame : ∀ a ∈ live, key' a = key a) :
    StableOrder key' l live := by
  have hSameL : ∀ a ∈ l, key' a = key a := fun a ha => hSame a (hOrder.perm.mem_iff.mp ha)
  refine ⟨hOrder.perm, ?_, ?_⟩
  · refine hOrder.sorted.imp_of_mem ?_
    intro b c hb hc hLe
    rwa [hSameL b hb, hSameL c hc]
  · intro k
    have hLeft : l.filter (fun a => key' a = k) = l.filter (fun a => key a = k) :=
      List.filter_congr (fun b hb => by rw [hSameL b hb])
    have hRight : live.filter (fun a => key' a = k) = live.filter (fun a => key a = k) :=
      List.filter_congr (fun b hb => by rw [hSame b hb])
    rw [hLeft, hRight, hOrder.level k]

/- A sorted list stays sorted when `a` goes behind its equals. -/
theorem sorted_insert
    (hSorted : l.Pairwise (fun a b => key a ≤ key b)) :
    (l.orderedInsert (fun a b => key a < key b) a).Pairwise (fun a b => key a ≤ key b) := by
  induction l with
  | nil => simp
  | cons b l ih =>
    rcases List.pairwise_cons.mp hSorted with ⟨hHead, hTail⟩
    rw [List.orderedInsert_cons]
    by_cases hLt : key a < key b
    · rw [if_pos hLt, List.pairwise_cons]
      refine ⟨?_, hSorted⟩
      intro c hc
      rcases List.mem_cons.mp hc with rfl | hIn
      · exact hLt.le
      · exact hLt.le.trans (hHead c hIn)
    · rw [if_neg hLt, List.pairwise_cons]
      refine ⟨?_, ih hTail⟩
      intro c hc
      rcases (List.mem_orderedInsert _).mp hc with rfl | hIn
      · exact not_lt.mp hLt
      · exact hHead c hIn

/- The inserted member is the last one of its key. -/
theorem filter_insert
    (hSorted : l.Pairwise (fun a b => key a ≤ key b)) (k : κ) :
    (l.orderedInsert (fun a b => key a < key b) a).filter
        (fun a => key a = k) = (l ++ [a]).filter (fun a => key a = k) := by
  induction l with
  | nil => rfl
  | cons b l ih =>
    rcases List.pairwise_cons.mp hSorted with ⟨hHead, hTail⟩
    rw [List.orderedInsert_cons]
    by_cases hLt : key a < key b
    · rw [if_pos hLt, List.filter_append]
      by_cases hKey : key a = k
      · -- everything from `b` on has a greater key
        have hNone : (b :: l).filter (fun a => key a = k) = [] := by
          rw [List.filter_eq_nil_iff]
          intro c hc
          have hLe : key b ≤ key c := by
            rcases List.mem_cons.mp hc with rfl | hIn
            · exact le_rfl
            · exact hHead c hIn
          have hNe : key c ≠ k := hKey ▸ (hLt.trans_le hLe).ne'
          simpa using hNe
        rw [List.filter_cons, hNone]
        simp [hKey]
      · simp [List.filter_cons, hKey]
    · rw [if_neg hLt, List.filter_cons, ih hTail, List.cons_append, List.filter_cons]

/- A member that arrives last goes behind its equals. -/
theorem insert
    (hOrder : StableOrder key l live) :
    StableOrder key (l.orderedInsert (fun a b => key a < key b) a) (live ++ [a]) := by
  refine ⟨?_, sorted_insert hOrder.sorted, ?_⟩
  · exact ((List.perm_orderedInsert _ a l).trans
        (hOrder.perm.cons a)).trans (List.perm_append_singleton a live).symm
  · intro k
    rw [filter_insert hOrder.sorted, List.filter_append, hOrder.level k, List.filter_append]

/- A member leaves both. -/
theorem erase
    [DecidableEq α] (hOrder : StableOrder key l live) :
    StableOrder key (l.erase a) (live.erase a) := by
  refine ⟨hOrder.perm.erase a, hOrder.sorted.sublist List.erase_sublist, ?_⟩
  intro k
  rw [← List.erase_filter, hOrder.level k, List.erase_filter]

/-
  The front of the list is the first arrival among the
  members of the smallest key.
-/
theorem find?_least
    (hOrder : StableOrder key l live) :
    live.find? (fun a => ∀ b ∈ live, key a ≤ key b) = l.head? := by
  cases l with
  | nil =>
    rw [hOrder.perm.symm.eq_nil]
    rfl
  | cons x l =>
    have hLeast : ∀ b ∈ live, key x ≤ key b := by
      intro b hb
      rcases List.mem_cons.mp (hOrder.perm.mem_iff.mpr hb) with
        rfl | hIn
      · exact le_rfl
      · exact (List.pairwise_cons.mp hOrder.sorted).1 b hIn
    have hx : x ∈ live := hOrder.perm.mem_iff.mp List.mem_cons_self
    have hSame : live.filter
            (fun a => decide (∀ b ∈ live, key a ≤ key b)) =
          live.filter (fun a => key a = key x) := by
      apply List.filter_congr
      intro a ha
      rw [decide_eq_decide]
      constructor
      · intro hAll
        exact le_antisymm (hAll x hx) (hLeast a ha)
      · intro hEq b hb
        rw [hEq]
        exact hLeast b hb
    rw [← List.head?_filter, hSame, ← hOrder.level]
    simp

end StableOrder
