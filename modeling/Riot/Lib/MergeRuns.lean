import Mathlib.Data.List.Basic

/-
  Bottom-up merging: a list is cut into sorted runs, and a
  pass merges the runs two by two. The merge of two runs is
  the one of the standard library.
-/

----
-- Merging Two Runs
----

namespace MergeRuns

variable {α : Type} {le : α → α → Bool}

/- The elements that are level with `a`. -/
def level
    (le : α → α → Bool) (a x : α) : Bool :=
  le a x && le x a

/-
  Merging keeps the elements of a level in their order: an
  element of the second run goes ahead only when it is
  strictly below everything that is left of the first.
-/
theorem filter_merge
    (hTrans : ∀ a b c, le a b → le b c → le a c) (a : α) {xs ys : List α}
    (hSorted : xs.Pairwise (fun x y => le x y)) :
    (xs.merge ys le).filter (level le a) = xs.filter (level le a) ++ ys.filter (level le a) := by
  induction xs generalizing ys with
  | nil => simp
  | cons x xs ihX =>
    induction ys with
    | nil => simp
    | cons y ys ihY =>
      by_cases hLe : le x y
      · rw [List.cons_merge_cons_pos le xs ys hLe, List.filter_cons, List.filter_cons,
          ihX hSorted.of_cons]
        by_cases hLevel : level le a x
        · simp [hLevel]
        · simp [hLevel]
      · rw [List.cons_merge_cons_neg le xs ys hLe, List.filter_cons, ihY]
        by_cases hLevel : level le a y
        · -- nothing left of the first run is level with `y`
          have hNone : (x :: xs).filter (level le a) = [] := by
            rw [List.filter_eq_nil_iff]
            intro z hz hzLevel
            simp only [level, Bool.and_eq_true] at hLevel hzLevel
            have hzy := hTrans z a y hzLevel.2 hLevel.1
            rcases List.mem_cons.mp hz with rfl | hIn
            · exact hLe hzy
            · have hxz := (List.pairwise_cons.mp hSorted).1 z hIn
              exact hLe (hTrans x z y hxz hzy)
          rw [hNone]
          simp [hLevel]
        · simp [hLevel]

end MergeRuns

----
-- Passes
----

namespace MergeRuns

variable {α : Type} {le : α → α → Bool} {n : Nat} {rs : List (List α)}

/- One pass: the runs are merged two by two. -/
def mergePairs (le : α → α → Bool) :
    List (List α) → List (List α)
  | [] => []
  | [r] => [r]
  | r₁ :: r₂ :: rs => r₁.merge r₂ le :: mergePairs le rs

/- A pass halves the number of runs. -/
theorem length_mergePairs :
    (mergePairs le rs).length = (rs.length + 1) / 2 := by
  induction rs using mergePairs.induct with
  | case1 => simp [mergePairs]
  | case2 r => simp [mergePairs]
  | case3 r₁ r₂ rs ih =>
    simp only [mergePairs, List.length_cons, ih]
    omega

/- Runs of `n` elements each, the last one up to `n`. -/
def RunsOf (n : Nat) : List (List α) → Prop
  | [] => True
  | [r] => r ≠ [] ∧ r.length ≤ n
  | r₁ :: r₂ :: rs => r₁ ≠ [] ∧ r₁.length = n ∧ RunsOf n (r₂ :: rs)

theorem RunsOf.tail
    {r : List α} (hRuns : RunsOf n (r :: rs)) :
    RunsOf n rs := by
  cases rs with
  | nil => trivial
  | cons r₂ rs => exact hRuns.2.2

theorem RunsOf.head
    {r : List α} (hRuns : RunsOf n (r :: rs)) :
    r ≠ [] ∧ r.length ≤ n ∧ (rs ≠ [] → r.length = n) := by
  cases rs with
  | nil => exact ⟨hRuns.1, hRuns.2, fun hNe => absurd rfl hNe⟩
  | cons r₂ rs => exact ⟨hRuns.1, Nat.le_of_eq hRuns.2.1, fun _ => hRuns.2.1⟩

theorem RunsOf.cons
    {r : List α} (hNe : r ≠ []) (hLe : r.length ≤ n)
    (hFull : rs ≠ [] → r.length = n) (hRuns : RunsOf n rs) :
    RunsOf n (r :: rs) := by
  cases rs with
  | nil => exact ⟨hNe, hLe⟩
  | cons r₂ rs => exact ⟨hNe, hFull (by simp), hRuns⟩

/- There are no more runs than elements. -/
theorem RunsOf.length_le_flatten
    (hRuns : RunsOf n rs) :
    rs.length ≤ rs.flatten.length := by
  induction rs with
  | nil => simp
  | cons r rs ih =>
    have hPos := List.length_pos_iff.mpr hRuns.head.1
    have hRest := ih hRuns.tail
    simp only [List.length_cons, List.flatten_cons, List.length_append]
    omega

theorem RunsOf.flatten_ne_nil
    (hRuns : RunsOf n rs) (hNe : rs ≠ []) :
    rs.flatten ≠ [] := by
  intro hNil
  have hLen := hRuns.length_le_flatten
  rw [hNil, List.length_nil] at hLen
  exact hNe (List.length_eq_zero_iff.mp (Nat.le_zero.mp hLen))

/- A pass doubles the length of the runs. -/
theorem RunsOf.mergePairs
    (hRuns : RunsOf n rs) :
    RunsOf (2 * n) (mergePairs le rs) := by
  induction rs using MergeRuns.mergePairs.induct with
  | case1 => trivial
  | case2 r =>
    have hLe := hRuns.2
    exact ⟨hRuns.1, by omega⟩
  | case3 r₁ r₂ rs ih =>
    rcases hRuns.head with ⟨hNe₁, _, hLen₁⟩
    rcases hRuns.tail.head with ⟨hNe₂, hLe₂, hLen₂⟩
    have hEq₁ := hLen₁ (by simp)
    apply RunsOf.cons
    · intro hNil
      have hLen := congrArg List.length hNil
      rw [List.length_merge] at hLen
      have hPos := List.length_pos_iff.mpr hNe₁
      simp only [List.length_nil] at hLen
      omega
    · rw [List.length_merge]
      omega
    · intro hNe
      have hMore : rs ≠ [] := by
        intro hNil
        subst hNil
        exact hNe rfl
      have hEq₂ := hLen₂ hMore
      rw [List.length_merge]
      omega
    · exact ih hRuns.tail.tail

/- Single elements are runs. -/
theorem runsOf_singletons
    (l : List α) :
    RunsOf 1 (l.map ([·])) := by
  induction l with
  | nil => trivial
  | cons x l ih => exact RunsOf.cons (by simp) (by simp) (by simp) ih

end MergeRuns

----
-- Stability
----

namespace MergeRuns

variable {α : Type} {le : α → α → Bool} {l : List α} {rs : List (List α)}

/-
  Sorted runs that hold the elements of `l`, those of each
  level in the order in which they stand in `l`.
-/
structure StableRuns
    (le : α → α → Bool) (l : List α)
    (rs : List (List α)) : Prop where
  perm : rs.flatten.Perm l
  sorted : ∀ r ∈ rs, r.Pairwise (fun x y => le x y)
  stable : ∀ a, rs.flatten.filter (level le a) = l.filter (level le a)

/- Merging two by two keeps the elements of each level. -/
theorem mergePairs_filter
    (hTrans : ∀ a b c, le a b → le b c → le a c) (a : α)
    (hSorted : ∀ r ∈ rs, r.Pairwise (fun x y => le x y)) :
    (mergePairs le rs).flatten.filter (level le a) = rs.flatten.filter (level le a) := by
  induction rs using mergePairs.induct with
  | case1 => rfl
  | case2 r => rfl
  | case3 r₁ r₂ rs ih =>
    have hFirst := hSorted r₁ (by simp)
    have hRest := ih (fun r hr => hSorted r (by simp [hr]))
    simp only [mergePairs, List.flatten_cons, List.filter_append, hRest,
      filter_merge hTrans a hFirst, List.append_assoc]

theorem mergePairs_perm :
    (mergePairs le rs).flatten.Perm rs.flatten := by
  induction rs using mergePairs.induct with
  | case1 => rfl
  | case2 r => rfl
  | case3 r₁ r₂ rs ih =>
    simp only [mergePairs, List.flatten_cons, ← List.append_assoc]
    exact (List.merge_perm_append le).append ih

theorem mergePairs_sorted
    (hTrans : ∀ a b c, le a b → le b c → le a c) (hTotal : ∀ a b, le a b || le b a)
    (hSorted : ∀ r ∈ rs, r.Pairwise (fun x y => le x y)) :
    ∀ r ∈ mergePairs le rs, r.Pairwise (fun x y => le x y) := by
  induction rs using mergePairs.induct with
  | case1 => simp [mergePairs]
  | case2 r => exact hSorted
  | case3 r₁ r₂ rs ih =>
    intro r hr
    rcases List.mem_cons.mp hr with rfl | hr
    · exact List.pairwise_merge hTrans hTotal r₁ r₂ (hSorted r₁ (by simp)) (hSorted r₂ (by simp))
    · exact ih (fun r hr => hSorted r (by simp [hr])) r hr

/- A pass keeps stable runs. -/
theorem StableRuns.mergePairs
    (hTrans : ∀ a b c, le a b → le b c → le a c) (hTotal : ∀ a b, le a b || le b a)
    (hRuns : StableRuns le l rs) :
    StableRuns le l (mergePairs le rs) where
  perm := mergePairs_perm.trans hRuns.perm
  sorted := mergePairs_sorted hTrans hTotal hRuns.sorted
  stable a := (mergePairs_filter hTrans a hRuns.sorted).trans (hRuns.stable a)

theorem flatten_singletons
    (l : List α) :
    (l.map ([·])).flatten = l := by
  induction l with
  | nil => rfl
  | cons x l ih => simp [ih]

theorem stableRuns_singletons
    (l : List α) :
    StableRuns le l (l.map ([·])) where
  perm := by
    rw [flatten_singletons]
  sorted := by
    intro r hr
    rcases List.mem_map.mp hr with ⟨x, _, rfl⟩
    exact List.pairwise_singleton _ x
  stable a := by
    rw [flatten_singletons]

/- Two elements of a level stay in their order. -/
theorem StableRuns.pair_sublist
    {a b : α} (hRefl : ∀ x, le x x) (hRuns : StableRuns le l rs)
    (hLevel : le a b ∧ le b a) (hSub : [a, b].Sublist l) :
    [a, b].Sublist rs.flatten := by
  have hPair : [a, b].filter (level le a) = [a, b] := by
    simp [level, hRefl a, hLevel.1, hLevel.2]
  have hKept := hSub.filter (level le a)
  rw [hPair, ← hRuns.stable a] at hKept
  exact hKept.trans List.filter_sublist

end MergeRuns
