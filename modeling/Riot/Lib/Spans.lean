import Mathlib.Algebra.BigOperators.Group.List.Basic
import Mathlib.Data.List.Perm.Basic
import Riot.Lib.ByteMemory

/-
  Spans of a memory, and which addresses a list of spans
  covers.
-/

----
-- Spans
----

/- The addresses from `addr` on, `size` of them. -/
structure Span where
  addr : Nat
  size : Nat
deriving DecidableEq, Repr

namespace Span

/- The first address after the span. -/
def stop
    (r : Span) : Nat :=
  r.addr + r.size

def Contains
    (r : Span) (x : Nat) : Prop :=
  r.addr ≤ x ∧ x < r.stop

instance
    (r : Span) (x : Nat) :
    Decidable (r.Contains x) :=
  inferInstanceAs (Decidable (_ ∧ _))

/- No address is in both. -/
def Apart
    (r s : Span) : Prop :=
  ∀ x, r.Contains x → ¬ s.Contains x

theorem contains_iff
    {r : Span} {x : Nat} :
    r.Contains x ↔ r.addr ≤ x ∧ x < r.addr + r.size := by
  rfl

end Span

/- How many of the spans contain an address. -/
def cover
    (rs : List Span) (x : Nat) : Nat :=
  rs.countP (fun r => r.Contains x)

section Cover

variable {r s : Span} {rs ss : List Span} {x : Nat}

@[simp]
theorem cover_nil :
    cover [] x = 0 := by
  rfl

theorem cover_cons :
    cover (r :: rs) x = cover rs x + if r.Contains x then 1 else 0 := by
  simp [cover, List.countP_cons]

theorem cover_eq_zero_iff :
    cover rs x = 0 ↔ ∀ r ∈ rs, ¬ r.Contains x := by
  simp [cover, List.countP_eq_zero]

theorem exists_of_cover_pos
    (hPos : 0 < cover rs x) :
    ∃ r ∈ rs, r.Contains x := by
  by_contra hNone
  have hZero : cover rs x = 0 := cover_eq_zero_iff.mpr (fun r hMem hIn => hNone ⟨r, hMem, hIn⟩)
  omega

end Cover

----
-- Counting
----

section Counting

variable {r : Span} {rs : List Span} {n x : Nat}

theorem cover_le_one
    (hApart : rs.Pairwise Span.Apart) :
    cover rs x ≤ 1 := by
  induction hApart with
  | nil => simp
  | cons hHead _ ih =>
    rw [cover_cons]
    split
    · rename_i hIn
      have hZero := cover_eq_zero_iff.mpr (fun s hMem => hHead s hMem x hIn)
      omega
    · exact ih

/- The addresses below `n` that are in a span. -/
theorem sum_range_contains
    (a b n : Nat) :
    ((List.range n).map
      (fun x => if a ≤ x ∧ x < a + b then 1 else 0)).sum = min (a + b) n - min a n := by
  induction n with
  | zero => simp
  | succ n ih =>
    rw [List.range_succ, List.map_append, List.sum_append, ih]
    simp only [List.map_cons, List.map_nil, List.sum_cons, List.sum_nil]
    split <;> omega

theorem sum_cover
    (hIn : ∀ r ∈ rs, r.stop ≤ n) :
    ((List.range n).map (cover rs)).sum = (rs.map Span.size).sum := by
  induction rs with
  | nil =>
    have hZero : cover [] = fun _ => 0 := rfl
    simp [hZero]
  | cons r rs ih =>
    have hTail := ih (fun s hMem =>
      hIn s (List.mem_cons_of_mem _ hMem))
    have hHead : r.addr + r.size ≤ n := hIn r List.mem_cons_self
    have hOne := sum_range_contains r.addr r.size n
    have hSplit :
        ((List.range n).map (cover (r :: rs))).sum = ((List.range n).map (cover rs)).sum +
            ((List.range n).map (fun x =>
              if r.addr ≤ x ∧ x < r.addr + r.size
              then 1 else 0)).sum := by
      rw [← List.sum_map_add]
      congr 1
      apply List.map_congr_left
      intro x _
      simp only [cover_cons, Span.contains_iff]
    rw [hSplit, hTail, hOne, List.map_cons, List.sum_cons]
    omega

theorem sum_range_le_of_le_one
    {f : Nat → Nat} (hLe : ∀ x, f x ≤ 1) :
    ((List.range n).map f).sum ≤ n := by
  induction n with
  | zero => simp
  | succ n ih =>
    have hLast := hLe n
    rw [List.range_succ, List.map_append, List.sum_append]
    simp only [List.map_cons, List.map_nil, List.sum_cons, List.sum_nil]
    omega

theorem sum_range_lt_of_zero
    {f : Nat → Nat} (hLe : ∀ x, f x ≤ 1) (hx : x < n) (hZero : f x = 0) :
    ((List.range n).map f).sum < n := by
  induction n with
  | zero => omega
  | succ n ih =>
    have hLast := hLe n
    have hRest : ((List.range n).map f).sum ≤ n := sum_range_le_of_le_one hLe
    rw [List.range_succ, List.map_append, List.sum_append]
    simp only [List.map_cons, List.map_nil, List.sum_cons, List.sum_nil]
    by_cases hEq : x = n
    · subst hEq
      omega
    · have hLt := ih (by omega)
      omega

/- Spans that are apart have room for their sizes. -/
theorem sum_size_le
    (hApart : rs.Pairwise Span.Apart) (hIn : ∀ r ∈ rs, r.stop ≤ n) :
    (rs.map Span.size).sum ≤ n := by
  rw [← sum_cover hIn]
  exact sum_range_le_of_le_one (fun _ => cover_le_one hApart)

/- Spans that fill their room leave no address out. -/
theorem exists_contains_of_sum_eq
    (hApart : rs.Pairwise Span.Apart) (hIn : ∀ r ∈ rs, r.stop ≤ n)
    (hSum : (rs.map Span.size).sum = n) (hx : x < n) :
    ∃ r ∈ rs, r.Contains x := by
  apply exists_of_cover_pos
  by_contra hNone
  have hZero : cover rs x = 0 := by
    omega
  have hLe : ∀ x, cover rs x ≤ 1 := fun _ => cover_le_one hApart
  have hLt := sum_range_lt_of_zero hLe hx hZero
  rw [sum_cover hIn] at hLt
  omega

end Counting

----
-- Alignment
----

section Align

/- Rounding down, by the bits of a word. -/
theorem and_mask_eq
    {x k w : Nat} (hLt : x < 2 ^ w) (hLe : k ≤ w) :
    x &&& (2 ^ w - 1 - (2 ^ k - 1)) = x / 2 ^ k * 2 ^ k := by
  have hPow : 2 ^ k ≤ 2 ^ w := Nat.pow_le_pow_right (by simp) hLe
  have hOne : 0 < 2 ^ k := Nat.two_pow_pos k
  have hMask : 2 ^ w - 1 - (2 ^ k - 1) = 2 ^ w - (2 ^ k - 1 + 1) := by
    omega
  rw [hMask, ← Nat.shiftRight_eq_div_pow, ← Nat.shiftLeft_eq]
  apply Nat.eq_of_testBit_eq
  intro i
  rw [Nat.testBit_and, Nat.testBit_two_pow_sub_succ (by omega), Nat.testBit_two_pow_sub_one,
    Nat.testBit_shiftLeft, Nat.testBit_shiftRight]
  by_cases hi : k ≤ i
  · have hAdd : k + (i - k) = i := by omega
    by_cases hw : i < w
    · simp [hi, hw, hAdd, Nat.not_lt.mpr hi]
    · have hBit : x.testBit i = false :=
        Nat.testBit_lt_two_pow (Nat.lt_of_lt_of_le hLt (Nat.pow_le_pow_right (by simp) (by omega)))
      simp [hBit, hAdd]
  · simp [hi, Nat.lt_of_not_le hi]

end Align
