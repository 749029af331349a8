import Mathlib.Algebra.Order.Ring.Nat
import Mathlib.Data.List.Sort
import Mathlib.Data.List.Basic
import Mathlib.Order.Lattice
import Mathlib.Tactic.Common

/-
  Delta lists: timers in the order of their deadlines, each
  stored with its distance to the timer before it.

  The deadlines are sums of distances from a base.  Moving
  the base, inserting and removing a timer are changes of two
  neighbouring distances; the theorems say what they are on
  the list of deadlines.
-/

----
-- Deadlines
----

namespace DeltaList

variable {τ : Type} {b d v : Nat} {t : τ} {l : List (τ × Nat)}

/- The timers with their deadlines, from a base on. -/
def deadlines
    (b : Nat) :
    List (τ × Nat) → List (τ × Nat)
| [] => []
| (t, o) :: l => (t, b + o) :: deadlines (b + o) l

/- The sum of all distances. -/
def total
    (l : List (τ × Nat)) : Nat :=
  (l.map Prod.snd).sum

@[simp]
theorem total_nil :
    total ([] : List (τ × Nat)) = 0 := rfl

@[simp]
theorem total_cons
    {o : Nat} :
    total ((t, o) :: l) = o + total l := by
  simp [total]

/- The timers are those of the list. -/
@[simp]
theorem deadlines_keys :
    (deadlines b l).map Prod.fst = l.map Prod.fst := by
  induction l generalizing b with
  | nil => rfl
  | cons x l ih =>
    rcases x with ⟨t, o⟩
    simp [deadlines, ih]

/- No deadline is before the base. -/
theorem le_of_mem_deadlines
    {x : τ × Nat} (hIn : x ∈ deadlines b l) :
    b ≤ x.2 := by
  induction l generalizing b with
  | nil => cases hIn
  | cons y l ih =>
    rcases y with ⟨t, o⟩
    rcases List.mem_cons.mp hIn with rfl | hRest
    · exact Nat.le_add_right b o
    · exact (Nat.le_add_right b o).trans (ih hRest)

/- The deadlines are in order. -/
theorem deadlines_sorted :
    (deadlines b l).Pairwise (fun x y => x.2 ≤ y.2) := by
  induction l generalizing b with
  | nil => exact List.Pairwise.nil
  | cons x l ih =>
    rcases x with ⟨t, o⟩
    rw [deadlines, List.pairwise_cons]
    refine ⟨?_, ih⟩
    intro y hIn
    exact le_of_mem_deadlines hIn

end DeltaList

----
-- Moving the Base
----

namespace DeltaList

variable {τ : Type} {b d : Nat} {l : List (τ × Nat)}

/- Take the distance `d` off the front of the list. -/
def advance
    (d : Nat) :
    List (τ × Nat) → List (τ × Nat)
| [] => []
| (t, o) :: l =>
  if d ≤ o then
    (t, o - d) :: l
  else
    (t, 0) :: advance (d - o) l

@[simp]
theorem advance_keys :
    (advance d l).map Prod.fst = l.map Prod.fst := by
  induction l generalizing d with
  | nil => simp [advance]
  | cons x l ih =>
    rcases x with ⟨t, o⟩
    unfold advance
    split
    · rfl
    · simp [ih]

/- The sum shrinks by the distance, as far as it goes. -/
theorem total_advance :
    total (advance d l) = total l - d := by
  induction l generalizing d with
  | nil => simp [advance]
  | cons x l ih =>
    rcases x with ⟨t, o⟩
    unfold advance
    split
    · rw [total_cons, total_cons]
      omega
    · rw [total_cons, total_cons, ih]
      omega

/-
  The base has moved by the distance: deadlines stay, and
  those that have passed become the base.
-/
theorem deadlines_advance :
    deadlines (b + d) (advance d l) = (deadlines b l).map (fun x => (x.1, max x.2 (b + d))) := by
  induction l generalizing b d with
  | nil => simp [advance, deadlines]
  | cons x l ih =>
    rcases x with ⟨t, o⟩
    unfold advance
    split
    · rename_i hLe
      have hSum : b + d + (o - d) = b + o := by omega
      have hRest :
          (deadlines (b + o) l).map (fun x => (x.1, max x.2 (b + d))) = deadlines (b + o) l := by
        refine (List.map_congr_left ?_).trans (List.map_id _)
        intro y hIn
        have hBase := le_of_mem_deadlines hIn
        have hMax : max y.2 (b + d) = y.2 := by omega
        rw [hMax]
        rfl
      rw [deadlines, hSum, deadlines, List.map_cons, hRest]
      have hMax : max (b + o) (b + d) = b + o := by omega
      rw [hMax]
    · rename_i hLt
      have hSum : b + d + 0 = (b + o) + (d - o) := by omega
      have hMax : max (b + o) (b + d) = (b + o) + (d - o) := by
        omega
      have hBase : b + d = (b + o) + (d - o) := by omega
      rw [deadlines, deadlines, List.map_cons, hSum, ih, hMax, ← hBase]

/- The same, for the new base. -/
theorem deadlines_advance_to
    {w : Nat} (hLe : b ≤ w) :
    deadlines w (advance (w - b) l) = (deadlines b l).map (fun x => (x.1, max x.2 w)) := by
  obtain ⟨d, rfl⟩ := Nat.exists_eq_add_of_le hLe
  rw [Nat.add_sub_cancel_left]
  exact deadlines_advance

/- Timers at distance 0 do not count. -/
theorem advance_zeros
    {z : List (τ × Nat)} (hPos : 0 < d) (hZeros : ∀ x ∈ z, x.2 = 0) :
    advance d (z ++ l) = z ++ advance d l := by
  induction z with
  | nil => rfl
  | cons x z ih =>
    rcases x with ⟨t, o⟩
    have hZero : o = 0 := hZeros (t, o) List.mem_cons_self
    subst hZero
    have hRest := ih (fun x hx => hZeros x (List.mem_cons_of_mem _ hx))
    rw [List.cons_append, advance, if_neg (by omega), Nat.sub_zero, hRest, List.cons_append]

/- Another base moves all deadlines alike. -/
theorem deadlines_shift
    {k : Nat} :
    deadlines (b + k) l = (deadlines b l).map (fun x => (x.1, x.2 + k)) := by
  induction l generalizing b with
  | nil => rfl
  | cons x l ih =>
    rcases x with ⟨t, o⟩
    have hSum : b + k + o = b + o + k := by omega
    rw [deadlines, deadlines, hSum, ih, List.map_cons]

end DeltaList

----
-- Insertion
----

namespace DeltaList

variable {τ : Type} {b v : Nat} {t : τ} {l : List (τ × Nat)}

/- Insert a timer at distance `v` from the front. -/
def insert
    (t : τ) :
    Nat → List (τ × Nat) → List (τ × Nat)
| v, [] => [(t, v)]
| v, (u, o) :: l =>
  if v < o then
    (t, v) :: (u, o - v) :: l
  else
    (u, o) :: insert t (v - o) l

/- Insertion behind all deadlines that are not later. -/
def insertDeadline
    (x : τ × Nat) (l : List (τ × Nat)) : List (τ × Nat) :=
  l.orderedInsert (fun x y => x.2 < y.2) x

theorem insert_keys_perm :
    ((insert t v l).map Prod.fst).Perm (t :: l.map Prod.fst) := by
  induction l generalizing v with
  | nil => simp [insert]
  | cons x l ih =>
    rcases x with ⟨u, o⟩
    unfold insert
    split
    · simp
    · exact (ih.cons u).trans (.swap t u _)

/- The sum reaches as far as the farther of the two. -/
theorem total_insert :
    total (insert t v l) = max (total l) v := by
  induction l generalizing v with
  | nil => simp [insert]
  | cons x l ih =>
    rcases x with ⟨u, o⟩
    unfold insert
    split
    · rw [total_cons, total_cons, total_cons]
      omega
    · rw [total_cons, total_cons, ih]
      omega

/- The new timer is the last one, or the last one stays. -/
theorem insert_keys_last :
    (insert t v l).map Prod.fst = l.map Prod.fst ++ [t] ∨
      (l ≠ [] ∧ ((insert t v l).map Prod.fst).getLast? = (l.map Prod.fst).getLast?) := by
  induction l generalizing v with
  | nil => exact Or.inl rfl
  | cons x l ih =>
    rcases x with ⟨u, o⟩
    unfold insert
    split
    · refine Or.inr ⟨by simp, ?_⟩
      simp only [List.map_cons]
      rw [List.getLast?_cons_cons]
    · rcases @ih (v - o) with hEnd | ⟨hNe, hSame⟩
      · refine Or.inl ?_
        rw [List.map_cons, hEnd]
        rfl
      · refine Or.inr ⟨by simp, ?_⟩
        rw [List.map_cons, List.map_cons, List.getLast?_cons, List.getLast?_cons, hSame]

/- The other deadlines stay, and the new one is in order. -/
theorem deadlines_insert :
    deadlines b (insert t v l) = insertDeadline (t, b + v) (deadlines b l) := by
  induction l generalizing b v with
  | nil => rfl
  | cons x l ih =>
    rcases x with ⟨u, o⟩
    unfold insert insertDeadline
    split
    · rename_i hLt
      have hSum : b + v + (o - v) = b + o := by omega
      have hBefore : b + v < b + o := by omega
      simp [deadlines, hSum, hBefore]
    · rename_i hLe
      have hSum : b + v = b + o + (v - o) := by omega
      have hNot : ¬ (b + o + (v - o) < b + o) := by omega
      have hRest := @ih (b + o) (v - o)
      unfold insertDeadline at hRest
      rw [deadlines, deadlines, hRest, hSum, List.orderedInsert_cons, if_neg hNot]

/-
  An order that agrees with the new deadline holds after the
  insertion.
-/
theorem insertDeadline_pairwise
    {R : τ × Nat → τ × Nat → Prop} {x : τ × Nat}
    (hSorted : l.Pairwise (fun y z => y.2 ≤ z.2)) (hOrder : l.Pairwise R)
    (hBefore : ∀ y ∈ l, y.2 ≤ x.2 → R y x) (hBehind : ∀ y ∈ l, x.2 < y.2 → R x y) :
    (insertDeadline x l).Pairwise R := by
  unfold insertDeadline
  induction l with
  | nil => exact List.pairwise_singleton R x
  | cons y l ih =>
    rcases List.pairwise_cons.mp hSorted with ⟨hFirst, hSortedRest⟩
    rcases List.pairwise_cons.mp hOrder with ⟨hRelated, hOrderRest⟩
    rw [List.orderedInsert_cons]
    split
    · rename_i hLt
      refine List.pairwise_cons.mpr ⟨?_, hOrder⟩
      intro z hz
      apply hBehind z hz
      rcases List.mem_cons.mp hz with rfl | hIn
      · exact hLt
      · exact Nat.lt_of_lt_of_le hLt (hFirst z hIn)
    · rename_i hLe
      refine List.pairwise_cons.mpr ⟨?_, ?_⟩
      · intro z hz
        rcases (List.mem_orderedInsert _).mp hz with
          rfl | hIn
        · exact hBefore y List.mem_cons_self (by omega)
        · exact hRelated z hIn
      · apply ih hSortedRest hOrderRest
        · intro z hz
          exact hBefore z (List.mem_cons_of_mem _ hz)
        · intro z hz
          exact hBehind z (List.mem_cons_of_mem _ hz)

end DeltaList

----
-- Removal
----

namespace DeltaList

variable {τ : Type} {b : Nat} {t : τ} {l : List (τ × Nat)}

/- Add a distance to the first timer. -/
def addHead
    (o : Nat) :
    List (τ × Nat) → List (τ × Nat)
| [] => []
| (u, p) :: l => (u, p + o) :: l

theorem deadlines_addHead
    {o : Nat} :
    deadlines b (addHead o l) = deadlines (b + o) l := by
  cases l with
  | nil => rfl
  | cons x l =>
    rcases x with ⟨u, p⟩
    have hSum : b + (p + o) = b + o + p := by omega
    rw [addHead, deadlines, deadlines, hSum]

theorem addHead_keys
    {o : Nat} :
    (addHead o l).map Prod.fst = l.map Prod.fst := by
  cases l with
  | nil => rfl
  | cons x l => rfl

variable [DecidableEq τ]

/- Remove a timer; the next one takes over its distance. -/
def erase
    (t : τ) :
    List (τ × Nat) → List (τ × Nat)
| [] => []
| (u, o) :: l =>
  if u = t then addHead o l else (u, o) :: erase t l

theorem erase_keys :
    (erase t l).map Prod.fst = (l.map Prod.fst).erase t := by
  induction l with
  | nil => rfl
  | cons x l ih =>
    rcases x with ⟨u, o⟩
    unfold erase
    split
    · rename_i hEq
      rw [addHead_keys, hEq, List.map_cons, List.erase_cons_head]
    · rename_i hNe
      rw [List.map_cons, List.map_cons, ih, List.erase_cons_tail (by simpa using hNe)]

/- The sum does not grow. -/
theorem total_erase_le :
    total (erase t l) ≤ total l := by
  induction l with
  | nil => exact Nat.le_refl _
  | cons x l ih =>
    rcases x with ⟨u, o⟩
    unfold erase
    split
    · cases l with
      | nil => simp [addHead]
      | cons y l =>
        rcases y with ⟨w, p⟩
        simp only [addHead, total_cons]
        omega
    · rw [total_cons, total_cons]
      omega

/- The other deadlines stay. -/
theorem deadlines_erase :
    deadlines b (erase t l) = (deadlines b l).eraseP (fun x => x.1 = t) := by
  induction l generalizing b with
  | nil => rfl
  | cons x l ih =>
    rcases x with ⟨u, o⟩
    unfold erase
    split
    · rename_i hEq
      rw [deadlines_addHead, deadlines, List.eraseP_cons_of_pos (by simpa using hEq)]
    · rename_i hNe
      rw [deadlines, deadlines, ih, List.eraseP_cons_of_neg (by simpa using hNe)]

end DeltaList
