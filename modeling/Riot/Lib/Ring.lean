import Mathlib.Data.Nat.ModEq
import Mathlib.Data.List.Basic
import Mathlib.Tactic.Common

/-
  Queues in a ring of array cells.

  A queue of `n` items starts at counter `r`; item `i` is in
  the cell `(r + i) % size`.
-/

----
-- Items
----

variable {α : Type} {size r n : Nat} {array : Nat → α}

/- The items of a queue, oldest first. -/
def ringItems
    (size : Nat) (array : Nat → α) (r n : Nat) : List α :=
  (List.range n).map (fun i => array ((r + i) % size))

/- Number of items. -/
@[simp]
theorem ringItems_length :
    (ringItems size array r n).length = n := by
  simp [ringItems]

/- Different items are in different cells. -/
theorem ring_cell_ne
    {i j : Nat} (hi : i < size) (hj : j < size) (hNe : i ≠ j) :
    (r + i) % size ≠ (r + j) % size := by
  intro hEq
  have hMod : r + i ≡ r + j [MOD size] := hEq
  have hCancel : i ≡ j [MOD size] := Nat.ModEq.add_left_cancel' r hMod
  exact hNe (hCancel.eq_of_lt_of_lt hi hj)

/- A cell behind the last item is none of theirs. -/
theorem ringItems_update
    {x : α} (hSpace : n < size) :
    ringItems size (Function.update array ((r + n) % size) x) r n = ringItems size array r n := by
  unfold ringItems
  apply List.map_congr_left
  intro i hi
  have hLess : i < n := List.mem_range.mp hi
  apply Function.update_of_ne
  exact ring_cell_ne (Nat.lt_trans hLess hSpace) hSpace (Nat.ne_of_lt hLess)

/- An item stored after the last one. -/
theorem ringItems_push
    {x : α} (hSpace : n < size) :
    ringItems size (Function.update array ((r + n) % size) x) r (n + 1) =
      ringItems size array r n ++ [x] := by
  rw [← @ringItems_update _ _ _ _ _ x hSpace]
  unfold ringItems
  rw [List.range_succ, List.map_append]
  simp

/- The first item, and the items after it. -/
theorem ringItems_pop :
    ringItems size array r (n + 1) = array (r % size) :: ringItems size array (r + 1) n := by
  unfold ringItems
  rw [List.range_succ_eq_map, List.map_cons, List.map_map]
  congr 1
  apply List.map_congr_left
  intro i _
  simp only [Function.comp_apply]
  congr 2
  omega

/- Counters matter up to the size of the ring. -/
theorem ringItems_congr
    {r' : Nat} (hMod : r ≡ r' [MOD size]) :
    ringItems size array r n = ringItems size array r' n := by
  unfold ringItems
  apply List.map_congr_left
  intro i _
  have hCell : r + i ≡ r' + i [MOD size] := hMod.add_right i
  exact congrArg array hCell

/- The items of a queue in two parts. -/
theorem ringItems_add
    (m : Nat) :
    ringItems size array r (m + n) =
      ringItems size array r m ++ ringItems size array (r + m) n := by
  unfold ringItems
  rw [List.range_add, List.map_append, List.map_map]
  congr 1
  apply List.map_congr_left
  intro i _
  simp only [Function.comp_apply]
  congr 2
  omega

/- Items that do not reach the last cell are not wrapped. -/
theorem ringItems_eq_map
    (hEnd : r + n ≤ size) :
    ringItems size array r n = (List.range n).map (fun i => array (r + i)) := by
  unfold ringItems
  apply List.map_congr_left
  intro i hi
  have hLess : i < n := List.mem_range.mp hi
  rw [Nat.mod_eq_of_lt (by omega)]
