import Mathlib.Algebra.Order.Ring.Nat
import Mathlib.Tactic.Common

/-
  Windows on a sequence that arrives in parts, and sequences
  that are cut into blocks of one size.
-/

namespace Windows

variable {α : Type} {xs ys : List α} {x : α} {lo hi pos size k n : Nat}

----
-- Windows
----

/-
  The elements at the positions from `lo` up to `hi`, where
  the first element stands at `pos`.
-/
def window
    (lo hi pos : Nat) (xs : List α) : List α :=
  (xs.drop (lo - pos)).take (hi - max lo pos)

@[simp]
theorem window_nil :
    window lo hi pos ([] : List α) = [] := by
  simp [window]

/- Nothing is in a window that the elements do not reach. -/
theorem window_eq_nil
    (hOut : hi ≤ pos ∨ pos + xs.length ≤ lo) :
    window lo hi pos xs = [] := by
  unfold window
  rcases hOut with hBeyond | hBefore
  · have hZero : hi - max lo pos = 0 := by
      omega
    rw [hZero, List.take_zero]
  · have hDrop : xs.drop (lo - pos) = [] := List.drop_eq_nil_of_le (by omega)
    rw [hDrop, List.take_nil]

theorem window_singleton
    (hIn : lo ≤ pos ∧ pos < hi) :
    window lo hi pos [x] = [x] := by
  have hDrop : lo - pos = 0 := by
    omega
  have hTake : [x].length ≤ hi - max lo pos := by
    rw [List.length_singleton]
    omega
  rw [window, hDrop, List.drop_zero, List.take_of_length_le hTake]

/- A window is known from its length. -/
theorem take_length_window :
    (xs.drop (lo - pos)).take (window lo hi pos xs).length = window lo hi pos xs := by
  rw [window, List.length_take]
  exact List.take_eq_take_iff.mpr (by omega)

/- Windows on the parts are parts of the window. -/
theorem window_append :
    window lo hi pos (xs ++ ys) = window lo hi pos xs ++ window lo hi (pos + xs.length) ys := by
  unfold window
  by_cases hReached : lo ≤ pos + xs.length
  · have hDrop : (xs ++ ys).drop (lo - pos) = xs.drop (lo - pos) ++ ys :=
      List.drop_append_of_le_length (by omega)
    have hNext : lo - (pos + xs.length) = 0 := by
      omega
    have hTake : hi - max lo pos - (xs.drop (lo - pos)).length = hi - max lo (pos + xs.length) := by
      rw [List.length_drop]
      omega
    rw [hDrop, hNext, List.drop_zero, List.take_append, hTake]
  · have hNone : xs.drop (lo - pos) = [] := List.drop_eq_nil_of_le (by omega)
    have hRest : lo - pos - xs.length = lo - (pos + xs.length) := by
      omega
    have hMax : max lo pos = max lo (pos + xs.length) := by
      omega
    rw [List.drop_append, hNone, hRest, List.nil_append, List.take_nil, List.nil_append, hMax]

----
-- Blocks
----

def block
    (size k : Nat) (xs : List α) : List α :=
  (xs.drop (k * size)).take size

/- How many blocks hold `n` elements. -/
def blockCount
    (size n : Nat) : Nat :=
  (n + size - 1) / size

/- A block is the window it names. -/
theorem window_block :
    window (k * size) (k * size + size) 0 xs = block size k xs := by
  have hMax : k * size + size - max (k * size) 0 = size := by
    omega
  rw [window, hMax, Nat.sub_zero, block]

theorem length_block
    (hFull : (k + 1) * size ≤ xs.length) :
    (block size k xs).length = size := by
  rw [Nat.succ_mul] at hFull
  rw [block, List.length_take, List.length_drop]
  omega

theorem length_block_le
    (size k : Nat) (xs : List α) :
    (block size k xs).length ≤ size := by
  rw [block, List.length_take]
  omega

/- The blocks so far are what comes before the next one. -/
theorem flatMap_block_take :
    (List.range n).flatMap (fun k => block size k xs) = xs.take (n * size) := by
  induction n with
  | zero => simp
  | succ n ih =>
    rw [List.range_succ, List.flatMap_append, ih, List.flatMap_singleton, block, ← List.take_add,
      Nat.succ_mul]

theorem flatMap_block
    (hCover : xs.length ≤ n * size) :
    (List.range n).flatMap (fun k => block size k xs) = xs := by
  rw [flatMap_block_take, List.take_of_length_le hCover]

theorem le_blockCount_mul
    (hSize : 0 < size) :
    n ≤ blockCount size n * size := by
  have hDiv := Nat.div_add_mod (n + size - 1) size
  have hMod := Nat.mod_lt (n + size - 1) hSize
  rw [Nat.mul_comm] at hDiv
  unfold blockCount
  omega

/- All blocks but the last one are full. -/
theorem mul_le_of_lt_blockCount
    (hSize : 0 < size) (hLast : k + 1 < blockCount size n) :
    (k + 1) * size ≤ n := by
  have hNext : (k + 1 + 1) * size ≤ n + size - 1 := (Nat.le_div_iff_mul_le hSize).mp hLast
  rw [Nat.succ_mul] at hNext
  omega

/- A block that is counted starts before the end. -/
theorem mul_lt_of_lt_blockCount
    (hSize : 0 < size) (hIn : k < blockCount size n) :
    k * size < n := by
  have hNext : (k + 1) * size ≤ n + size - 1 := (Nat.le_div_iff_mul_le hSize).mp hIn
  rw [Nat.succ_mul] at hNext
  omega

end Windows
