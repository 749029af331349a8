import Mathlib.Algebra.Ring.Nat
import Mathlib.Tactic.Common

/-
  One's complement sums of 16-bit words, and the words of a
  byte string in network byte order.
-/

----
-- Sums
----

namespace OnesComplement

/- Addition with the carry brought around. -/
def add
    (a b : Nat) : Nat :=
  if a + b < 65536 then a + b else a + b - 65535

/- The sum of words, from a start value. -/
def sum
    (start : Nat) (ws : List Nat) : Nat :=
  ws.foldl add start

/-
  The representative of a number modulo 65535 that is zero
  only for zero.
-/
def fold
    (n : Nat) : Nat :=
  if n = 0 then 0 else (n - 1) % 65535 + 1

/- A word represents itself. -/
theorem fold_of_lt
    {n : Nat} (hLt : n < 65536) :
    fold n = n := by
  unfold fold
  split <;> omega

/- Representatives are words. -/
theorem fold_lt
    (n : Nat) :
    fold n < 65536 := by
  unfold fold
  split <;> omega

/- Only zero is represented by zero. -/
theorem fold_eq_zero_iff
    {n : Nat} :
    fold n = 0 ↔ n = 0 := by
  unfold fold
  split <;> omega

/- A representative has the residue of the number. -/
theorem fold_mod
    (n : Nat) :
    fold n % 65535 = n % 65535 := by
  unfold fold
  split <;> omega

/- Summands may be represented first. -/
theorem fold_add_fold
    (a b : Nat) :
    fold (fold a + b) = fold (a + b) := by
  unfold fold
  split <;> split <;> split <;> omega

/- Bringing the high half around keeps the representative. -/
theorem fold_carry
    (n : Nat) :
    fold (n % 65536 + n / 65536) = fold n := by
  unfold fold
  split <;> split <;> omega

/- Positive numbers are told apart modulo 65535 only. -/
theorem fold_eq_iff
    {a b : Nat} (ha : 0 < a) (hb : 0 < b) :
    fold a = fold b ↔ a % 65535 = b % 65535 := by
  unfold fold
  rw [if_neg (by omega), if_neg (by omega)]
  omega

/- Words are added up and represented once. -/
theorem sum_eq_fold
    {start : Nat} {ws : List Nat} (hStart : start < 65536)
    (hWords : ∀ w ∈ ws, w < 65536) :
    sum start ws = fold (start + ws.sum) := by
  induction ws generalizing start with
  | nil => exact (fold_of_lt hStart).symm
  | cons w ws ih =>
    have hw : w < 65536 := hWords w (by simp)
    have hAdd : add start w = fold (start + w) := by
      unfold add fold
      split <;> split <;> omega
    have hLt : add start w < 65536 := by
      rw [hAdd]
      exact fold_lt _
    have hRest := ih hLt (fun v hv => hWords v (by simp [hv]))
    calc
      sum start (w :: ws) = sum (add start w) ws := rfl
      _ = fold (add start w + ws.sum) := hRest
      _ = fold (start + w + ws.sum) := by
        rw [hAdd, fold_add_fold]
      _ = fold (start + (w :: ws).sum) := by
        rw [List.sum_cons, Nat.add_assoc]

end OnesComplement

----
-- Words of Byte Strings
----

namespace OnesComplement

/- The big-endian words of the zero-padded bytes. -/
def words : List UInt8 → List Nat
  | [] => []
  | [b] => [256 * b.toNat]
  | b :: b' :: bytes => (256 * b.toNat + b'.toNat) :: words bytes

/-
  The weight of bytes behind `n` others: those at an even
  place are high halves of words, the others low halves.
-/
def weigh : Nat → List UInt8 → Nat
  | _, [] => 0
  | n, b :: bytes => (if n % 2 = 0 then 256 * b.toNat else b.toNat) + weigh (n + 1) bytes

variable {n m : Nat} {bytes : List UInt8}

/- Only the parity of the place matters. -/
theorem weigh_congr
    (hParity : n % 2 = m % 2) :
    weigh n bytes = weigh m bytes := by
  induction bytes generalizing n m with
  | nil => rfl
  | cons b bytes ih =>
    rw [weigh, weigh, hParity, ih (n := n + 1) (m := m + 1) (by omega)]

/- The bytes behind others keep their places. -/
theorem weigh_append
    (n : Nat) (front back : List UInt8) :
    weigh n (front ++ back) = weigh n front + weigh (n + front.length) back := by
  induction front generalizing n with
  | nil => simp [weigh]
  | cons b front ih =>
    rw [List.cons_append, weigh, weigh, ih, List.length_cons, Nat.add_assoc, Nat.add_assoc,
      Nat.add_comm 1]

/- Weights are bounded by the number of bytes. -/
theorem weigh_le
    (n : Nat) (bytes : List UInt8) :
    weigh n bytes ≤ 65280 * bytes.length := by
  induction bytes generalizing n with
  | nil => simp [weigh]
  | cons b bytes ih =>
    have hb := b.toNat_lt
    have hRest := ih (n + 1)
    rw [weigh, List.length_cons]
    split <;> omega

/- From an even place the weight is the sum of the words. -/
theorem sum_words
    (bytes : List UInt8) :
    (words bytes).sum = weigh 0 bytes := by
  induction bytes using words.induct with
  | case1 => rfl
  | case2 b => simp [words, weigh]
  | case3 b b' bytes ih =>
    rw [words, List.sum_cons, ih, weigh, weigh, weigh_congr (n := 0 + 1 + 1) (m := 0) (by omega)]
    simp
    omega

/- Two bytes make a word. -/
theorem lt_of_mem_words
    {w : Nat} (hMem : w ∈ words bytes) :
    w < 65536 := by
  induction bytes using words.induct with
  | case1 => simp [words] at hMem
  | case2 b =>
    have hb := b.toNat_lt
    simp only [words, List.mem_singleton] at hMem
    omega
  | case3 b b' bytes ih =>
    have hb := b.toNat_lt
    have hb' := b'.toNat_lt
    rcases List.mem_cons.mp hMem with rfl | hIn
    · omega
    · exact ih hIn

/- The sum of the words of a byte string. -/
theorem sum_words_eq_fold
    {start : Nat} (hStart : start < 65536) :
    sum start (words bytes) = fold (start + weigh 0 bytes) := by
  rw [sum_eq_fold hStart (fun _ => lt_of_mem_words), sum_words]

end OnesComplement
