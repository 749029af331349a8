import Mathlib.Algebra.Order.Ring.Nat
import Mathlib.Tactic.Common

/-
  Numbers written in decimal, as strings of bytes.
-/

namespace Digits

/- The character of a digit. -/
def digit
    (d : Nat) : UInt8 :=
  UInt8.ofNat (48 + d)

/- The representation without leading zeros. -/
def decimal
    (n : Nat) : List UInt8 :=
  (Nat.toDigits 10 n).map Char.toUInt8

/- The last `k` digits, with leading zeros. -/
def padded : Nat → Nat → List UInt8
| 0, _ => []
| k + 1, n => padded k (n / 10) ++ [digit (n % 10)]

/- The number that a string of digits stands for. -/
def decimalValue
    (s : List UInt8) : Nat :=
  s.foldl (fun v c => 10 * v + (c.toNat - 48)) 0

variable {d k n : Nat}

theorem toNat_digit
    (hd : d < 10) :
    (digit d).toNat = 48 + d := by
  rw [digit, UInt8.toNat_ofNat']
  omega

theorem toUInt8_digitChar
    (hd : d < 10) :
    (Nat.digitChar d).toUInt8 = digit d := by
  have hAll : ∀ d < 10, (Nat.digitChar d).toUInt8 = digit d := by
    decide
  exact hAll d hd

theorem decimal_of_lt
    (hn : n < 10) :
    decimal n = [digit n] := by
  rw [decimal, Nat.toDigits_of_lt_base hn, List.map_singleton, toUInt8_digitChar hn]

theorem decimal_of_le
    (hn : 10 ≤ n) :
    decimal n = decimal (n / 10) ++ [digit (n % 10)] := by
  rw [decimal, Nat.toDigits_of_base_le (by decide) hn, List.map_append, List.map_singleton,
    toUInt8_digitChar (Nat.mod_lt n (by decide)), decimal]

theorem length_decimal_pos :
    0 < (decimal n).length := by
  rw [decimal, List.length_map]
  exact Nat.length_toDigits_pos

/- How many digits a number has. -/
theorem length_decimal_le_iff
    (hk : 0 < k) :
    (decimal n).length ≤ k ↔ n < 10 ^ k := by
  rw [decimal, List.length_map]
  exact Nat.length_toDigits_le_iff (by decide) hk

@[simp]
theorem length_padded :
    (padded k n).length = k := by
  induction k generalizing n with
  | zero => rfl
  | succ k ih =>
    rw [padded, List.length_append, ih]
    rfl

theorem padded_zero :
    padded k 0 = List.replicate k (digit 0) := by
  induction k with
  | zero => rfl
  | succ k ih => rw [padded, Nat.zero_div, ih, List.replicate_succ']

/- The digits of the upper part, and those of the lower one. -/
theorem decimal_eq_append_padded
    (hUpper : 0 < n / 10 ^ k) :
    decimal n = decimal (n / 10 ^ k) ++ padded k n := by
  induction k generalizing n with
  | zero => simp [padded]
  | succ k ih =>
    have hDiv : n / 10 ^ (k + 1) = n / 10 / 10 ^ k := by
      rw [Nat.pow_succ, Nat.mul_comm, Nat.div_div_eq_div_mul]
    rw [hDiv] at hUpper ⊢
    have hTen : 10 ≤ n := by
      by_contra hLess
      have hZero : n / 10 = 0 := Nat.div_eq_of_lt (by omega)
      rw [hZero, Nat.zero_div] at hUpper
      exact absurd hUpper (lt_irrefl 0)
    rw [decimal_of_le hTen, ih hUpper, padded, List.append_assoc]

/- Two groups of digits. -/
theorem padded_add
    {j : Nat} :
    padded (j + k) n = padded j (n / 10 ^ k) ++ padded k n := by
  induction k generalizing n with
  | zero => simp [padded]
  | succ k ih =>
    have hDiv : n / 10 ^ (k + 1) = n / 10 / 10 ^ k := by
      rw [Nat.pow_succ, Nat.mul_comm, Nat.div_div_eq_div_mul]
    rw [← Nat.add_assoc, padded, ih, padded, hDiv, List.append_assoc]

/- Only the lower digits count. -/
theorem padded_mod :
    padded k (n % 10 ^ k) = padded k n := by
  induction k generalizing n with
  | zero => rfl
  | succ k ih =>
    have hUpper : n % 10 ^ (k + 1) / 10 = n / 10 % 10 ^ k := by
      rw [Nat.pow_succ, Nat.mul_comm, Nat.mod_mul_right_div_self]
    have hLower : n % 10 ^ (k + 1) % 10 = n % 10 := Nat.mod_mod_of_dvd n (Dvd.intro_left _ rfl)
    rw [padded, hUpper, hLower, ih, padded]

/- A short number is padded with zeros. -/
theorem padded_eq_zeros_append
    (hk : 0 < k) (hn : n < 10 ^ k) :
    padded k n = List.replicate (k - (decimal n).length) (digit 0) ++ decimal n := by
  induction k generalizing n with
  | zero => exact absurd hk (lt_irrefl 0)
  | succ k ih =>
    rw [padded]
    by_cases hSmall : n < 10
    · rw [Nat.div_eq_of_lt hSmall, Nat.mod_eq_of_lt hSmall, padded_zero, decimal_of_lt hSmall]
      rfl
    · have hTen : 10 ≤ n := Nat.not_lt.mp hSmall
      have hUpper : n / 10 < 10 ^ k := by
        rw [Nat.pow_succ] at hn
        omega
      have hPos : 0 < k := by
        by_contra hZero
        have hEq : k = 0 := by
          omega
        rw [hEq] at hUpper
        omega
      have hCount : k + 1 - (decimal n).length = k - (decimal (n / 10)).length := by
        rw [decimal_of_le hTen, List.length_append, List.length_singleton]
        omega
      rw [ih hPos hUpper, hCount, decimal_of_le hTen, List.append_assoc]

/- Every character of a number is a digit. -/
theorem mem_decimal
    {c : UInt8} (hc : c ∈ decimal n) :
    ∃ d < 10, c = digit d := by
  induction n using Nat.strong_induction_on with
  | _ n ih =>
    by_cases hSmall : n < 10
    · rw [decimal_of_lt hSmall, List.mem_singleton] at hc
      exact ⟨n, hSmall, hc⟩
    · rw [decimal_of_le (Nat.not_lt.mp hSmall), List.mem_append, List.mem_singleton] at hc
      rcases hc with hc | hc
      · exact ih (n / 10) (by omega) hc
      · exact ⟨n % 10, Nat.mod_lt n (by decide), hc⟩

theorem decimalValue_append_digit
    {s : List UInt8} (hd : d < 10) :
    decimalValue (s ++ [digit d]) = 10 * decimalValue s + d := by
  rw [decimalValue, List.foldl_append, List.foldl_cons,
    List.foldl_nil, toNat_digit hd, Nat.add_sub_cancel_left]
  rfl

/- A number is the value of its representation. -/
theorem decimalValue_decimal :
    decimalValue (decimal n) = n := by
  induction n using Nat.strong_induction_on with
  | _ n ih =>
    by_cases hSmall : n < 10
    · have hOne : decimalValue ([] ++ [digit n]) = _ := decimalValue_append_digit hSmall
      rw [decimal_of_lt hSmall]
      rw [List.nil_append] at hOne
      rw [hOne]
      exact Nat.zero_add n
    · rw [decimal_of_le (Nat.not_lt.mp hSmall),
        decimalValue_append_digit (Nat.mod_lt n (by decide)), ih (n / 10) (by omega)]
      omega

end Digits
