import Mathlib.Data.Nat.Bitwise
import Mathlib.Data.Nat.Prime.Basic
import Mathlib.Data.Nat.Size
import Mathlib.Tactic.Ring
import Riot.Sys.Frac

/-
  The accuracy of the scaling by a fraction.

  The quotient of the long division is a 32-bit number with
  its highest bit set, rounded up; the error of the rounding
  is smaller than the denominator.
-/

----
-- Greatest Common Divisor
----

namespace Riot

variable {u v shift turns : Nat}

/- All factors of 2 are dropped. -/
theorem removeTwos_spec
    (hPos : 0 < v) (hLt : v < 2 ^ turns) :
    ∃ w i, removeTwos turns v = some w ∧ v = w * 2 ^ i ∧ w % 2 = 1 := by
  induction turns generalizing v with
  | zero => omega
  | succ turns ih =>
    simp only [removeTwos, Nat.and_one_is_mod, Nat.shiftRight_one]
    by_cases hEven : v % 2 = 0
    · rw [if_pos hEven]
      rcases ih (v := v / 2) (by omega) (by omega) with ⟨w, i, hRun, hEq, hOdd⟩
      refine ⟨w, i + 1, hRun, ?_, hOdd⟩
      rw [Nat.pow_succ, ← Nat.mul_assoc, ← hEq]
      omega
    · rw [if_neg hEven]
      exact ⟨v, 0, rfl, by simp, by omega⟩

/- The common factors of 2 are dropped and counted. -/
theorem commonTwos_spec
    (hPos : 0 < u) (hLt : u < 2 ^ turns) :
    ∃ i u' v', commonTwos turns shift u v = some (shift + i, u', v') ∧ u = u' * 2 ^ i ∧
      v = v' * 2 ^ i ∧ (u' % 2 = 1 ∨ v' % 2 = 1) := by
  induction turns generalizing u v shift with
  | zero => omega
  | succ turns ih =>
    have hBoth : (u ||| v) &&& 1 = 0 ↔ u % 2 = 0 ∧ v % 2 = 0 := by
      rw [Nat.and_or_distrib_right, Nat.and_one_is_mod, Nat.and_one_is_mod, Nat.or_eq_zero_iff]
    simp only [commonTwos, hBoth, Nat.shiftRight_one]
    by_cases hEven : u % 2 = 0 ∧ v % 2 = 0
    · rw [if_pos hEven]
      rcases @ih (u / 2) (v / 2) (shift + 1) (by omega) (by omega) with
        ⟨i, u', v', hRun, hU, hV, hOdd⟩
      refine ⟨i + 1, u', v', by rw [hRun, Nat.add_right_comm, Nat.add_assoc], ?_, ?_, hOdd⟩
      · rw [Nat.pow_succ, ← Nat.mul_assoc, ← hU]
        omega
      · rw [Nat.pow_succ, ← Nat.mul_assoc, ← hV]
        omega
    · rw [if_neg hEven]
      exact ⟨0, u, v, rfl, by simp, by simp, by omega⟩

/- Powers of 2 have no part in a divisor of an odd number. -/
theorem gcd_mul_two_pow
    {w i : Nat} (hOdd : u % 2 = 1) :
    u.gcd (w * 2 ^ i) = u.gcd w := by
  refine Nat.Coprime.gcd_mul_right_cancel_right w (Nat.Coprime.pow_left i ?_)
  exact Nat.coprime_two_left.mpr (Nat.odd_iff.mpr hOdd)

theorem gcdLoop_eq
    (hOdd : u % 2 = 1) (hPos : 0 < v) (hLt : u < 2 ^ 32) (hLt' : v < 2 ^ 32)
    (hTurns : u + v ≤ turns) :
    gcdLoop turns u v = some (u.gcd v) := by
  induction turns generalizing u v with
  | zero => omega
  | succ turns ih =>
    rcases removeTwos_spec hPos hLt' with ⟨w, i, hRun, rfl, hOddW⟩
    have hLe : w ≤ w * 2 ^ i := Nat.le_mul_of_pos_right w (Nat.two_pow_pos i)
    simp only [gcdLoop, hRun, Option.bind_eq_bind, Option.bind_some, gcd_mul_two_pow hOdd]
    by_cases hSwap : w < u
    · simp only [if_pos hSwap]
      rw [if_neg (by omega), ih hOddW (by omega) (by omega) (by omega) (by omega),
        Nat.gcd_sub_self_right hSwap.le, Nat.gcd_comm]
    · simp only [if_neg hSwap]
      by_cases hEnd : w - u = 0
      · have hEq : w = u := by omega
        rw [if_pos hEnd, hEq, Nat.gcd_self]
        rfl
      · rw [if_neg hEnd, ih hOdd (by omega) hLt (by omega) (by omega),
          Nat.gcd_sub_self_right (by omega)]

theorem gcd32_eq
    (hLt : u < 2 ^ 32) (hLt' : v < 2 ^ 32) :
    gcd32 u v = some (u.gcd v) := by
  unfold gcd32
  by_cases hU : u = 0
  · simp [hU]
  by_cases hV : v = 0
  · simp [hU, hV]
  rw [if_neg hU, if_neg hV]
  rcases @commonTwos_spec u v 0 32 (by omega) hLt with ⟨i, u', v', hRun, rfl, rfl, hOdd⟩
  have hPow := Nat.two_pow_pos i
  have hU' : u' ≤ u' * 2 ^ i := Nat.le_mul_of_pos_right u' hPow
  have hV' : v' ≤ v' * 2 ^ i := Nat.le_mul_of_pos_right v' hPow
  have hPosU : 0 < u' := Nat.pos_of_ne_zero (fun h => hU (by simp [h]))
  have hPosV : 0 < v' := Nat.pos_of_ne_zero (fun h => hV (by simp [h]))
  rcases removeTwos_spec hPosU (hU'.trans_lt hLt) with ⟨w, j, hRun', rfl, hOddW⟩
  have hW : w ≤ w * 2 ^ j := Nat.le_mul_of_pos_right w (Nat.two_pow_pos j)
  have hGcd : (w * 2 ^ j).gcd v' = w.gcd v' := by
    rcases hOdd with hOdd | hOdd
    · cases j with
      | zero => simp
      | succ j =>
        rw [Nat.pow_succ, ← Nat.mul_assoc] at hOdd
        omega
    · rw [Nat.gcd_comm, gcd_mul_two_pow hOdd, Nat.gcd_comm]
  rw [hRun]
  simp only [Option.bind_eq_bind, Option.bind_some, hRun',
    gcdLoop_eq hOddW hPosV (by omega) (by omega) le_rfl, Nat.gcd_mul_right, hGcd, Nat.zero_add,
    Nat.shiftLeft_eq]
  have hLe : w.gcd v' * 2 ^ i ≤ w * 2 ^ j * 2 ^ i :=
    Nat.mul_le_mul_right _ ((Nat.gcd_le_left _ (by omega)).trans hW)
  rw [Nat.mod_eq_of_lt (hLe.trans_lt hLt)]
  rfl

----
-- Long Division
----

variable {num den p k : Nat} {d : LongDiv}

/-
  After `k` turns: the first bits of the numerator are
  divided, and the leading zeros of the quotient are counted.
-/
structure LongDiv.At
    (num den p k : Nat)
    (d : LongDiv) : Prop where
  q : d.q = num * 2 ^ k / 2 ^ (p + 1) / den
  r : d.r = num * 2 ^ k / 2 ^ (p + 1) % den
  numMask : d.numMask = 2 ^ p / 2 ^ k
  iBits : d.iBits = p + 1 + d.q.size - k

/- The bit of a turn is the next one of the numerator. -/
theorem next_bit :
    num * 2 ^ (k + 1) / 2 ^ (p + 1) =
      2 * (num * 2 ^ k / 2 ^ (p + 1)) + if num &&& 2 ^ p / 2 ^ k ≠ 0 then 1 else 0 := by
  have hHalf : num * 2 ^ (k + 1) / 2 ^ (p + 1) / 2 = num * 2 ^ k / 2 ^ (p + 1) := by
    rw [Nat.div_div_eq_div_mul, Nat.pow_succ, ← Nat.mul_assoc, Nat.mul_div_mul_right _ _ two_pos]
  have hBit : num &&& 2 ^ p / 2 ^ k ≠ 0 ↔ num * 2 ^ (k + 1) / 2 ^ (p + 1) % 2 = 1 := by
    by_cases hLe : k ≤ p
    · rcases Nat.exists_eq_add_of_le hLe with ⟨i, rfl⟩
      have hMask : 2 ^ (k + i) / 2 ^ k = 2 ^ i := by
        rw [Nat.pow_add, Nat.mul_div_cancel_left _ (Nat.two_pow_pos k)]
      have hValue : num * 2 ^ (k + 1) / 2 ^ (k + i + 1) = num / 2 ^ i := by
        rw [Nat.add_right_comm, Nat.pow_add 2 (k + 1), Nat.mul_comm num,
          Nat.mul_div_mul_left _ _ (Nat.two_pow_pos _)]
      rw [hMask, hValue, Nat.and_two_pow, Nat.testBit_eq_decide_div_mod_eq]
      by_cases hOdd : num / 2 ^ i % 2 = 1 <;> simp [hOdd]
    · rcases Nat.exists_eq_add_of_lt (Nat.lt_of_not_le hLe) with ⟨i, rfl⟩
      have hMask : 2 ^ p / 2 ^ (p + i + 1) = 0 :=
        Nat.div_eq_of_lt (Nat.pow_lt_pow_right (by omega) (by omega))
      have hValue : num * 2 ^ (p + i + 1 + 1) / 2 ^ (p + 1) = 2 * (num * 2 ^ i) := by
        rw [show num * 2 ^ (p + i + 1 + 1) = 2 * (num * 2 ^ i) * 2 ^ (p + 1) by ring,
          Nat.mul_div_cancel _ (Nat.two_pow_pos _)]
      rw [hMask, hValue]
      simp
  by_cases hOdd : num * 2 ^ (k + 1) / 2 ^ (p + 1) % 2 = 1
  · rw [if_pos (hBit.mpr hOdd), ← hHalf]
    omega
  · rw [if_neg (fun h => hOdd (hBit.mp h)), ← hHalf]
    omega

theorem double_or_one
    {x : Nat} :
    x <<< 1 ||| 1 = 2 * x + 1 := by
  rw [← Nat.shiftLeft_add_eq_or_of_lt (by omega), Nat.shiftLeft_eq, Nat.pow_one, Nat.mul_comm]

section

variable (h : d.At num den p k) (hDen : 0 < den) (hLt : den < 2 ^ 32)

include h hDen hLt

/- A turn finds one digit of the quotient. -/
theorem LongDiv.At.digit
    (hSmall : d.q < 2 ^ 31) :
    ∃ c, (d.step num den).q = Nat.bit c d.q ∧ (d.step num den).r < den ∧
      (d.step num den).r + den * (d.step num den).q = num * 2 ^ (k + 1) / 2 ^ (p + 1) := by
  have hR : d.r < den := h.r ▸ Nat.mod_lt _ hDen
  have hSplit := Nat.div_add_mod (num * 2 ^ k / 2 ^ (p + 1)) den
  rw [← h.q, ← h.r] at hSplit
  have hNext := @next_bit num p k
  rw [← hSplit, ← h.numMask] at hNext
  have hShiftR : d.r <<< 1 % 2 ^ 64 = d.r <<< 1 := by
    rw [Nat.shiftLeft_eq]
    omega
  have hShiftQ : d.q <<< 1 % 2 ^ 32 = d.q <<< 1 := by
    rw [Nat.shiftLeft_eq]
    omega
  have hOr : (if num &&& d.numMask ≠ 0 then d.r <<< 1 ||| 1 else d.r <<< 1) =
      2 * d.r + if num &&& d.numMask ≠ 0 then 1 else 0 := by
    rw [double_or_one, Nat.shiftLeft_eq]
    split_ifs <;> omega
  generalize hBit : (if num &&& d.numMask ≠ 0 then 1 else 0) = b at hNext hOr
  have hOne : b ≤ 1 := by
    rw [← hBit]
    split_ifs <;> omega
  have hMul : den * (2 * d.q) = 2 * (den * d.q) := Nat.mul_left_comm ..
  rw [hNext]
  by_cases hFit : den ≤ 2 * d.r + b
  · refine ⟨true, ?_⟩
    simp only [LongDiv.step, hShiftR, hShiftQ, hOr, if_pos hFit]
    rw [double_or_one, Nat.mul_add, Nat.bit_val]
    simp only [Bool.toNat_true, true_and]
    omega
  · refine ⟨false, ?_⟩
    simp only [LongDiv.step, hShiftR, hShiftQ, hOr, if_neg hFit]
    rw [Nat.shiftLeft_eq, Nat.pow_one, Nat.mul_comm d.q, Nat.bit_val]
    simp only [Bool.toNat_false]
    omega

theorem LongDiv.At.step
    (hSmall : d.q < 2 ^ 31) :
    (d.step num den).At num den p (k + 1) := by
  rcases h.digit hDen hLt hSmall with ⟨c, hQ, hLess, hValue⟩
  have hUnique := (Nat.div_mod_unique hDen).mpr ⟨hValue, hLess⟩
  refine ⟨hUnique.1.symm, hUnique.2.symm, ?_, ?_⟩
  · show d.numMask >>> 1 = _
    rw [h.numMask, Nat.shiftRight_one, Nat.div_div_eq_div_mul, Nat.pow_succ]
  · have hIBits : (d.step num den).iBits =
        if (d.step num den).q = 0 then d.iBits - 1 else d.iBits := rfl
    rw [hIBits, hQ, h.iBits]
    by_cases hZero : Nat.bit c d.q = 0
    · rw [if_pos hZero, hZero, (Nat.bit_eq_zero_iff.mp hZero).1]
      simp only [Nat.size_zero]
      omega
    · rw [if_neg hZero, Nat.size_bit hZero]
      omega

/- The loop ends when the quotient has 32 bits. -/
theorem LongDiv.At.loop
    (hPos : 0 < num) (hSmall : d.q < 2 ^ 31) (hTurns : k + turns = 64 + p) :
    ∃ k' ≤ 64 + p, (LongDiv.loop num den turns d).At num den p k' ∧
        2 ^ 31 ≤ (LongDiv.loop num den turns d).q ∧
          (LongDiv.loop num den turns d).q < 2 ^ 32 := by
  induction turns generalizing d k with
  | zero =>
    -- 63 fractional bits are enough for 32 bits
    exfalso
    have hK : k = 63 + (p + 1) := by omega
    have hQ := h.q
    rw [hK, Nat.pow_add, ← Nat.mul_assoc, Nat.mul_div_cancel _ (Nat.two_pow_pos _)] at hQ
    have hBig : 2 ^ 31 ≤ num * 2 ^ 63 / den := (Nat.le_div_iff_mul_le hDen).mpr (by omega)
    omega
  | succ turns ih =>
    have hNext := h.step hDen hLt hSmall
    have hLess : (d.step num den).q < 2 ^ 32 := by
      rcases h.digit hDen hLt hSmall with ⟨c, hQ, _⟩
      have hC := c.toNat_le
      rw [hQ, Nat.bit_val]
      omega
    have hBit : (d.step num den).q &&& 1 <<< 31 ≠ 0 ↔ 2 ^ 31 ≤ (d.step num den).q := by
      rw [Nat.shiftLeft_eq, Nat.one_mul, Nat.and_two_pow, Nat.testBit_eq_decide_div_mod_eq]
      simp
      omega
    simp only [LongDiv.loop, hPos.ne', and_false, or_false, hBit]
    by_cases hEnd : 2 ^ 31 ≤ (d.step num den).q
    · rw [if_pos hEnd]
      exact ⟨k + 1, by omega, hNext, hEnd, hLess⟩
    · rw [if_neg hEnd]
      exact ih hNext (by omega) (by omega)

end

/- The highest set bit of a 32-bit word. -/
theorem msb_eq
    (hPos : 0 < num) (hLt : num < 2 ^ 32) :
    (bitarithmMsb (BitVec.ofNat 32 num)).getD 0 = num.log2 := by
  have hNe : BitVec.ofNat 32 num ≠ 0#32 := by
    intro h
    have hZero := congrArg BitVec.toNat h
    rw [BitVec.toNat_ofNat, BitVec.toNat_ofNat] at hZero
    omega
  have hLog : num.log2 < 32 := (Nat.log2_lt hPos.ne').mpr hLt
  unfold bitarithmMsb builtinClz
  rw [if_neg hNe, BitVec.toNat_ofNat, Nat.mod_eq_of_lt hLt]
  simp only [Option.map_some, Option.getD_some]
  omega

/-
  A quotient of 32 one bits has no remainder: what is missing
  would be a multiple of a power of 2 above the denominator.
-/
theorem round_up_lt
    {s : Nat} (hNum : num < 2 ^ 32) (hDen : 0 < den) (hLt : den < 2 ^ 32)
    (hQ : num * 2 ^ s / den < 2 ^ 32) (hR : 0 < num * 2 ^ s % den) :
    num * 2 ^ s / den + 1 < 2 ^ 32 := by
  by_contra hFull
  have hEq : num * 2 ^ s / den = 2 ^ 32 - 1 := by omega
  have hSplit := Nat.div_add_mod (num * 2 ^ s) den
  rw [hEq] at hSplit
  have hLess := Nat.mod_lt (num * 2 ^ s) hDen
  generalize num * 2 ^ s % den = r at hSplit hLess hR
  have hMissing : num * 2 ^ s + (den - r) = den * 2 ^ 32 := by omega
  by_cases hShift : 32 ≤ s
  · have hDvd : 2 ^ 32 ∣ den - r :=
      (Nat.dvd_add_right ((Nat.pow_dvd_pow 2 hShift).mul_left num)).mp
        (hMissing ▸ Nat.dvd_mul_left (2 ^ 32) den)
    have hLe := Nat.le_of_dvd (by omega) hDvd
    omega
  · have hDvd : 2 ^ s ∣ den - r := (Nat.dvd_add_right (Nat.dvd_mul_left (2 ^ s) num)).mp
        (hMissing ▸ (Nat.pow_dvd_pow 2 (by omega)).mul_left den)
    have hLe := Nat.le_of_dvd (by omega) hDvd
    have hMul : num * 2 ^ s ≤ (2 ^ 32 - 1) * (den - r) := Nat.mul_le_mul (by omega) hLe
    omega

/-
  The scaled numerator is divided, with so many fractional
  bits that the quotient has 32 bits.
-/
theorem longDivide_spec
    (hPos : 0 < num) (hNum : num < 2 ^ 32) (hDen : 0 < den) (hLt : den < 2 ^ 32) :
    ∃ s : Nat, s ≤ 63 ∧ (longDivide num den).iBits = 32 - (s : Int) ∧
      (longDivide num den).q = num * 2 ^ s / den ∧ (longDivide num den).r = num * 2 ^ s % den ∧
        2 ^ 31 ≤ num * 2 ^ s / den ∧ num * 2 ^ s / den < 2 ^ 32 ∧
          (0 < num * 2 ^ s % den → num * 2 ^ s / den + 1 < 2 ^ 32) := by
  have hLog : num < 2 ^ (num.log2 + 1) := Nat.lt_log2_self
  have hLog' : num.log2 < 32 := (Nat.log2_lt hPos.ne').mpr hNum
  have hStart : LongDiv.At num den num.log2 0
      { q := 0, r := 0, numMask := 1 <<< num.log2, iBits := num.log2 + 1 } := by
    constructor
    · rw [Nat.pow_zero, Nat.mul_one, Nat.div_eq_of_lt hLog, Nat.zero_div]
    · rw [Nat.pow_zero, Nat.mul_one, Nat.div_eq_of_lt hLog, Nat.zero_mod]
    · rw [Nat.shiftLeft_eq, Nat.one_mul, Nat.pow_zero, Nat.div_one]
    · simp
  have hRun : longDivide num den = LongDiv.loop num den (64 + num.log2)
      { q := 0, r := 0, numMask := 1 <<< num.log2, iBits := num.log2 + 1 } := by
    simp only [longDivide, msb_eq hPos hNum]
  rcases hStart.loop hDen hLt hPos (Nat.two_pow_pos 31) (Nat.zero_add _) with
    ⟨k, hK, hEnd, hBig, hSmall⟩
  rw [← hRun] at hEnd hBig hSmall
  generalize longDivide num den = d at hEnd hBig hSmall
  have hSize : d.q.size = 32 := le_antisymm (Nat.size_le.mpr hSmall) (Nat.lt_size.mpr hBig)
  -- the quotient of fewer bits than the numerator is smaller
  have hBits : num.log2 + 1 ≤ k := by
    by_contra hLess
    have hValue : d.q < 2 ^ k := by
      rw [hEnd.q]
      refine (Nat.div_le_self _ _).trans_lt ((Nat.div_lt_iff_lt_mul (Nat.two_pow_pos _)).mpr ?_)
      rw [Nat.mul_comm]
      exact Nat.mul_lt_mul_of_pos_left hLog (Nat.two_pow_pos k)
    have hPow : 2 ^ k ≤ 2 ^ 31 := Nat.pow_le_pow_right two_pos (by omega)
    omega
  rcases Nat.exists_eq_add_of_le hBits with ⟨s, rfl⟩
  have hScaled : num * 2 ^ (num.log2 + 1 + s) / 2 ^ (num.log2 + 1) = num * 2 ^ s := by
    rw [Nat.pow_add, Nat.mul_left_comm, Nat.mul_div_cancel_left _ (Nat.two_pow_pos _)]
  have hQ := hEnd.q
  have hR := hEnd.r
  rw [hScaled] at hQ hR
  rw [hQ] at hBig hSmall
  refine ⟨s, by omega, ?_, hQ, hR, hBig, hSmall, round_up_lt hNum hDen hLt hSmall⟩
  rw [hEnd.iBits, hSize]
  omega

----
-- Scaling
----

/- A fraction, rounded up by less than its last bit. -/
structure Frac.Rounds
    (frac : Frac)
    (num den e : Nat) : Prop where
  shift_le : frac.shift ≤ 63
  frac_lt : frac.frac < 2 ^ 32
  big : 2 ^ 31 * den ≤ num * 2 ^ frac.shift
  value : frac.frac * den = num * 2 ^ frac.shift + e
  error : e < den

/- The fraction in lowest terms. -/
theorem gcd32_reduces
    (hPos : 0 < num) (hNum : num < 2 ^ 32) (hDen : 0 < den) (hLt : den < 2 ^ 32) :
    ∃ g num' den', gcd32 num den = some g ∧ 0 < g ∧ num = g * num' ∧ den = g * den' ∧
      (0 < num' ∧ num' < 2 ^ 32) ∧ 0 < den' ∧ den' < 2 ^ 32 := by
  have hGcd := Nat.gcd_pos_of_pos_left den hPos
  rcases Nat.gcd_dvd_left num den with ⟨num', hNum'⟩
  rcases Nat.gcd_dvd_right num den with ⟨den', hDen'⟩
  have hLeNum : num' ≤ num.gcd den * num' := Nat.le_mul_of_pos_left num' hGcd
  have hLeDen : den' ≤ num.gcd den * den' := Nat.le_mul_of_pos_left den' hGcd
  exact ⟨num.gcd den, num', den', gcd32_eq hNum hLt, hGcd, hNum', hDen',
    ⟨Nat.pos_of_mul_pos_left (hNum' ▸ hPos), by omega⟩,
    Nat.pos_of_mul_pos_left (hDen' ▸ hDen), by omega⟩

theorem fracInit_rounds
    (hPos : 0 < num) (hNum : num < 2 ^ 32) (hDen : 0 < den) (hLt : den < 2 ^ 32) :
    ∃ frac e, fracInit num den = some frac ∧ frac.Rounds num den e := by
  rcases gcd32_reduces hPos hNum hDen hLt with
    ⟨g, num', den', hRun, hGcd, rfl, rfl, ⟨hPos', hNum'⟩, hDen', hLt'⟩
  simp only [fracInit, hRun, Option.bind_eq_bind, Option.bind_some]
  rw [Nat.mul_div_cancel_left _ hGcd, Nat.mul_div_cancel_left _ hGcd]
  rcases longDivide_spec hPos' hNum' hDen' hLt' with ⟨s, hS, hIBits, hQ, hR, hBig, hSmall, hUp⟩
  have hSplit := Nat.div_add_mod (num' * 2 ^ s) den'
  have hLess := Nat.mod_lt (num' * 2 ^ s) hDen'
  have hShift : ((32 - (longDivide num' den').iBits) % 256).toNat = s := by
    rw [hIBits]
    omega
  have hScaled : 2 ^ 31 * (g * den') ≤ g * num' * 2 ^ s := by
    rw [Nat.mul_left_comm, Nat.mul_assoc]
    exact Nat.mul_le_mul_left g ((Nat.le_div_iff_mul_le hDen').mp hBig)
  simp only [fracLongDivide, if_neg hPos'.ne', hShift]
  rw [hQ, hR]
  generalize num' * 2 ^ s / den' = q at hSmall hSplit hUp
  generalize num' * 2 ^ s % den' = r at hSplit hLess hUp
  by_cases hExact : 0 < r
  · rw [if_pos hExact, Nat.mod_eq_of_lt (hUp hExact)]
    refine ⟨_, g * (den' - r), rfl, hS, hUp hExact, hScaled, ?_, ?_⟩
    · show (q + 1) * (g * den') = g * num' * 2 ^ s + g * (den' - r)
      rw [Nat.mul_assoc, ← Nat.mul_add, Nat.mul_left_comm, Nat.add_mul, Nat.mul_comm q]
      congr 1
      omega
    · exact Nat.mul_lt_mul_of_pos_left (by omega) hGcd
  · rw [if_neg hExact]
    refine ⟨_, 0, rfl, hS, hSmall, hScaled, ?_, Nat.mul_pos hGcd hDen'⟩
    show q * (g * den') = g * num' * 2 ^ s + 0
    rw [Nat.mul_assoc, Nat.mul_left_comm, Nat.mul_comm q]
    congr 1
    omega

variable {frac : Frac} {e x : Nat}

section

variable (h : frac.Rounds num den e)

include h

/- The scaled number, without overflow. -/
theorem Frac.Rounds.scale
    (hX : x < 2 ^ 32) :
    fracScale frac x = frac.frac * x / 2 ^ frac.shift % 2 ^ 32 := by
  have hMul : frac.frac * x < 2 ^ 64 :=
    Nat.mul_lt_mul_of_lt_of_le (c := 2 ^ 32) (d := 2 ^ 32) h.frac_lt hX.le (by omega)
  rw [fracScale, Nat.mod_eq_of_lt hMul, Nat.shiftRight_eq_div_pow]

/- The product is exact but for a multiple of the error. -/
theorem Frac.Rounds.product :
    frac.frac * x * den = x * num * 2 ^ frac.shift + x * e := by
  rw [Nat.mul_right_comm, h.value, Nat.add_mul, Nat.mul_comm e]
  congr 1
  ring

/- An error that fits above the remainder is cut off. -/
theorem Frac.Rounds.floor
    {c : Nat} (hDen : 0 < den) (hError : x * e < (c * den + 1) * 2 ^ frac.shift) :
    x * num / den ≤ frac.frac * x / 2 ^ frac.shift ∧
      frac.frac * x / 2 ^ frac.shift ≤ x * num / den + c := by
  have hPow := Nat.two_pow_pos frac.shift
  have hProduct := h.product (x := x)
  constructor
  · rw [Nat.le_div_iff_mul_le hPow]
    refine Nat.le_of_mul_le_mul_right ?_ hDen
    calc x * num / den * 2 ^ frac.shift * den
        = x * num / den * den * 2 ^ frac.shift := Nat.mul_right_comm ..
      _ ≤ x * num * 2 ^ frac.shift := Nat.mul_le_mul_right _ (Nat.div_mul_le_self ..)
      _ ≤ frac.frac * x * den := by omega
  · rw [← Nat.lt_succ_iff, Nat.div_lt_iff_lt_mul hPow]
    refine Nat.lt_of_mul_lt_mul_right (a := den) ?_
    have hRem : x * num + 1 ≤ (x * num / den + 1) * den := Nat.lt_mul_of_div_lt (by omega) hDen
    calc frac.frac * x * den
        = x * num * 2 ^ frac.shift + x * e := hProduct
      _ < x * num * 2 ^ frac.shift + (c * den + 1) * 2 ^ frac.shift := by omega
      _ = (x * num + 1 + c * den) * 2 ^ frac.shift := by ring
      _ ≤ ((x * num / den + 1) * den + c * den) * 2 ^ frac.shift :=
        Nat.mul_le_mul_right _ (by omega)
      _ = (x * num / den + c).succ * 2 ^ frac.shift * den := by
        rw [Nat.succ_eq_add_one]
        ring

/- A fraction of at most 1 scales with an error of at most 1. -/
theorem Frac.Rounds.near
    (hDen : 0 < den) (hLe : num ≤ den) (hX : x < 2 ^ 32) :
    (x * num / den ≤ frac.frac * x / 2 ^ frac.shift ∧
      frac.frac * x / 2 ^ frac.shift ≤ x * num / den + 1) ∧
      fracScale frac x = frac.frac * x / 2 ^ frac.shift := by
  have hBig := h.big
  have hError := h.error
  rw [h.scale hX]
  rcases hLe.eq_or_lt with rfl | hLess
  · -- the error is a multiple of the denominator
    have hPow : 2 ^ frac.shift * num = num * 2 ^ frac.shift := Nat.mul_comm ..
    have hDvd : num ∣ e := (Nat.dvd_add_right (hPow ▸ Nat.dvd_mul_left ..)).mp
      (h.value ▸ Nat.dvd_mul_left num frac.frac)
    have hFloor := h.floor (x := x) (c := 0) hDen
      (by simp [Nat.eq_zero_of_dvd_of_lt hDvd hError])
    rw [Nat.mul_div_cancel _ hDen] at hFloor ⊢
    omega
  · have hPow : 2 ^ 32 ≤ 2 ^ frac.shift := by
      refine Nat.pow_le_pow_right two_pos (Nat.lt_of_not_le (fun hShift => ?_))
      have hSmall : num * 2 ^ frac.shift ≤ num * 2 ^ 31 :=
        Nat.mul_le_mul_left num (Nat.pow_le_pow_right two_pos hShift)
      omega
    have hFloor := h.floor (x := x) (c := 1) hDen <| by
      calc x * e ≤ 2 ^ frac.shift * den := Nat.mul_le_mul (by omega) hError.le
        _ < (1 * den + 1) * 2 ^ frac.shift := by
          rw [Nat.mul_comm, Nat.one_mul]
          exact Nat.mul_lt_mul_of_pos_right (Nat.lt_succ_self den) (Nat.two_pow_pos _)
    refine ⟨hFloor, Nat.mod_eq_of_lt ?_⟩
    by_cases hX0 : x = 0
    · simp [hX0]
    · have hDown : x * num / den < x := by
        rw [Nat.div_lt_iff_lt_mul hDen]
        exact Nat.mul_lt_mul_of_pos_left hLess (Nat.pos_of_ne_zero hX0)
      omega

end

/-
  The shift and the rounding of a fraction stay in range, small
  products are scaled exactly, and a fraction of at most 1
  scales with an error of at most 1.
-/
theorem frac_scale_accurate
    (num den : Nat) (hNum : num < 2 ^ 32) (hDen : 0 < den) (hLt : den < 2 ^ 32) :
    ∃ frac, fracInit num den = some frac ∧ frac.shift ≤ 63 ∧
      (∀ gcd, gcd32 num den = some gcd → num ≠ 0 → 0 < (longDivide (num / gcd) (den / gcd)).r →
          (longDivide (num / gcd) (den / gcd)).q + 1 < 2 ^ 32) ∧ ∀ x < 2 ^ 32,
          (x * num < 2 ^ 31 → fracScale frac x = x * num / den % 2 ^ 32) ∧ (num ≤ den →
              fracScale frac x = x * num / den ∨ fracScale frac x = x * num / den + 1) := by
  have hIncrement : ∀ gcd, gcd32 num den = some gcd → num ≠ 0 →
      0 < (longDivide (num / gcd) (den / gcd)).r →
        (longDivide (num / gcd) (den / gcd)).q + 1 < 2 ^ 32 := by
    intro gcd hRun hNe hRem
    rcases gcd32_reduces (Nat.pos_of_ne_zero hNe) hNum hDen hLt with
      ⟨g, num', den', hRun', hGcd, rfl, rfl, ⟨hPos', hNum'⟩, hDen', hLt'⟩
    cases hRun.symm.trans hRun'
    rw [Nat.mul_div_cancel_left _ hGcd, Nat.mul_div_cancel_left _ hGcd] at hRem ⊢
    rcases longDivide_spec hPos' hNum' hDen' hLt' with ⟨s, _, _, hQ, hR, _, _, hUp⟩
    rw [hQ]
    exact hUp (hR ▸ hRem)
  by_cases hZero : num = 0
  · subst hZero
    refine ⟨{ frac := 0, shift := 32 }, ?_, by decide, hIncrement, ?_⟩
    · simp [fracInit, gcd32, fracLongDivide]
    · intro x hX
      simp [fracScale]
  rcases fracInit_rounds (Nat.pos_of_ne_zero hZero) hNum hDen hLt with ⟨frac, e, hInit, hRounds⟩
  refine ⟨frac, hInit, hRounds.shift_le, hIncrement, fun x hX => ?_⟩
  have hBig := hRounds.big
  have hError := hRounds.error
  rw [hRounds.scale hX]
  constructor
  · intro hProduct
    -- the error is as small as the scaled numerator is large
    have hCut : x * e < (0 * den + 1) * 2 ^ frac.shift := by
      refine Nat.lt_of_mul_lt_mul_right (a := num) ?_
      calc x * e * num = x * num * e := Nat.mul_right_comm ..
        _ ≤ 2 ^ 31 * e := Nat.mul_le_mul_right e hProduct.le
        _ < 2 ^ 31 * den := by omega
        _ ≤ num * 2 ^ frac.shift := hBig
        _ = (0 * den + 1) * 2 ^ frac.shift * num := by ring
    have hFloor := hRounds.floor hDen hCut
    rw [show frac.frac * x / 2 ^ frac.shift = x * num / den by omega]
  · intro hLe
    have hNear := hRounds.near hDen hLe hX
    rw [← hRounds.scale hX, hNear.2]
    omega

theorem frac_scale_accurate_ratio :
    ∃ frac, fracInit 3 5 = some frac ∧ frac.shift ≤ 63 ∧
      (∀ gcd, gcd32 3 5 = some gcd → 3 ≠ 0 → 0 < (longDivide (3 / gcd) (5 / gcd)).r →
        (longDivide (3 / gcd) (5 / gcd)).q + 1 < 2 ^ 32) ∧ ∀ x < 2 ^ 32,
          (x * 3 < 2 ^ 31 → fracScale frac x = x * 3 / 5 % 2 ^ 32) ∧
            (3 ≤ 5 → fracScale frac x = x * 3 / 5 ∨ fracScale frac x = x * 3 / 5 + 1) :=
  frac_scale_accurate 3 5 (by omega) (by omega) (by omega)

end Riot
