import Riot.Sys.ZtimerConvert
import Riot.Timers.FracScale

/-
  Times and intervals of converted clocks.

  A clock that counts through all 32-bit values runs uniformly
  if the ratio is an integer.  Lower intervals are never short
  with exact division, and with a fraction if what is added
  before the scaling makes up for an incomplete lower tick.
-/

----
-- Quotients
----

namespace Riot

variable {n x mul div val : Nat}

/- The quotients of a number, rounded down and up. -/
theorem floor_or_ceil
    (hMul : 0 < mul) :
    n = x / mul ∨ n = (x + mul - 1) / mul ↔ n * mul < x + mul ∧ x < n * mul + mul := by
  have hFloor := Nat.div_add_mod x mul
  have hFloorLt := Nat.mod_lt x hMul
  have hCeil := Nat.div_add_mod (x + mul - 1) mul
  have hCeilLt := Nat.mod_lt (x + mul - 1) hMul
  constructor
  · rintro (rfl | rfl)
    · rw [Nat.mul_comm]
      omega
    · rw [Nat.mul_comm]
      omega
  · rintro ⟨hLow, hHigh⟩
    by_cases hLe : n * mul ≤ x
    · left
      exact (Nat.div_eq_of_lt_le hLe (by rw [Nat.succ_mul]; exact hHigh)).symm
    · right
      exact (Nat.div_eq_of_lt_le (by omega) (by rw [Nat.succ_mul]; omega)).symm

----
-- Uniform Clocks
----

/- Any two times are apart by what passes, rounded. -/
def ConvertMuldiv64.Uniform
    (self : ConvertMuldiv64) (div mul : Nat) : Prop :=
  ∀ l < 2 ^ 32, ∀ k, k * div < 2 ^ 31 * mul →
    (self.now ((l + k) % 2 ^ 32) + 2 ^ 32 - self.now l) % 2 ^ 32 = k * div / mul ∨
      (self.now ((l + k) % 2 ^ 32) + 2 ^ 32 - self.now l) % 2 ^ 32 = (k * div + mul - 1) / mul

/- The fields hold 16 bits of the ratio, and 0 is treated as 1. -/
theorem convertMuldiv64Init_now
    (hLt : val < 2 ^ 32) :
    (convertMuldiv64Init div mul).now val =
      val * max 1 (div % 2 ^ 16) / max 1 (mul % 2 ^ 16) % 2 ^ 32 := by
  have hProduct : val * (div % 2 ^ 16) < 2 ^ 64 :=
    Nat.mul_lt_mul_of_lt_of_le (c := 2 ^ 32) (d := 2 ^ 32) hLt (by omega) (by omega)
  simp only [ConvertMuldiv64.now, convertMuldiv64Init, Nat.mod_eq_of_lt hProduct]
  by_cases hDiv : 1 < div % 2 ^ 16
  · rw [if_pos hDiv, Nat.max_eq_right hDiv.le]
    by_cases hMul : 1 < mul % 2 ^ 16
    · rw [if_pos hMul, Nat.max_eq_right hMul.le]
    · rw [if_neg hMul, Nat.max_eq_left (by omega), Nat.div_one]
  · rw [if_neg hDiv, Nat.max_eq_left (by omega), Nat.mul_one]
    by_cases hMul : 1 < mul % 2 ^ 16
    · rw [if_pos hMul, Nat.max_eq_right hMul.le]
    · rw [if_neg hMul, Nat.max_eq_left (by omega), Nat.div_one]

/-
  The longest time that is tested: within it, an integer ratio
  has to stay close to the one that was asked for.
-/
def closeRatio
    (c div mul : Nat) : Prop :=
  c * ((2 ^ 31 * mul - 1) / div) * mul < (2 ^ 31 * mul - 1) / div * div + mul ∧
    (2 ^ 31 * mul - 1) / div * div < c * ((2 ^ 31 * mul - 1) / div) * mul + mul

/-
  A clock at least as fast as the lower one runs uniformly if
  and only if the ratio is an integer, close to the one asked
  for, or no lower tick is short enough to be tested.
-/
theorem convertMuldiv64_uniform_iff
    (div mul : Nat) (hMul : 0 < mul) (hLe : mul ≤ div) :
    (convertMuldiv64Init div mul).Uniform div mul ↔ 2 ^ 31 * mul ≤ div ∨
        max 1 (mul % 2 ^ 16) ∣ max 1 (div % 2 ^ 16) ∧
          closeRatio (max 1 (div % 2 ^ 16) / max 1 (mul % 2 ^ 16)) div mul := by
  have hM : 0 < max 1 (mul % 2 ^ 16) := by omega
  have hMLt : max 1 (mul % 2 ^ 16) < 2 ^ 16 := by omega
  have hDLt : max 1 (div % 2 ^ 16) < 2 ^ 16 := by omega
  simp only [ConvertMuldiv64.Uniform, closeRatio]
  have hNow : ∀ val < 2 ^ 32, (convertMuldiv64Init div mul).now val =
      val * max 1 (div % 2 ^ 16) / max 1 (mul % 2 ^ 16) % 2 ^ 32 :=
    fun val hVal => convertMuldiv64Init_now hVal
  generalize max 1 (div % 2 ^ 16) = d at *
  generalize max 1 (mul % 2 ^ 16) = m at *
  generalize hK : (2 ^ 31 * mul - 1) / div = K
  have hKLt : K * div < 2 ^ 31 * mul := by
    have hDown := Nat.div_mul_le_self (2 ^ 31 * mul - 1) div
    rw [hK] at hDown
    omega
  have hRatio : ∀ c, d = m * c → ∀ val < 2 ^ 32,
      (convertMuldiv64Init div mul).now val = c * val % 2 ^ 32 := by
    rintro c rfl val hVal
    rw [hNow _ hVal, Nat.mul_left_comm, Nat.mul_div_cancel_left _ hM, Nat.mul_comm]
  constructor
  · intro hUniform
    refine or_iff_not_imp_left.mpr (fun hShort => ?_)
    have hOne := hUniform 0 (by omega) 1 (by omega)
    have hStart : (convertMuldiv64Init div mul).now 0 = 0 := by
      rw [hNow 0 (by omega), Nat.zero_mul, Nat.zero_div, Nat.zero_mod]
    have hFirst : (convertMuldiv64Init div mul).now 1 = d / m := by
      rw [hNow 1 (by omega), Nat.one_mul, Nat.mod_eq_of_lt]
      exact (Nat.div_le_self d m).trans_lt (by omega)
    have hQuot := Nat.div_add_mod d m
    have hSmall : d / m < 2 ^ 16 := (Nat.div_le_self d m).trans_lt hDLt
    rw [show (0 + 1) % 2 ^ 32 = 1 from rfl, hStart, hFirst, floor_or_ceil hMul,
      show (d / m + 2 ^ 32 - 0) % 2 ^ 32 = d / m by omega, Nat.one_mul] at hOne
    have hDvd : m ∣ d := by
      by_contra hNot
      -- the last lower tick before the wrap takes too long
      have hWrap := hUniform (2 ^ 32 - 1) (by omega) 1 (by omega)
      have hRem : 0 < d % m := Nat.pos_of_ne_zero (fun h => hNot (Nat.dvd_of_mod_eq_zero h))
      have hRemLt := Nat.mod_lt d hM
      have hLast : (2 ^ 32 - 1) * d / m = (2 ^ 32 - 1) * (d / m) + (2 ^ 32 - 1) * (d % m) / m := by
        conv_lhs => rw [← hQuot, Nat.mul_add, Nat.mul_left_comm, Nat.mul_add_div hM]
      have hHigh : (2 ^ 32 - 1) * (d % m) / m < 2 ^ 32 - 1 := by
        rw [Nat.div_lt_iff_lt_mul hM]
        exact Nat.mul_lt_mul_of_pos_left hRemLt (by omega)
      have hLow : d / m ≤ (2 ^ 32 - 1) * (d % m) / m := by
        rw [Nat.le_div_iff_mul_le hM, Nat.mul_comm]
        omega
      rw [show (2 ^ 32 - 1 + 1) % 2 ^ 32 = 0 from rfl, hStart, hNow _ (by omega), hLast,
        floor_or_ceil hMul, Nat.one_mul] at hWrap
      generalize (2 ^ 32 - 1) * (d % m) / m = w at hHigh hLow hWrap
      generalize hDiff :
        (0 + 2 ^ 32 - ((2 ^ 32 - 1) * (d / m) + w) % 2 ^ 32) % 2 ^ 32 = diff at hWrap
      have hFar : diff = 0 ∨ d / m + 2 ≤ diff := by omega
      rcases hFar with rfl | hFar
      · omega
      · have hMulFar := Nat.mul_le_mul_right mul hFar
        rw [Nat.add_mul] at hMulFar
        omega
    rcases hDvd with ⟨c, rfl⟩
    rw [Nat.mul_div_cancel_left _ hM] at *
    have hKSmall : K < 2 ^ 31 := by
      by_contra hBig
      have hLarge : 2 ^ 31 * div ≤ K * div := Nat.mul_le_mul_right div (by omega)
      omega
    have hFit : c * K < 2 ^ 32 := by
      refine Nat.lt_of_mul_lt_mul_right (a := mul) ?_
      calc c * K * mul = c * mul * K := Nat.mul_right_comm ..
        _ ≤ 2 * div * K := Nat.mul_le_mul_right K (by omega)
        _ = 2 * (K * div) := by rw [Nat.mul_assoc, Nat.mul_comm div]
        _ < 2 ^ 32 * mul := by omega
    have hEnd := hUniform 0 (by omega) K hKLt
    have hNowK : (convertMuldiv64Init div mul).now ((0 + K) % 2 ^ 32) = c * K := by
      rw [Nat.zero_add, Nat.mod_eq_of_lt (by omega), hRatio c rfl K (by omega),
        Nat.mod_eq_of_lt hFit]
    rw [hNowK, hStart, Nat.sub_zero, Nat.add_mod_right, Nat.mod_eq_of_lt hFit,
      floor_or_ceil hMul] at hEnd
    exact ⟨Nat.dvd_mul_right m c, hEnd⟩
  · rintro (hLong | ⟨⟨c, rfl⟩, hClose⟩) l hL k hStep
    · have hZero : k = 0 := by
        by_contra hNe
        have hLe' : div ≤ k * div := Nat.le_mul_of_pos_left div (Nat.pos_of_ne_zero hNe)
        omega
      left
      rw [hZero, Nat.add_zero, Nat.mod_eq_of_lt hL, Nat.zero_mul, Nat.zero_div]
      omega
    · rw [Nat.mul_div_cancel_left _ hM] at hClose
      rw [hRatio c rfl _ (by omega), hRatio c rfl _ hL]
      have hDiff : (c * ((l + k) % 2 ^ 32) % 2 ^ 32 + 2 ^ 32 - c * l % 2 ^ 32) % 2 ^ 32 =
          c * k % 2 ^ 32 := by
        have hMod : c * ((l + k) % 2 ^ 32) % 2 ^ 32 = (c * l + c * k) % 2 ^ 32 := by
          rw [Nat.mul_mod, Nat.mod_mod, ← Nat.mul_mod, Nat.mul_add]
        rw [hMod]
        omega
      rw [hDiff]
      have hKk : k ≤ K := by
        rw [← hK, Nat.le_div_iff_mul_le (by omega)]
        omega
      have hCloseK : c * k * mul < k * div + mul ∧ k * div < c * k * mul + mul := by
        rcases Nat.le_total div (c * mul) with hOver | hUnder
        · rcases Nat.exists_eq_add_of_le hOver with ⟨δ, hδ⟩
          have hAt : ∀ j, c * j * mul = j * div + j * δ := fun j => by
            rw [Nat.mul_right_comm, hδ, Nat.mul_comm, Nat.mul_add]
          have hLess : k * δ ≤ K * δ := Nat.mul_le_mul_right δ hKk
          rw [hAt] at hClose ⊢
          omega
        · rcases Nat.exists_eq_add_of_le hUnder with ⟨δ, hδ⟩
          have hAt : ∀ j, j * div = c * j * mul + j * δ := fun j => by
            rw [hδ, Nat.mul_add, Nat.mul_right_comm, Nat.mul_comm j]
          have hLess : k * δ ≤ K * δ := Nat.mul_le_mul_right δ hKk
          rw [hAt K] at hClose
          rw [hAt k]
          omega
      have hFit : c * k < 2 ^ 32 := by
        refine Nat.lt_of_mul_lt_mul_right (a := mul) ?_
        omega
      rw [Nat.mod_eq_of_lt hFit, floor_or_ceil hMul]
      exact hCloseK

/- With a ratio of 3/2 the clock jumps where the lower one wraps. -/
theorem not_convertMuldiv64_uniform :
    ¬ ∀ div mul, div < 2 ^ 32 → 0 < mul → mul ≤ div →
      (convertMuldiv64Init div mul).Uniform div mul := by
  intro h
  have hWrap := h 3 2 (by omega) (by omega) (by omega) (2 ^ 32 - 1) (by omega) 1 (by omega)
  revert hWrap
  decide

theorem convertMuldiv64_uniform_iff_ratio :
    (convertMuldiv64Init 3 2).Uniform 3 2 ↔ 2 ^ 31 * 2 ≤ 3 ∨
        max 1 (2 % 2 ^ 16) ∣ max 1 (3 % 2 ^ 16) ∧
          closeRatio (max 1 (3 % 2 ^ 16) / max 1 (2 % 2 ^ 16)) 3 2 :=
  convertMuldiv64_uniform_iff 3 2 (by omega) (by omega)

----
-- Intervals
----

/- What the interval lacks to the next multiple. -/
def missing
    (x fs : Nat) : Nat :=
  (fs - x % fs) % fs

theorem dvd_add_missing
    (hDiv : 0 < div) :
    ∃ t, x + missing x div = t * div ∧ missing x div < div := by
  have hSplit := Nat.div_add_mod' x div
  have hRem := Nat.mod_lt x hDiv
  unfold missing
  by_cases hExact : x % div = 0
  · rw [hExact, Nat.sub_zero, Nat.mod_self]
    exact ⟨x / div, by omega, hDiv⟩
  · rw [Nat.mod_eq_of_lt (by omega)]
    refine ⟨x / div + 1, ?_, by omega⟩
    rw [Nat.add_mul]
    omega

/-
  An interval is not short if what is added before the scaling
  or what the multiplier is rounded up by is enough.
-/
theorem ConvertFrac.set_iff
    {fs fl : Nat} (hFl : 0 < fl) (hLe : fl ≤ fs) (hFs : fs < 2 ^ 32) :
    ∃ self, convertFracInit fs fl = some self ∧ self.round = fs / fl ∧
      ∀ val, val + self.round < 2 ^ 32 → (val * fl ≤ self.set val * fs ↔
          (missing (val * fl) fs - self.round * fl) * 2 ^ self.scaleSet.shift ≤
            (val + self.round) * (self.scaleSet.frac * fs - fl * 2 ^ self.scaleSet.shift)) := by
  rcases fracInit_rounds (by omega : 0 < fs) hFs hFl (by omega) with ⟨scaleNow, _, hNow, _⟩
  rcases fracInit_rounds hFl (by omega) (by omega) hFs with ⟨scaleSet, e, hSet, hRounds⟩
  refine ⟨{ scaleNow, scaleSet, round := fs / fl, maxValue := 2 ^ 32 - 1 }, ?_, rfl, ?_⟩
  · rw [convertFracInit, hNow, hSet]
    simp [Nat.not_lt.mpr hLe]
  · intro val hVal
    replace hVal : val + fs / fl < 2 ^ 32 := hVal
    have hDen : 0 < fs := by omega
    have hProduct := hRounds.product (x := val + fs / fl)
    show val * fl ≤ fracScale scaleSet ((val + fs / fl) % 2 ^ 32) * fs ↔
      (missing (val * fl) fs - fs / fl * fl) * 2 ^ scaleSet.shift ≤
        (val + fs / fl) * (scaleSet.frac * fs - fl * 2 ^ scaleSet.shift)
    rw [hRounds.value, Nat.add_sub_cancel_left, Nat.mod_eq_of_lt hVal,
      (hRounds.near hDen hLe hVal).2]
    rcases dvd_add_missing (x := val * fl) hDen with ⟨t, hMissing, hLess⟩
    have hTarget : ∀ lower, val * fl ≤ lower * fs ↔ t ≤ lower := by
      intro lower
      constructor
      · intro hEnough
        by_contra hShort
        have hNext : (lower + 1) * fs ≤ t * fs := Nat.mul_le_mul_right fs (by omega)
        rw [Nat.add_mul] at hNext
        omega
      · intro hAbove
        have hAbove' : t * fs ≤ lower * fs := Nat.mul_le_mul_right fs hAbove
        omega
    have hPow := Nat.two_pow_pos scaleSet.shift
    calc val * fl ≤ scaleSet.frac * (val + fs / fl) / 2 ^ scaleSet.shift * fs
        ↔ t * 2 ^ scaleSet.shift ≤ scaleSet.frac * (val + fs / fl) := by
          rw [hTarget, Nat.le_div_iff_mul_le hPow]
      _ ↔ t * 2 ^ scaleSet.shift * fs ≤ scaleSet.frac * (val + fs / fl) * fs :=
          (Nat.mul_le_mul_right_iff hDen).symm
      _ ↔ (val * fl + missing (val * fl) fs) * 2 ^ scaleSet.shift ≤
            (val * fl + fs / fl * fl) * 2 ^ scaleSet.shift + (val + fs / fl) * e := by
          rw [hProduct, Nat.mul_right_comm, hMissing, Nat.add_mul val]
      _ ↔ (missing (val * fl) fs - fs / fl * fl) * 2 ^ scaleSet.shift ≤ (val + fs / fl) * e := by
          rw [Nat.add_mul, Nat.add_mul (val * fl), Nat.sub_mul]
          omega

/- The smallest integer that is not below a quotient. -/
def IsCeil
    (x div t : Nat) : Prop :=
  x ≤ t * div ∧ ∀ t', x ≤ t' * div → t ≤ t'

theorem integerDivCeil_isCeil
    (hDiv : 0 < div) :
    IsCeil x div (integerDivCeil x div) := by
  unfold integerDivCeil
  by_cases hZero : x = 0
  · rw [if_pos hZero]
    exact ⟨by omega, fun _ _ => Nat.zero_le _⟩
  · rw [if_neg hZero]
    have hSplit := Nat.div_add_mod' (x - 1) div
    have hRem := Nat.mod_lt (x - 1) hDiv
    constructor
    · rw [Nat.add_mul]
      omega
    · intro t hT
      rw [Nat.add_comm, Nat.succ_le_iff, Nat.div_lt_iff_lt_mul hDiv]
      omega

/- An interval that is passed down is the smallest long enough. -/
theorem ConvertMuldiv64.set_isCeil
    {div mul : UInt16} (hDiv : div ≠ 0) (hMul : mul ≠ 0) (hVal : val < 2 ^ 32)
    (hMax : div < mul → val ≤ (convertMuldiv64Init div.toNat mul.toNat).maxValue / 2) :
    IsCeil (val * mul.toNat) div.toNat ((convertMuldiv64Init div.toNat mul.toNat).set val) := by
  have hDivLt := div.toNat_lt
  have hMulLt := mul.toNat_lt
  have hPos : 0 < div.toNat := Nat.pos_of_ne_zero (fun h => hDiv (UInt16.toNat_inj.mp h))
  have hPosMul : 0 < mul.toNat := Nat.pos_of_ne_zero (fun h => hMul (UInt16.toNat_inj.mp h))
  rw [UInt16.lt_iff_toNat_lt] at hMax
  generalize div.toNat = d at *
  generalize mul.toNat = m at *
  have hProduct : val * m < 2 ^ 64 :=
    Nat.mul_lt_mul_of_lt_of_le (c := 2 ^ 32) (d := 2 ^ 32) hVal (by omega) (by omega)
  have hCeil := integerDivCeil_isCeil (x := val * m) hPos
  have hFit : integerDivCeil (val * m) d < 2 ^ 32 := by
    by_cases hSlow : d < m
    · have hMaxValue : (2 ^ 32 - 1) * d / m < 2 ^ 32 := by
        rw [Nat.div_lt_iff_lt_mul (by omega)]
        omega
      have hHalf := hMax hSlow
      simp only [convertMuldiv64Init, if_pos hSlow] at hHalf
      rw [Nat.mod_eq_of_lt (by omega : (2 ^ 32 - 1) * d < 2 ^ 64),
        Nat.mod_eq_of_lt hMaxValue] at hHalf
      have hMul : (2 ^ 32 - 1) * d / m * m ≤ (2 ^ 32 - 1) * d := Nat.div_mul_le_self ..
      have hTwice : 2 * val * m ≤ (2 ^ 32 - 1) * d / m * m := Nat.mul_le_mul_right m (by omega)
      have hEnough := hCeil.2 (2 ^ 31) (by rw [Nat.mul_assoc] at hTwice; omega)
      omega
    · have hEnough := hCeil.2 val (Nat.mul_le_mul_left val (by omega))
      omega
  have hSet : (convertMuldiv64Init d m).set val = integerDivCeil (val * m) d := by
    simp only [ConvertMuldiv64.set, convertMuldiv64Init, Nat.mod_eq_of_lt hDivLt,
      Nat.mod_eq_of_lt hMulLt, Nat.mod_eq_of_lt hProduct]
    have hScaled : (if 1 < m then val * m else val) = val * m := by
      by_cases hFast : 1 < m
      · rw [if_pos hFast]
      · rw [if_neg hFast, show m = 1 by omega, Nat.mul_one]
    rw [hScaled]
    by_cases hSlow : 1 < d
    · rw [if_pos hSlow, Nat.mod_eq_of_lt hFit]
    · have hD : d = 1 := by omega
      have hSame : integerDivCeil (val * m) 1 = val * m := by
        unfold integerDivCeil
        split_ifs <;> omega
      rw [hD, hSame] at hFit
      rw [if_neg hSlow, Nat.mod_eq_of_lt hFit, hD, hSame]
  rw [hSet]
  exact hCeil

end Riot
