import Riot.Text.FmtDecimal

/-
  The text of fixed-point numbers is exact.
-/

open Digits

----
-- Texts
----

namespace Riot

/-
  The representation of `i * 10 ^ k`, with exactly `-k` digits
  after the point when `k` is negative.
-/
def fixedText
    (i k : Int) : List UInt8 :=
  if 0 ≤ k then
    signed (i * 10 ^ k.toNat)
  else
    let e := 10 ^ (-k).toNat
    (if i < 0 then [0x2d] else []) ++
      (decimal (i.natAbs / e) ++ 0x2e :: padded (-k).toNat (i.natAbs % e))

theorem putText_nil
    {m : ByteMem} {out : Nat} :
    putText m out [] = m := by
  rw [putText]
  split
  · exact ByteMem.write_nil
  · rfl

theorem signed_of_nonneg
    {i : Int} (hi : 0 ≤ i) :
    signed i = decimal i.natAbs :=
  if_neg (Int.not_lt.mpr hi)

/- Multiplying by a power of ten appends zeros. -/
theorem decimal_mul_pow
    {n : Nat} (hn : 0 < n) (k : Nat) :
    decimal (n * 10 ^ k) = decimal n ++ List.replicate k 0x30 := by
  have hPow : 0 < 10 ^ k := Nat.pow_pos (by decide)
  have hDiv : n * 10 ^ k / 10 ^ k = n := Nat.mul_div_cancel n hPow
  have hSplit := decimal_eq_append_padded (n := n * 10 ^ k) (k := k) (by rw [hDiv]; exact hn)
  rw [hSplit, hDiv, ← padded_mod, Nat.mul_mod_left, padded_zero]
  rfl

theorem signed_mul_pow
    {i : Int} (hi : i ≠ 0) (k : Nat) :
    signed (i * 10 ^ k) = signed i ++ List.replicate k 0x30 := by
  have hPow : (0 : Int) < 10 ^ k := Int.pow_pos (by decide)
  have hNonneg := Int.mul_nonneg_iff_of_pos_right (a := i) hPow
  have hSign : i * 10 ^ k < 0 ↔ i < 0 := by
    rw [← Int.not_le, ← Int.not_le, hNonneg]
  have hAbs : (i * 10 ^ k).natAbs = i.natAbs * 10 ^ k := by
    rw [Int.natAbs_mul, Int.natAbs_pow]
    rfl
  have hText := decimal_mul_pow (Int.natAbs_pos.mpr hi) k
  rw [signed, signed, hAbs, hText]
  by_cases hNeg : i < 0
  · rw [if_pos hNeg, if_pos (hSign.mpr hNeg), List.cons_append]
  · rw [if_neg hNeg, if_neg (mt hSign.mp hNeg)]

----
-- Digits After the Point
----

variable {m : ByteMem} {out : Nat}

/- Digits moved to the right, behind zeros. -/
theorem write_lpad
    {n k : Nat} (hk : 0 < k) (hn : n < 10 ^ k) (hOut : out ≠ 0) :
    (fmtLpad (m.write out (decimal n)) out (decimal n).length k
        0x30).1 = m.write out (padded k n) := by
  rw [padded_eq_zeros_append hk hn, fmtLpad]
  by_cases hFull : (decimal n).length ≥ k
  · rw [if_pos hFull, Nat.sub_eq_zero_of_le hFull]
    rfl
  · have hZeros :
        (List.replicate (k - (decimal n).length) (0x30 : UInt8)).length = k - (decimal n).length :=
      List.length_replicate
    have hHide : (decimal n).length ≤
          (List.replicate (k - (decimal n).length) (0x30 : UInt8) ++ decimal n).length := by
      rw [List.length_append]
      exact Nat.le_add_left _ _
    have hJoin := ByteMem.write_write (m.write out (decimal n)) out
        (List.replicate (k - (decimal n).length) 0x30)
        (decimal n)
    rw [hZeros] at hJoin
    rw [if_neg hFull, if_pos hOut]
    dsimp only
    rw [ByteMem.read_write_self, ByteMem.write_comm (.inr (by omega)), hJoin,
      ByteMem.write_hide hHide]
    rfl

/- What val / e and val - abs * e are. -/
theorem toInt_div_mul
    {val e : Int32} (hOne : e ≠ -1) (hPos : 0 < e.toInt) :
    (val / e).toInt = val.toInt.tdiv e.toInt ∧
      (val - val / e * e).toInt = val.toInt.tmod e.toInt := by
  have hDiv := Int32.toInt_div_of_ne_right val e hOne
  refine ⟨hDiv, ?_⟩
  have hMod : val - val / e * e = Int32.ofInt (val.toInt.tmod e.toInt) := by
    rw [Int.tmod_def, Int32.ofInt_sub, Int32.ofInt_mul, ← hDiv, Int32.ofInt_toInt,
      Int32.ofInt_toInt, Int32.ofInt_toInt, Int32.mul_comm]
  have hLower := Int.lt_tmod_of_pos val.toInt hPos
  have hUpper := Int.tmod_lt_of_pos val.toInt hPos
  have hBound := e.toInt_lt
  rw [hMod, Int32.toInt_ofInt_of_le (by omega) (by omega)]

/- The divisor, with its sign removed. -/
theorem toInt_abs
    {div : Int32} (hLower : -2 ^ 31 < div.toInt) :
    (if div < 0 then div * -1 else div).toInt = div.toInt.natAbs := by
  have hSign : div < 0 ↔ div.toInt < 0 := Int32.lt_iff_toInt_lt
  by_cases hNeg : div < 0
  · have hMul : div * -1 = Int32.ofInt (-div.toInt) := by
      rw [Int32.ofInt_neg, Int32.ofInt_toInt, Int32.mul_neg, Int32.mul_one]
    rw [hSign] at hNeg
    rw [if_pos (hSign.mpr hNeg), hMul, Int32.toInt_ofInt_of_le (by omega) (by omega)]
    omega
  · rw [if_neg hNeg]
    rw [hSign] at hNeg
    omega

/- The factors of the table. -/
theorem tenmap_spec
    {k : Nat} (hPos : 0 < k) (hk : k < 8) :
    Int32.ofInt (tenmap.getD k 0) ≠ -1 ∧
      (Int32.ofInt (tenmap.getD k 0)).toInt = (10 ^ k : Nat) := by
  have hAll : ∀ k < 8, 0 < k → Int32.ofInt (tenmap.getD k 0) ≠ -1 ∧
          (Int32.ofInt (tenmap.getD k 0)).toInt = (10 ^ k : Nat) := by
    decide
  exact hAll k hk hPos

/- The sign and the digits before the point. -/
theorem sign_append_quotient
    (i : Int) (e : Nat) :
    (if i.tdiv e = 0 ∧ i < 0 then [0x2d] else []) ++ signed (i.tdiv e) =
      (if i < 0 then [0x2d] else []) ++ decimal (i.natAbs / e) := by
  have hAbs : (i.tdiv e).natAbs = i.natAbs / e := by
    rw [Int.natAbs_tdiv, Int.natAbs_natCast]
    rfl
  by_cases hNeg : i < 0
  · have hOpposite : 0 ≤ (-i).tdiv e := Int.tdiv_nonneg (by omega) (Int.natCast_nonneg e)
    rw [Int.neg_tdiv] at hOpposite
    rw [if_pos hNeg, signed, hAbs]
    by_cases hZero : i.tdiv e = 0
    · rw [if_pos ⟨hZero, hNeg⟩, if_neg (by omega)]
    · rw [if_neg (fun h => hZero h.1), if_pos (by omega)]
      rfl
  · have hQuotient : 0 ≤ i.tdiv e := Int.tdiv_nonneg (Int.not_lt.mp hNeg) (Int.natCast_nonneg e)
    rw [if_neg hNeg, if_neg (fun h => hNeg h.2), signed_of_nonneg hQuotient, hAbs]

/- The digits, the point and the padded digits. -/
theorem fmtFraction_spec
    {val : Int32} {k : Nat} (hPos : 0 < k) (hk : k < 8) :
    WritesText (fun m out => fmtFraction m out val k) ((if val.toInt < 0 then [0x2d] else []) ++
        (decimal (val.toInt.natAbs / 10 ^ k) ++ 0x2e :: padded k (val.toInt.natAbs % 10 ^ k))) := by
  rcases tenmap_spec hPos hk with ⟨hOne, hTen⟩
  intro m out
  dsimp only
  rw [fmtFraction]
  generalize Int32.ofInt (tenmap.getD k 0) = e at *
  have hPow : 0 < 10 ^ k := Nat.pow_pos (by decide)
  rcases @toInt_div_mul val _ hOne (by omega) with ⟨hDiv, hMod⟩
  have hLower := Int.lt_tmod_of_pos val.toInt (b := e.toInt) (by omega)
  have hBound := e.toInt_lt
  have hAbs := @toInt_abs (val - val / e * e) (by omega)
  rw [hMod, hTen, Int.natAbs_tmod, Int.natAbs_natCast] at hAbs
  have hZero : val / e = 0 ↔ val.toInt.tdiv (10 ^ k : Nat) = 0 := by
    rw [← hTen, ← hDiv, ← Int32.toInt_inj]
    rfl
  have hSign : val < 0 ↔ val.toInt < 0 := Int32.lt_iff_toInt_lt
  have hRest : val.toInt.natAbs % 10 ^ k < 10 ^ k := Nat.mod_lt _ hPow
  have hInt : ∀ m out, fmtS32Dec m out (val / e) =
        some (putText m out (signed (val / e).toInt), (signed (val / e).toInt).length) :=
    fmtS32Dec_spec (val / e)
  have hFrac : ∀ m out, fmtS32Dec m out
            (if val - val / e * e < 0 then (val - val / e * e) * -1 else val - val / e * e) =
          some
            (putText m out (decimal (val.toInt.natAbs % 10 ^ k)),
              (decimal (val.toInt.natAbs % 10 ^ k)).length) := by
    intro m out
    have hText := fmtS32Dec_spec
        (if val - val / e * e < 0 then (val - val / e * e) * -1 else val - val / e * e) m out
    rw [hAbs, signed_of_nonneg (Int.natCast_nonneg _), Int.natAbs_natCast] at hText
    exact hText
  have hPad := length_padded (k := k) (n := val.toInt.natAbs % 10 ^ k)
  rw [← List.append_assoc, ← sign_append_quotient]
  simp only [← hZero, ← hSign]
  rw [← hTen, ← hDiv]
  set s₀ : List UInt8 := if val / e = 0 ∧ val < 0 then [0x2d] else [] with hs₀
  set s₁ : List UInt8 := signed (val / e).toInt
  have hFirst : (if val / e = 0 ∧ val < 0 then (if out ≠ 0 then m.write out [0x2d] else m, 1)
      else (m, 0)) = (putText m out s₀, s₀.length) := by
    rw [hs₀]
    by_cases hCase : val / e = 0 ∧ val < 0
    · rw [if_pos hCase, if_pos hCase]
      rfl
    · rw [if_neg hCase, if_neg hCase, putText_nil]
      rfl
  rw [hFirst]
  dsimp only
  by_cases hOut : out = 0
  · rw [if_pos hOut, hInt, Option.bind_eq_bind, Option.bind_some, hOut, putText_null, putText_null,
      putText_null, List.length_append, List.length_append, List.length_cons, hPad]
    congr 2
    omega
  · rw [if_neg hOut, hInt, Option.bind_eq_bind, Option.bind_some]
    dsimp only
    rw [hFrac, Option.bind_some]
    dsimp only
    rw [putText_of_ne hOut, putText_of_ne (by omega), putText_of_ne (by omega), putText_of_ne hOut,
      write_lpad hPos hRest (by omega), ByteMem.write_write, ← List.length_append,
      ByteMem.write_write]
    have hPoint : (s₀ ++ s₁).length + 1 = (s₀ ++ s₁ ++ [0x2e]).length := by
      simp only [List.length_append, List.length_cons, List.length_nil, Nat.zero_add]
    have hLen : (s₀ ++ s₁ ++ 0x2e :: padded k (val.toInt.natAbs % 10 ^ k)).length =
          (s₀ ++ s₁ ++ [0x2e]).length + k := by
      simp only [List.length_append, List.length_cons, List.length_nil, hPad]
      omega
    rw [hPoint, ByteMem.write_write, hLen, List.append_assoc _ [0x2e]]
    rfl

----
-- Fixed-Point Numbers
----

/- Zeros are appended, also to the text of zero. -/
theorem fmtS32Dfp_of_pos
    {val : Int32} {fpDigits : Int} (hPos : 0 < fpDigits) :
    WritesText (fun m out => fmtS32Dfp m out val fpDigits)
      (signed val.toInt ++ List.replicate fpDigits.toNat 0x30) := by
  intro m out
  have hNot : ¬ fpDigits ≤ -(tenmap.length : Int) := by omega
  have hText := fmtS32Dec_spec val m out
  dsimp only at hText ⊢
  rw [fmtS32Dfp, if_neg hNot, if_neg (by omega), if_pos hPos, hText, Option.bind_eq_bind,
    Option.bind_some, List.length_append, List.length_replicate]
  dsimp only
  by_cases hOut : out ≠ 0
  · rw [if_pos hOut, putText_of_ne hOut, putText_of_ne hOut, ByteMem.write_write]
  · rw [if_neg hOut, putText, putText, if_neg hOut, if_neg hOut]

/-
  The text is that of `val * 10 ^ fpDigits`, but zero has
  `fpDigits` more zeros.
-/
theorem fmtS32Dfp_spec
    {val : Int32} {fpDigits : Int} (hDigits : -7 ≤ fpDigits) :
    WritesText (fun m out => fmtS32Dfp m out val fpDigits)
      (if val = 0 ∧ 0 < fpDigits then
        List.replicate (fpDigits.toNat + 1) 0x30
      else
        fixedText val.toInt fpDigits) := by
  have hNot : ¬ fpDigits ≤ -(tenmap.length : Int) := by
    change ¬ fpDigits ≤ -8
    omega
  by_cases hPos : 0 < fpDigits
  · have hText := @fmtS32Dfp_of_pos val _ hPos
    by_cases hZero : val = 0
    · have hSigned : signed (0 : Int32).toInt = [0x30] := by
        decide
      rw [hZero, hSigned] at hText
      rw [if_pos ⟨hZero, hPos⟩, hZero, List.replicate_succ]
      exact hText
    · have hInt : val.toInt ≠ 0 := fun h => hZero (Int32.toInt_inj.mp h)
      rw [if_neg (fun h => hZero h.1), fixedText, if_pos hPos.le, signed_mul_pow hInt]
      exact hText
  · rw [if_neg (fun h => hPos h.2), fixedText]
    intro m out
    dsimp only
    rw [fmtS32Dfp, if_neg hNot, if_neg hPos]
    by_cases hNone : fpDigits = 0
    · have hText := fmtS32Dec_spec val m out
      rw [if_pos hNone, if_pos hNone.ge, hNone, Int.toNat_zero, Int.pow_zero, Int.mul_one]
      exact hText
    · have hText := @fmtFraction_spec val (-fpDigits).toNat (by omega) (by omega) m out
      rw [if_neg hNone, if_neg (by omega)]
      exact hText

theorem fmtS32Dfp_spec_sample :
    WritesText (fun m out => fmtS32Dfp m out (-3548) (-2)) [0x2d, 0x33, 0x35, 0x2e, 0x34, 0x38] :=
  fmtS32Dfp_spec (by decide)

/- With one more zero, the text of zero is not exact. -/
theorem not_fixedText_zero :
    ¬ WritesText (fun m out => fmtS32Dfp m out 0 1) (fixedText (0 : Int32).toInt 1) := by
  intro hText
  have hTwo := @fmtS32Dfp_of_pos 0 1 one_pos ⟨fun _ => 0⟩ 0
  have hLen :
      (fixedText (0 : Int32).toInt 1).length =
        (signed (0 : Int32).toInt ++ List.replicate (1 : Int).toNat 0x30).length :=
    congrArg Prod.snd (Option.some.inj ((hText ⟨fun _ => 0⟩ 0).symm.trans hTwo))
  exact absurd hLen (by decide)

end Riot
