import Riot.Lib.Digits
import Riot.Sys.Fmt

/-
  The decimal text of numbers is exact.
-/

open Digits

----
-- Texts
----

namespace Riot

/- What is written to a pointer that is not NULL. -/
def putText
    (m : ByteMem) (out : Nat) (s : List UInt8) : ByteMem :=
  if out ≠ 0 then m.write out s else m

/-
  The function writes the text, or nothing to NULL, and
  returns its length.
-/
def WritesText
    (f : ByteMem → Nat → Option (ByteMem × Nat)) (s : List UInt8) : Prop :=
  ∀ m out, f m out = some (putText m out s, s.length)

/- A number with its sign. -/
def signed
    (i : Int) : List UInt8 :=
  if i < 0 then 0x2d :: decimal i.natAbs else decimal i.natAbs

variable {m : ByteMem} {out : Nat} {s t : List UInt8}

@[simp]
theorem putText_null :
    putText m 0 s = m :=
  rfl

theorem putText_of_ne
    (hOut : out ≠ 0) :
    putText m out s = m.write out s :=
  if_pos hOut

----
-- Numbers of 32 Bits
----

/- The loop that counts the digits, at a power of ten. -/
theorem countDigits_spec
    {val tmp : UInt32} {fuel k : Nat} (hVal : val.toNat < 10 ^ 9)
    (hTmp : tmp.toNat = 10 ^ k) (hLen : k ≤ (decimal val.toNat).length)
    (hPos : 0 < k) (hFuel : 9 - k < fuel) :
    countDigits val fuel tmp k = some (decimal val.toNat).length := by
  induction fuel generalizing tmp k with
  | zero => omega
  | succ fuel ih =>
    rw [countDigits]
    have hCompare : tmp ≤ val ↔ 10 ^ k ≤ val.toNat := by
      rw [UInt32.le_iff_toNat_le, hTmp]
    have hCount := length_decimal_le_iff (n := val.toNat) hPos
    by_cases hLess : tmp ≤ val
    · have hPower := hCompare.mp hLess
      have hk : k < 9 := (Nat.pow_lt_pow_iff_right (by decide)).mp (lt_of_le_of_lt hPower hVal)
      have hBound : 10 ^ k ≤ 10 ^ 8 := Nat.pow_le_pow_right (by decide) (by omega)
      have hNext : (tmp * 10).toNat = 10 ^ (k + 1) := by
        have hTen : (10 : UInt32).toNat = 10 := rfl
        rw [UInt32.toNat_mul, hTmp, hTen, Nat.pow_succ]
        omega
      rw [if_pos hLess]
      exact ih hNext (by omega) (by omega) (by omega)
    · have hPower : val.toNat < 10 ^ k := by
        rw [hCompare] at hLess
        omega
      rw [if_neg hLess]
      congr 1
      have hShort := hCount.mpr hPower
      omega

/- The digits come out in their order. -/
theorem writeDigits_spec
    (n : Nat) :
    writeDigits m (out + (decimal n).length) n = m.write out (decimal n) := by
  induction n using Nat.strong_induction_on generalizing m with
  | _ n ih =>
    have hDigit : UInt8.ofNat (n % 10) + 0x30 = digit (n % 10) := by
      rw [← UInt8.toNat_inj, toNat_digit (by omega), UInt8.toNat_add, UInt8.toNat_ofNat']
      change (n % 10 % 2 ^ 8 + 48) % 2 ^ 8 = _
      omega
    rw [writeDigits, hDigit]
    by_cases hSmall : n < 10
    · have hZero : n / 10 = 0 := Nat.div_eq_of_lt hSmall
      rw [if_pos hZero, decimal_of_lt hSmall, Nat.mod_eq_of_lt hSmall, List.length_singleton,
        Nat.add_sub_cancel]
    · have hMore : ¬ n / 10 = 0 := by
        omega
      have hEnd : out + (decimal n).length - 1 = out + (decimal (n / 10)).length := by
        rw [decimal_of_le (Nat.not_lt.mp hSmall), List.length_append, List.length_singleton]
        omega
      rw [if_neg hMore, hEnd, ih (n / 10) (by omega), decimal_of_le (Nat.not_lt.mp hSmall),
        ← ByteMem.write_write, ByteMem.write_comm]
      rw [List.length_singleton]
      omega

theorem u32DecLen_eq
    (val : UInt32) :
    u32DecLen val = some (decimal val.toNat).length := by
  have hVal := val.toNat_lt
  rw [u32DecLen]
  by_cases hBig : val ≥ 1000000000
  · have hLarge : 10 ^ 9 ≤ val.toNat := UInt32.le_iff_toNat_le.mp hBig
    have hTen := length_decimal_le_iff (n := val.toNat) (show 0 < 10 by decide)
    have hNine := length_decimal_le_iff (n := val.toNat) (show 0 < 9 by decide)
    rw [if_pos hBig]
    congr 1
    omega
  · have hSmall : val.toNat < 10 ^ 9 := Nat.not_le.mp (fun h =>
        hBig (UInt32.le_iff_toNat_le.mpr h))
    rw [if_neg hBig]
    exact countDigits_spec hSmall rfl length_decimal_pos Nat.one_pos (by decide)

theorem fmtU32Dec_spec
    (val : UInt32) :
    WritesText (fun m out => fmtU32Dec m out val) (decimal val.toNat) := by
  intro m out
  simp only [fmtU32Dec, u32DecLen_eq, Option.bind_eq_bind, Option.bind_some]
  by_cases hOut : out ≠ 0
  · rw [if_pos hOut, putText_of_ne hOut, writeDigits_spec]
  · rw [if_neg hOut, putText, if_neg hOut]

----
-- Limbs of Numbers of 64 Bits
----

/- The number that the first `k` limbs stand for. -/
def limbsValue
    (d : List Nat) : Nat → Nat
| 0 => 0
| k + 1 => d.getD k 0 * 10 ^ (4 * k) + limbsValue d k

variable {d : List Nat} {k : Nat}

/- A limb of 16 bits. -/
theorem toNat_limb
    (val : UInt64) (i : Nat) (hi : i < 64) :
    ((val >>> UInt64.ofNat i) &&& 0xffff).toNat = val.toNat / 2 ^ i % 2 ^ 16 := by
  have hMask : (0xffff : UInt64).toNat = 2 ^ 16 - 1 := rfl
  have hShift : (UInt64.ofNat i).toNat % 64 = i := by
    rw [UInt64.toNat_ofNat']
    omega
  rw [UInt64.toNat_and, UInt64.toNat_shiftRight, hMask, hShift,
    Nat.and_two_pow_sub_one_eq_mod, Nat.shiftRight_eq_div_pow]

/- The four limbs of 16 bits make up the number. -/
theorem limbs_sum
    (val : UInt64) :
    val.toNat = (val &&& 0xffff).toNat + 2 ^ 16 * ((val >>> 16) &&& 0xffff).toNat +
        2 ^ 32 * ((val >>> 32) &&& 0xffff).toNat +
        2 ^ 48 * ((val >>> 48) &&& 0xffff).toNat := by
  have hVal := val.toNat_lt
  have hZero := toNat_limb val 0 (by decide)
  have hShift : val >>> UInt64.ofNat 0 = val := UInt64.shiftRight_zero
  have h₁ := toNat_limb val 16 (by decide)
  have h₂ := toNat_limb val 32 (by decide)
  have h₃ := toNat_limb val 48 (by decide)
  change ((val >>> 16) &&& 0xffff).toNat = _ at h₁
  change ((val >>> 32) &&& 0xffff).toNat = _ at h₂
  change ((val >>> 48) &&& 0xffff).toNat = _ at h₃
  rw [hShift] at hZero
  rw [hZero, h₁, h₂, h₃]
  omega

/- No sum is cut, and they make up the number. -/
theorem u64Sums_spec
    (val : UInt64) :
    (u64Sums val).s₀ < 2 ^ 32 ∧ (u64Sums val).s₁ < 2 ^ 32 ∧
    (u64Sums val).s₂ < 2 ^ 32 ∧ (u64Sums val).s₃ < 2 ^ 32 ∧
    limbsValue (u64Limbs val) 5 = val.toNat := by
  have hMask : ∀ v : UInt64, (v &&& 0xffff).toNat < 2 ^ 16 := by
    intro v
    rw [UInt64.toNat_and]
    exact lt_of_le_of_lt Nat.and_le_right (by decide)
  have h₀ := hMask val
  have h₁ := hMask (val >>> 16)
  have h₂ := hMask (val >>> 32)
  have h₃ := hMask (val >>> 48)
  rw [limbs_sum val]
  simp only [limbsValue, u64Limbs, List.getD_cons_zero, List.getD_cons_succ, u64Sums]
  generalize (val &&& 0xffff).toNat = d₀ at h₀ ⊢
  generalize ((val >>> 16) &&& 0xffff).toNat = d₁ at h₁ ⊢
  generalize ((val >>> 32) &&& 0xffff).toNat = d₂ at h₂ ⊢
  generalize ((val >>> 48) &&& 0xffff).toNat = d₃ at h₃ ⊢
  generalize hS₀ : 656 * d₃ + 7296 * d₂ + 5536 * d₁ + d₀ = s₀
  have hLt₀ : s₀ < 2 ^ 32 := by
    omega
  rw [Nat.mod_eq_of_lt hLt₀]
  generalize hS₁ : s₀ / 10000 + 7671 * d₃ + 9496 * d₂ + 6 * d₁ = s₁
  have hLt₁ : s₁ < 2 ^ 32 := by
    omega
  rw [Nat.mod_eq_of_lt hLt₁]
  generalize hS₂ : s₁ / 10000 + 4749 * d₃ + 42 * d₂ = s₂
  have hLt₂ : s₂ < 2 ^ 32 := by
    omega
  rw [Nat.mod_eq_of_lt hLt₂]
  generalize hS₃ : s₂ / 10000 + 281 * d₃ = s₃
  have hLt₃ : s₃ < 2 ^ 32 := by
    omega
  rw [Nat.mod_eq_of_lt hLt₃]
  refine ⟨hLt₀, hLt₁, hLt₂, hLt₃, ?_⟩
  omega

theorem u64Limbs_lt
    (val : UInt64) (k : Nat) :
    (u64Limbs val).getD k 0 < 10000 := by
  have hSums := u64Sums_spec val
  match k with
  | 0 => exact Nat.mod_lt _ (by decide)
  | 1 => exact Nat.mod_lt _ (by decide)
  | 2 => exact Nat.mod_lt _ (by decide)
  | 3 => exact Nat.mod_lt _ (by decide)
  | 4 =>
    simp only [limbsValue, u64Limbs, List.getD_cons_zero, List.getD_cons_succ] at hSums ⊢
    have hVal := val.toNat_lt
    omega
  | k + 5 => exact Nat.succ_pos _

theorem limbsValue_lt
    (hLimbs : ∀ i, d.getD i 0 < 10000) :
    limbsValue d k < 10 ^ (4 * k) := by
  induction k with
  | zero => exact Nat.one_pos
  | succ k ih =>
    have hLimb := hLimbs k
    have hPower : 10 ^ (4 * (k + 1)) = 10000 * 10 ^ (4 * k) := by
      rw [Nat.mul_succ, Nat.pow_add, Nat.mul_comm]
    have hLe : (d.getD k 0 + 1) * 10 ^ (4 * k) ≤ 10000 * 10 ^ (4 * k) :=
      Nat.mul_le_mul_right _ hLimb
    rw [Nat.add_mul, Nat.one_mul] at hLe
    rw [limbsValue, hPower]
    omega

/- The upper limb and the rest. -/
theorem limbsValue_div
    (hLimbs : ∀ i, d.getD i 0 < 10000) :
    limbsValue d (k + 1) / 10 ^ (4 * k) = d.getD k 0 ∧
    limbsValue d (k + 1) % 10 ^ (4 * k) = limbsValue d k := by
  have hRest := limbsValue_lt hLimbs (k := k)
  have hPos : 0 < 10 ^ (4 * k) := Nat.pow_pos (by decide)
  rw [limbsValue, Nat.mul_comm, Nat.mul_add_div hPos, Nat.div_eq_of_lt hRest, Nat.mul_add_mod,
    Nat.mod_eq_of_lt hRest]
  exact ⟨rfl, rfl⟩

theorem padded_limbsValue
    (hLimbs : ∀ i, d.getD i 0 < 10000) :
    padded (4 * (k + 1)) (limbsValue d (k + 1)) =
      padded 4 (d.getD k 0) ++ padded (4 * k) (limbsValue d k) := by
  rcases limbsValue_div hLimbs (k := k) with ⟨hUpper, hLower⟩
  have hCount : 4 * (k + 1) = 4 + 4 * k := by
    omega
  rw [hCount, padded_add, hUpper, ← hLower, padded_mod]

/- Above the first limb all are zero. -/
theorem firstLimb_spec :
    firstLimb d k ≤ k ∧ limbsValue d (k + 1) = limbsValue d (firstLimb d k + 1) ∧
    (firstLimb d k = 0 ∨ 0 < d.getD (firstLimb d k) 0) := by
  induction k with
  | zero => exact ⟨le_rfl, rfl, .inl rfl⟩
  | succ k ih =>
    rw [firstLimb]
    by_cases hZero : d.getD (k + 1) 0 = 0
    · rw [if_pos hZero, limbsValue, hZero, Nat.zero_mul, Nat.zero_add]
      exact ⟨ih.1.trans (Nat.le_succ k), ih.2⟩
    · rw [if_neg hZero]
      exact ⟨le_rfl, rfl, .inr (Nat.pos_of_ne_zero hZero)⟩

----
-- Numbers of 64 Bits
----

/- One limb over zeros, padded to four digits. -/
theorem writeLimb_spec
    {limb : UInt32} {rest : Nat} (hLimb : limb.toNat < 10000) :
    (m.write out (List.replicate (4 + rest) (digit 0))).write
        (out + (4 - (decimal limb.toNat).length))
        (decimal limb.toNat) =
      (m.write out (padded 4 limb.toNat)).write (out + 4) (List.replicate rest (digit 0)) := by
  have hShort : (decimal limb.toNat).length ≤ 4 := (length_decimal_le_iff (by decide)).mpr hLimb
  have hZeros : List.replicate (4 + rest) (digit 0) =
        List.replicate (4 - (decimal limb.toNat).length)
            (digit 0) ++ (List.replicate (decimal limb.toNat).length (digit 0) ++
            List.replicate rest (digit 0)) := by
    rw [List.replicate_append_replicate, List.replicate_append_replicate]
    congr 1
    omega
  have hPre : (List.replicate (4 - (decimal limb.toNat).length) (digit 0)).length =
      4 - (decimal limb.toNat).length :=
    List.length_replicate
  have hEnd : out + 4 = out + (padded 4 limb.toNat).length := by
    rw [length_padded]
  rw [hZeros]
  nth_rewrite 2 [← hPre]
  rw [ByteMem.write_over List.length_replicate, hEnd, ByteMem.write_write,
    padded_eq_zeros_append (by decide) hLimb, List.append_assoc]

/-
  The limbs over zeros, by induction on their number.
-/
theorem writeLimbs_spec
    (hOut : out ≠ 0) (hLimbs : ∀ i, d.getD i 0 < 10000) (first : Nat) :
    writeLimbs d (m.write out (List.replicate (4 * first) (digit 0)))
        out first = some (m.write out (padded (4 * first) (limbsValue d first))) := by
  induction first generalizing m out with
  | zero => rfl
  | succ first ih =>
    have hLimb := hLimbs first
    have hNat : (UInt32.ofNat (d.getD first 0)).toNat = d.getD first 0 := by
      rw [UInt32.toNat_ofNat']
      omega
    have hCount : 4 * (first + 1) = 4 + 4 * first := by
      omega
    have hNext : out + 4 ≠ 0 := by
      omega
    have hEnd : out + 4 = out + (padded 4 (d.getD first 0)).length := by
      rw [length_padded]
    -- whatever the limb, its digits stand before zeros
    have hResult : writeLimbs d
            ((m.write out (padded 4 (d.getD first 0))).write (out + 4)
              (List.replicate (4 * first) (digit 0)))
            (out + 4) first =
          some (m.write out (padded (4 * (first + 1)) (limbsValue d (first + 1)))) := by
      rw [ih hNext, padded_limbsValue hLimbs]
      nth_rewrite 1 [hEnd]
      rw [ByteMem.write_write]
    rw [hCount]
    rw [hCount] at hResult
    simp only [writeLimbs]
    by_cases hZero : UInt32.ofNat (d.getD first 0) ≠ 0
    · have hAt : out + (4 - (decimal (UInt32.ofNat (d.getD first 0)).toNat).length) ≠ 0 := by
        omega
      have hLess : (UInt32.ofNat (d.getD first 0)).toNat < 10000 := by
        rw [hNat]
        exact hLimb
      have hNull := fmtU32Dec_spec (UInt32.ofNat (d.getD first 0))
          (m.write out (List.replicate (4 + 4 * first) (digit 0))) 0
      have hWrite := fmtU32Dec_spec (UInt32.ofNat (d.getD first 0))
          (m.write out (List.replicate (4 + 4 * first) (digit 0)))
          (out + (4 - (decimal (UInt32.ofNat (d.getD first 0)).toNat).length))
      rw [putText_of_ne hAt, writeLimb_spec hLess, hNat] at hWrite
      rw [hNat] at hNull
      simp only [if_pos hZero, hNull, hWrite, Option.bind_eq_bind, Option.bind_some, hResult]
    · have hEq : d.getD first 0 = 0 := by
        rw [← hNat, not_not.mp hZero]
        rfl
      rw [if_neg hZero, ← hResult, hEq, padded_zero]
      congr 1
      have hFour : out + 4 = out + (List.replicate 4 (digit 0)).length := by
        rw [List.length_replicate]
      rw [hFour, ByteMem.write_write, List.replicate_append_replicate]

theorem fmtU64Dec_spec
    (val : UInt64) :
    WritesText (fun m out => fmtU64Dec m out val) (decimal val.toNat) := by
  intro m out
  have hLimbs := u64Limbs_lt val
  rcases u64Sums_spec val with ⟨_, _, _, _, hValue⟩
  simp only [fmtU64Dec]
  generalize u64Limbs val = d at hLimbs hValue
  rcases firstLimb_spec (d := d) (k := 4) with ⟨_, hFirst, hPos⟩
  rw [hValue] at hFirst
  generalize firstLimb d 4 = first at hFirst hPos
  have hLimb := hLimbs first
  have hNat : (UInt32.ofNat (d.getD first 0)).toNat = d.getD first 0 := by
    rw [UInt32.toNat_ofNat']
    omega
  have hDecimal :
      decimal val.toNat = decimal (d.getD first 0) ++ padded (4 * first) (limbsValue d first) := by
    rcases limbsValue_div hLimbs (k := first) with ⟨hUpper, hLower⟩
    rw [← hFirst] at hUpper hLower
    rw [← hUpper, ← hLower, padded_mod]
    rcases hPos with rfl | hPos
    · simp [padded]
    · exact decimal_eq_append_padded (by rw [hUpper]; exact hPos)
  have hLength : (decimal val.toNat).length = (decimal (d.getD first 0)).length + first * 4 := by
    rw [hDecimal, List.length_append, length_padded, Nat.mul_comm]
  have hHead := fmtU32Dec_spec (UInt32.ofNat (d.getD first 0)) m out
  rw [hNat] at hHead
  dsimp only at hHead
  rw [hHead, Option.bind_eq_bind, Option.bind_some]
  dsimp only
  rw [hLength]
  by_cases hOut : out ≠ 0
  · have hAfter : out + (decimal (d.getD first 0)).length ≠ 0 := by
      omega
    have hZeros : (decimal (d.getD first 0)).length + first * 4 -
            (decimal (d.getD first 0)).length = 4 * first := by
      omega
    have hZero : (0x30 : UInt8) = digit 0 := rfl
    rw [if_pos hOut, putText_of_ne hOut, hZeros, hZero, writeLimbs_spec hAfter hLimbs,
      Option.bind_eq_bind, Option.bind_some, ByteMem.write_write, ← hDecimal, putText_of_ne hOut]
  · rw [if_neg hOut, putText, if_neg hOut, putText, if_neg hOut]

----
-- Signed Numbers
----

variable {dec : ByteMem → Nat → Option (ByteMem × Nat)}

theorem fmtSigned_spec
    (negative : Bool) (hDec : WritesText dec s) :
    WritesText (fmtSigned negative dec) (if negative then 0x2d :: s else s) := by
  intro m out
  cases negative with
  | false => exact hDec m out
  | true =>
    simp only [fmtSigned, if_true]
    by_cases hOut : out ≠ 0
    · have hNext : out + 1 ≠ 0 := Nat.succ_ne_zero out
      have hParts : (m.write out [0x2d]).write (out + 1) s = m.write out (0x2d :: s) :=
        ByteMem.write_write m out [0x2d] s
      rw [if_pos hOut]
      dsimp only
      rw [hDec, Option.bind_eq_bind, Option.bind_some,
        putText_of_ne hNext, putText_of_ne hOut, hParts]
      rfl
    · rw [if_neg hOut]
      dsimp only
      rw [hDec, Option.bind_eq_bind, Option.bind_some, putText, putText, if_neg hOut, if_neg hOut]
      rfl

/- The absolute value, in 32 bits. -/
theorem toNat_abs32
    (val : Int32) :
    (if val < 0 then -val.toUInt32 else val.toUInt32).toNat = val.toInt.natAbs := by
  have hInt : val.toInt = if 2 * val.toUInt32.toNat < 2 ^ 32
        then (val.toUInt32.toNat : Int)
        else (val.toUInt32.toNat : Int) - (2 ^ 32 : Nat) :=
    BitVec.toInt_eq_toNat_cond val.toBitVec
  have hLt := val.toUInt32.toNat_lt
  have hSign : val < 0 ↔ val.toInt < 0 := Int32.lt_iff_toInt_lt
  by_cases hNeg : val < 0
  · have hSize : UInt32.size = 2 ^ 32 := rfl
    rw [if_pos hNeg, UInt32.toNat_neg, hSize]
    rw [hSign] at hNeg
    split at hInt <;> omega
  · rw [if_neg hNeg]
    rw [hSign] at hNeg
    split at hInt <;> omega

/- The absolute value, in 64 bits. -/
theorem toNat_abs64
    (val : Int64) :
    (if val < 0 then -val.toUInt64 else val.toUInt64).toNat = val.toInt.natAbs := by
  have hInt : val.toInt = if 2 * val.toUInt64.toNat < 2 ^ 64
        then (val.toUInt64.toNat : Int)
        else (val.toUInt64.toNat : Int) - (2 ^ 64 : Nat) :=
    BitVec.toInt_eq_toNat_cond val.toBitVec
  have hLt := val.toUInt64.toNat_lt
  have hSign : val < 0 ↔ val.toInt < 0 := Int64.lt_iff_toInt_lt
  by_cases hNeg : val < 0
  · have hSize : UInt64.size = 2 ^ 64 := rfl
    rw [if_pos hNeg, UInt64.toNat_neg, hSize]
    rw [hSign] at hNeg
    split at hInt <;> omega
  · rw [if_neg hNeg]
    rw [hSign] at hNeg
    split at hInt <;> omega

theorem fmtS32Dec_spec
    (val : Int32) :
    WritesText (fun m out => fmtS32Dec m out val) (signed val.toInt) := by
  have hText :=
    fmtSigned_spec (val < 0) (fmtU32Dec_spec (if val < 0 then -val.toUInt32 else val.toUInt32))
  rw [toNat_abs32] at hText
  have hSign : val < 0 ↔ val.toInt < 0 := Int32.lt_iff_toInt_lt
  have hSigned : signed val.toInt = if decide (val < 0) = true
        then 0x2d :: decimal val.toInt.natAbs
        else decimal val.toInt.natAbs := by
    simp only [signed, decide_eq_true_eq, hSign]
  intro m out
  rw [hSigned]
  exact hText m out

theorem fmtS64Dec_spec
    (val : Int64) :
    WritesText (fun m out => fmtS64Dec m out val) (signed val.toInt) := by
  have hText :=
    fmtSigned_spec (val < 0) (fmtU64Dec_spec (if val < 0 then -val.toUInt64 else val.toUInt64))
  rw [toNat_abs64] at hText
  have hSign : val < 0 ↔ val.toInt < 0 := Int64.lt_iff_toInt_lt
  have hSigned : signed val.toInt = if decide (val < 0) = true
        then 0x2d :: decimal val.toInt.natAbs
        else decimal val.toInt.natAbs := by
    simp only [signed, decide_eq_true_eq, hSign]
  intro m out
  rw [hSigned]
  exact hText m out

----
-- Reading Numbers
----

/- Scanning digits goes on with the value so far. -/
theorem scnLoop_digits
    {s : List UInt8} (hDigits : ∀ c ∈ s, ∃ d < 10, c = digit d) (v : Nat) :
    scnLoop (UInt32.ofNat v) s s.length =
      some (UInt32.ofNat (s.foldl (fun v c => 10 * v + (c.toNat - 48)) v)) := by
  induction s generalizing v with
  | nil => rfl
  | cons c s ih =>
    rcases hDigits c List.mem_cons_self with ⟨d, hd, rfl⟩
    have hNat := toNat_digit hd
    have hIs : fmtIsDigit (digit d) = true := by
      simp only [fmtIsDigit, decide_eq_true_eq, ge_iff_le, UInt8.le_iff_toNat_le, hNat,
        Bool.decide_and, Bool.and_eq_true]
      exact ⟨Nat.le_add_right 48 d, show 48 + d ≤ 57 by omega⟩
    have hStep : UInt32.ofNat v * 10 + (digit d - 0x30).toUInt32 =
          UInt32.ofNat (10 * v + ((digit d).toNat - 48)) := by
      have hSub : (digit d - 0x30).toNat = d := by
        rw [UInt8.toNat_sub, hNat]
        change (2 ^ 8 - 48 + (48 + d)) % 2 ^ 8 = d
        omega
      have hTen : (10 : UInt32).toNat = 10 := rfl
      rw [← UInt32.toNat_inj, UInt32.toNat_add, UInt32.toNat_mul, UInt8.toNat_toUInt32, hSub, hTen,
        hNat, UInt32.toNat_ofNat', UInt32.toNat_ofNat']
      omega
    rw [List.length_cons, scnLoop, if_pos hIs, hStep,
      ih (fun c hc => hDigits c (List.mem_cons_of_mem _ hc)), List.foldl_cons]

theorem scnU32Dec_decimal
    (val : UInt32) :
    scnU32Dec (decimal val.toNat) (decimal val.toNat).length = some val := by
  have hScan := scnLoop_digits (s := decimal val.toNat) (fun c hc => mem_decimal hc) 0
  have hValue := decimalValue_decimal (n := val.toNat)
  rw [decimalValue] at hValue
  rw [hValue, UInt32.ofNat_toNat] at hScan
  exact hScan

/-
  Decimal text is exact, no sum is cut to 32 bits, and what is
  written can be read back.
-/
theorem fmtDec_exact :
    (∀ val, WritesText (fun m out => fmtU64Dec m out val) (decimal val.toNat)) ∧ (∀ val,
      (u64Sums val).s₀ < 2 ^ 32 ∧ (u64Sums val).s₁ < 2 ^ 32 ∧
      (u64Sums val).s₂ < 2 ^ 32 ∧ (u64Sums val).s₃ < 2 ^ 32) ∧
    (∀ val, WritesText (fun m out => fmtU32Dec m out val) (decimal val.toNat)) ∧
    (∀ val, WritesText (fun m out => fmtS32Dec m out val) (signed val.toInt)) ∧
    (∀ val, WritesText (fun m out => fmtS64Dec m out val) (signed val.toInt)) ∧
    (∀ m out val, out ≠ 0 →
      ∃ m' n, fmtU32Dec m out val = some (m', n) ∧ scnU32Dec (m'.read out n) n = some val) := by
  refine ⟨fmtU64Dec_spec, ?_, fmtU32Dec_spec, fmtS32Dec_spec, fmtS64Dec_spec, ?_⟩
  · intro val
    rcases u64Sums_spec val with ⟨h₀, h₁, h₂, h₃, _⟩
    exact ⟨h₀, h₁, h₂, h₃⟩
  · intro m out val hOut
    refine ⟨_, _, fmtU32Dec_spec val m out, ?_⟩
    rw [putText_of_ne hOut, ByteMem.read_write_self]
    exact scnU32Dec_decimal val

example :
    decimal 18446744073709551615 = [0x31, 0x38, 0x34, 0x34, 0x36, 0x37, 0x34, 0x34, 0x30,
        0x37, 0x33, 0x37, 0x30, 0x39, 0x35, 0x35, 0x31, 0x36, 0x31, 0x35] := by
  decide

end Riot
