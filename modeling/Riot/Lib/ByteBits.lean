import Mathlib.Data.Nat.Bitwise
import Mathlib.Data.UInt
import Mathlib.Tactic.Common

/-
  Bits of bytes as arithmetic.

  Key theorems include:
    * `ByteBits.byte_forall`
    * `ByteBits.toNat_or_of_lt`
    * `ByteBits.merge_eq_iff`
-/

namespace ByteBits

----
-- Masks and Shifts
----

/- A fact about all bytes is a finite check. -/
theorem byte_forall
    {P : UInt8 → Prop} (h : ∀ n : Fin 256, P (UInt8.ofNat n.val)) (x : UInt8) :
    P x := by
  have hx := h ⟨x.toNat, x.toNat_lt⟩
  rwa [UInt8.ofNat_toNat] at hx

variable (x : UInt8)

/- The masks and shifts, checked in one pass. -/
theorem toNat_masks :
    ((x &&& 0x0f).toNat = x.toNat % 16 ∧ (x &&& 0xf0).toNat = x.toNat / 16 * 16 ∧
        (x &&& 0x0c).toNat = x.toNat / 4 % 4 * 4 ∧ (x &&& 0x03).toNat = x.toNat % 4) ∧
      ((x >>> 2).toNat = x.toNat / 4 ∧ (x >>> 4).toNat = x.toNat / 16 ∧
        (x >>> 6).toNat = x.toNat / 64) ∧ (x <<< 2).toNat = x.toNat % 64 * 4 ∧
        (x <<< 4).toNat = x.toNat % 16 * 16 ∧ (x <<< 6).toNat = x.toNat % 4 * 64 := by
  revert x
  exact byte_forall (by decide +kernel)

theorem toNat_and_0f :
    (x &&& 0x0f).toNat = x.toNat % 16 :=
  (toNat_masks x).1.1

theorem toNat_and_f0 :
    (x &&& 0xf0).toNat = x.toNat / 16 * 16 :=
  (toNat_masks x).1.2.1

theorem toNat_and_0c :
    (x &&& 0x0c).toNat = x.toNat / 4 % 4 * 4 :=
  (toNat_masks x).1.2.2.1

theorem toNat_and_03 :
    (x &&& 0x03).toNat = x.toNat % 4 :=
  (toNat_masks x).1.2.2.2

theorem toNat_shiftRight_two :
    (x >>> 2).toNat = x.toNat / 4 :=
  (toNat_masks x).2.1.1

theorem toNat_shiftRight_four :
    (x >>> 4).toNat = x.toNat / 16 :=
  (toNat_masks x).2.1.2.1

theorem toNat_shiftLeft_four :
    (x <<< 4).toNat = x.toNat % 16 * 16 :=
  (toNat_masks x).2.2.2.1

theorem toNat_shiftLeft_six :
    (x <<< 6).toNat = x.toNat % 4 * 64 :=
  (toNat_masks x).2.2.2.2

/- Bits that do not meet are added. -/
theorem toNat_or_of_lt
    {x y : UInt8} {k : Nat} (hx : x.toNat % 2 ^ k = 0) (hy : y.toNat < 2 ^ k) :
    (x ||| y).toNat = x.toNat + y.toNat := by
  have hMul : x.toNat = 2 ^ k * (x.toNat / 2 ^ k) := by
    have hDiv := Nat.div_add_mod x.toNat (2 ^ k)
    omega
  rw [UInt8.toNat_or, hMul, ← Nat.two_pow_add_eq_or_of_lt hy]

/- A byte whose masked bits are those of another. -/
theorem merge_eq_iff
    {m o p a : UInt8} :
    (o &&& ~~~m) ||| (p &&& m) = a ↔ (p ^^^ a) &&& m = 0 ∧ o &&& ~~~m = a &&& ~~~m := by
  simp only [← UInt8.toBitVec_inj, UInt8.toBitVec_or, UInt8.toBitVec_and, UInt8.toBitVec_xor,
    UInt8.toBitVec_not, BitVec.eq_of_getElem_eq_iff, ← forall_and]
  apply forall_congr'
  intro i
  apply forall_congr'
  intro hi
  simp
  grind

end ByteBits
