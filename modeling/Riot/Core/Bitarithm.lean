import Mathlib.Data.List.Basic
import Mathlib.Data.Nat.Find
import Mathlib.Tactic.Common

/-
  Bit searches of `bitarithm.h` on 32-bit words.
-/

----
-- Operations
----

namespace Riot

/- Builds of `bitarithm_lsb`. -/
inductive LsbBuild where
  | builtin
  | lookup
  | loop
deriving DecidableEq, Repr

/-
  Number of leading zero bits; the compiler builtin is
  undefined at zero.
-/
def builtinClz
    (v : BitVec 32) : Option Nat :=
  if v = 0#32 then
    none
  else
    some (31 - v.toNat.log2)

/-
  One plus the index of the lowest set bit, and zero when no
  bit is set.
-/
def builtinFfs
    (v : BitVec 32) : Nat :=
  match (List.range 32).find? (fun i => v.getLsbD i) with
  | some i => i + 1
  | none => 0

/- Highest set bit, in the builds with a CLZ instruction. -/
def bitarithmMsb
    (v : BitVec 32) : Option Nat :=
  (builtinClz v).map (fun zeros => 8 * 4 - zeros - 1)

/- Bit positions indexed by de Bruijn products. -/
def multiplyDeBruijnBitPosition : List Nat :=
  [0, 1, 28, 2, 29, 14, 24, 3, 30, 22, 20, 15, 25, 17, 4, 8,
    31, 27, 13, 23, 21, 19, 16, 7, 26, 12, 18, 6, 11, 5, 10, 9]

/-
  The shifting loop of `bitarithm_lsb`.  Every turn drops one
  bit of the word, so a word without a set bit in the first
  32 turns is zero and the loop does not end.
-/
def bitarithmLsbLoop :
    Nat → BitVec 32 → Nat → Option Nat
| 0, _, _ => none
| turns + 1, v, r =>
  if v &&& 1#32 = 0#32 then
    bitarithmLsbLoop turns (v >>> 1) (r + 1)
  else
    some r

/- Lowest set bit. -/
def bitarithmLsb
    (build : LsbBuild) (v : BitVec 32) : Option Nat :=
  match build with
  | .builtin => some ((BitVec.ofNat 32 (builtinFfs v) - 1#32).toNat)
  | .lookup => multiplyDeBruijnBitPosition[ (((v &&& -v) * 0x077CB531#32) >>> 27).toNat]?
  | .loop => bitarithmLsbLoop 32 v 0

----
-- Lowest and Highest Set Bits
----

variable {w : Nat}

/- `i` is the index of the lowest set bit. -/
def IsLowestBit
    (v : BitVec w) (i : Nat) : Prop :=
  v.getLsbD i = true ∧ ∀ j < i, v.getLsbD j = false

/- A nonzero word has a lowest set bit. -/
theorem exists_isLowestBit
    {v : BitVec w} (hNe : v ≠ 0#w) :
    ∃ i < w, IsLowestBit v i := by
  have hSome : ∃ i, v.getLsbD i = true := by
    by_contra hNone
    apply hNe
    apply BitVec.eq_of_getLsbD_eq
    intro i _
    rw [BitVec.getLsbD_zero]
    by_contra hBit
    exact hNone ⟨i, by simpa using hBit⟩
  let i := Nat.find hSome
  have hBit : v.getLsbD i = true := Nat.find_spec hSome
  refine ⟨i, BitVec.lt_of_getLsbD hBit, hBit, ?_⟩
  intro j hj
  simpa using Nat.find_min hSome hj

/- The lowest set bit stands alone in `v & -v`. -/
theorem and_neg_eq_twoPow
    {v : BitVec w} {i : Nat} (hLow : IsLowestBit v i) :
    v &&& -v = BitVec.twoPow w i := by
  have hi : i < w := BitVec.lt_of_getLsbD hLow.1
  apply BitVec.eq_of_getLsbD_eq
  intro j hj
  rw [BitVec.getLsbD_and, BitVec.getLsbD_neg, BitVec.getLsbD_twoPow]
  rcases Nat.lt_trichotomy j i with hLt | rfl | hGt
  · simp [hLow.2 j hLt, Nat.ne_of_gt hLt]
  · have hNone : ¬ ∃ k, k < j ∧ v.getLsbD k = true := by
      rintro ⟨k, hk, hBit⟩
      rw [hLow.2 k hk] at hBit
      cases hBit
    simp [hLow.1, hi, hNone]
  · have hSome : ∃ k, k < j ∧ v.getLsbD k = true := ⟨i, hGt, hLow.1⟩
    simp [hj, hSome, Nat.ne_of_lt hGt]

/- The de Bruijn table inverts the single-bit words. -/
theorem lookup_twoPow :
    ∀ i : Fin 32, multiplyDeBruijnBitPosition[
        ((BitVec.twoPow 32 i * 0x077CB531#32) >>> 27).toNat]? = some i.val := by
  decide

/- The loops test bit zero of the word. -/
theorem and_one_eq_zero_iff
    {v : BitVec 32} :
    v &&& 1#32 = 0#32 ↔ v.getLsbD 0 = false := by
  constructor
  · intro hZero
    have hBit := congrArg (fun w => BitVec.getLsbD w 0) hZero
    simpa using hBit
  · intro hZero
    apply BitVec.eq_of_getLsbD_eq
    intro j _
    rw [BitVec.getLsbD_and]
    cases j with
    | zero =>
      rw [hZero]
      rfl
    | succ j => simp [BitVec.getLsbD_one]

/- Shifting moves the lowest set bit down. -/
theorem IsLowestBit.shift
    {v : BitVec w} {i : Nat} (hLow : IsLowestBit v (i + 1)) :
    IsLowestBit (v >>> 1) i := by
  constructor
  · rw [BitVec.getLsbD_ushiftRight, Nat.add_comm]
    exact hLow.1
  · intro j hj
    rw [BitVec.getLsbD_ushiftRight, Nat.add_comm]
    exact hLow.2 (j + 1) (by omega)

/- The loop shifts the lowest set bit down to bit zero. -/
theorem bitarithmLsbLoop_eq
    {turns i r : Nat} {v : BitVec 32} (hLow : IsLowestBit v i)
    (hTurns : i < turns) :
    bitarithmLsbLoop turns v r = some (r + i) := by
  induction turns generalizing v i r with
  | zero => omega
  | succ turns ih =>
    simp only [bitarithmLsbLoop]
    cases i with
    | zero =>
      rw [if_neg (by rw [and_one_eq_zero_iff, hLow.1]; decide)]
      rfl
    | succ i =>
      rw [if_pos (and_one_eq_zero_iff.mpr (hLow.2 0 (by omega))), ih hLow.shift (by omega)]
      congr 1
      omega

/- Every build finds the lowest set bit. -/
theorem bitarithmLsb_spec
    (build : LsbBuild) {v : BitVec 32} {i : Nat} (hLow : IsLowestBit v i) :
    bitarithmLsb build v = some i := by
  have hi : i < 32 := BitVec.lt_of_getLsbD hLow.1
  cases build with
  | builtin =>
    have hFind : (List.range 32).find? (fun i => v.getLsbD i) = some i := by
      rw [List.find?_range_eq_some]
      refine ⟨hLow.1, by simpa using hi, ?_⟩
      intro j hj
      simp [hLow.2 j hj]
    simp only [bitarithmLsb, builtinFfs, hFind]
    congr 1
    rw [BitVec.toNat_sub, BitVec.toNat_ofNat]
    simp
    omega
  | lookup =>
    simp only [bitarithmLsb, and_neg_eq_twoPow hLow]
    exact lookup_twoPow ⟨i, hi⟩
  | loop =>
    simp only [bitarithmLsb]
    rw [bitarithmLsbLoop_eq hLow hi]
    simp

/- The CLZ build finds the highest set bit. -/
theorem bitarithmMsb_spec
    {v : BitVec 32} (hNe : v ≠ 0#32) :
    ∃ i < 32, bitarithmMsb v = some i ∧ v.getLsbD i = true ∧ ∀ j, i < j → v.getLsbD j = false := by
  have hNat : v.toNat ≠ 0 := by
    intro hZero
    exact hNe (BitVec.eq_of_toNat_eq (by simpa using hZero))
  have hLog : v.toNat.log2 < 32 := (Nat.log2_lt hNat).mpr v.isLt
  refine ⟨v.toNat.log2, hLog, ?_, ?_, ?_⟩
  · simp only [bitarithmMsb, builtinClz, hNe, if_false, Option.map_some]
    congr 1
    omega
  · exact Nat.testBit_log2 hNat
  · intro j hj
    exact Nat.testBit_lt_two_pow ((Nat.log2_lt hNat).mp hj)

end Riot
