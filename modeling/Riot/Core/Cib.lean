import Riot.Lib.Ring

/-
  The circular integer buffer of `cib.h`.
-/

----
-- Operations
----

namespace Riot

/- Access counters and index mask, as 32-bit words. -/
structure Cib where
  readCount : BitVec 32
  writeCount : BitVec 32
  mask : BitVec 32
deriving DecidableEq, Repr

/-
  Start an empty buffer; the assertion admits zero and the
  powers of two.
-/
def cibInit
    (size : BitVec 32) : Option Cib :=
  if size &&& (size - 1#32) = 0#32 then
    some ⟨0#32, 0#32, size - 1#32⟩
  else
    none

/- Number of puts not yet matched by a get. -/
def cibAvail
    (cib : Cib) : BitVec 32 :=
  cib.writeCount - cib.readCount

/- The signed comparison that detects a full buffer. -/
def cibFull
    (cib : Cib) : Bool :=
  cib.mask.slt (cibAvail cib)

/- Index of the next item, without checking for one. -/
def cibGetUnsafe
    (cib : Cib) : Cib × Nat :=
  ({ cib with readCount := cib.readCount + 1#32 }, (cib.readCount &&& cib.mask).toNat)

/- Index of the next item, or `none` for the result -1. -/
def cibGet
    (cib : Cib) : Cib × Option Nat :=
  if cibAvail cib = 0#32 then
    (cib, none)
  else
    ((cibGetUnsafe cib).1, some (cibGetUnsafe cib).2)

/- Index to put to, without checking for space. -/
def cibPutUnsafe
    (cib : Cib) : Cib × Nat :=
  ({ cib with writeCount := cib.writeCount + 1#32 }, (cib.writeCount &&& cib.mask).toNat)

/-
  Index to put to, or `none` for the result -1.  The compare
  is signed because the mask of an empty buffer is -1.
-/
def cibPut
    (cib : Cib) : Cib × Option Nat :=
  if (cibAvail cib).sle cib.mask then
    ((cibPutUnsafe cib).1, some (cibPutUnsafe cib).2)
  else
    (cib, none)

----
-- Items
----

variable {α : Type} {k : Nat} {cib : Cib} {array : Nat → α}

/- The items between the counters, oldest first. -/
def cibItems
    (cib : Cib) (array : Nat → α) : List α :=
  ringItems (cib.mask.toNat + 1) array cib.readCount.toNat (cibAvail cib).toNat

/-
  A buffer of `2 ^ k` cells that has at most as many items;
  `k` is bounded because the size is a positive `int`.
-/
structure CibHolds
    (k : Nat)
    (cib : Cib) : Prop where
  small : k ≤ 30
  mask : cib.mask.toNat + 1 = 2 ^ k
  avail : (cibAvail cib).toNat ≤ 2 ^ k

/- Zero counters and the mask of a power of two. -/
theorem cibHolds_of_pow
    (hSmall : k ≤ 30) :
    CibHolds k ⟨0#32, 0#32, BitVec.ofNat 32 (2 ^ k) - 1#32⟩ ∧
      cibAvail ⟨0#32, 0#32, BitVec.ofNat 32 (2 ^ k) - 1#32⟩ = 0#32 := by
  have hPow : 2 ^ k ≤ 2 ^ 30 := Nat.pow_le_pow_right (by decide) hSmall
  have hPos : 0 < 2 ^ k := Nat.two_pow_pos k
  refine ⟨⟨hSmall, ?_, ?_⟩, by simp [cibAvail]⟩
  · simp only [BitVec.toNat_sub, BitVec.toNat_ofNat]
    omega
  · simp [cibAvail]

/- A buffer that was initialised with a power of two. -/
theorem cibHolds_of_cibInit
    (hSmall : k ≤ 30) (hInit : cibInit (BitVec.ofNat 32 (2 ^ k)) = some cib) :
    CibHolds k cib ∧ cibAvail cib = 0#32 := by
  unfold cibInit at hInit
  split at hInit
  · cases hInit
    exact cibHolds_of_pow hSmall
  · cases hInit

namespace CibHolds

section

variable (hHolds : CibHolds k cib)

include hHolds

/- The size fits an `int`. -/
theorem pow_le :
    2 ^ k ≤ 2 ^ 30 :=
  Nat.pow_le_pow_right (by decide) hHolds.small

/- Masking a counter is reduction modulo the size. -/
theorem masked
    (x : BitVec 32) :
    (x &&& cib.mask).toNat = x.toNat % 2 ^ k := by
  have hMask : cib.mask.toNat = 2 ^ k - 1 := by
    have hSize := hHolds.mask
    omega
  rw [BitVec.toNat_and, hMask, Nat.and_two_pow_sub_one_eq_mod]

/- Reduction modulo the size forgets the word size. -/
theorem mod_word
    (a : Nat) :
    a % 2 ^ 32 ≡ a [MOD 2 ^ k] := by
  have hDvd : 2 ^ k ∣ 2 ^ 32 := Nat.pow_dvd_pow 2 (by have := hHolds.small; omega)
  exact Nat.mod_mod_of_dvd a hDvd

/- The items, in terms of the size. -/
theorem items_eq :
    cibItems cib array = ringItems (2 ^ k) array cib.readCount.toNat (cibAvail cib).toNat := by
  unfold cibItems
  rw [hHolds.mask]

/- The put index is the cell after the last item. -/
theorem put_index :
    (cib.writeCount &&& cib.mask).toNat = (cib.readCount.toNat + (cibAvail cib).toNat) % 2 ^ k := by
  have hWrite : cib.writeCount = cib.readCount + cibAvail cib := by
    unfold cibAvail
    bv_omega
  rw [hHolds.masked, hWrite, BitVec.toNat_add]
  exact hHolds.mod_word _

/- Storing an item without a check, when there is space. -/
theorem putUnsafe
    (hSpace : (cibAvail cib).toNat < 2 ^ k) :
    CibHolds k (cibPutUnsafe cib).1 ∧
      (cibAvail (cibPutUnsafe cib).1).toNat = (cibAvail cib).toNat + 1 ∧
      ∀ (array : Nat → α) (x : α), cibItems (cibPutUnsafe cib).1
            (Function.update array (cibPutUnsafe cib).2 x) = cibItems cib array ++ [x] := by
  have hPow := hHolds.pow_le
  have hAvail : (cibAvail (cibPutUnsafe cib).1).toNat = (cibAvail cib).toNat + 1 := by
    have hNext : cibAvail (cibPutUnsafe cib).1 = cibAvail cib + 1#32 := by
      unfold cibAvail cibPutUnsafe
      dsimp only
      bv_omega
    rw [hNext, BitVec.toNat_add, BitVec.toNat_ofNat]
    omega
  have hHolds' : CibHolds k (cibPutUnsafe cib).1 := by
    refine ⟨hHolds.small, hHolds.mask, ?_⟩
    rw [hAvail]
    omega
  refine ⟨hHolds', hAvail, ?_⟩
  intro array x
  rw [hHolds'.items_eq, hHolds.items_eq, hAvail]
  have hIndex := hHolds.put_index
  unfold cibPutUnsafe
  dsimp only
  rw [hIndex]
  exact ringItems_push hSpace

/- The signed comparisons, as comparisons of sizes. -/
theorem signed :
    ((cibAvail cib).sle cib.mask = decide ((cibAvail cib).toNat < 2 ^ k)) ∧
      cibFull cib = decide ((cibAvail cib).toNat = 2 ^ k) := by
  have hPow := hHolds.pow_le
  have hMask := hHolds.mask
  have hAvail := hHolds.avail
  have hLeft : (cibAvail cib).toInt = ((cibAvail cib).toNat : Int) := by
    apply BitVec.toInt_eq_toNat_of_lt
    omega
  have hRight : cib.mask.toInt = (cib.mask.toNat : Int) := by
    apply BitVec.toInt_eq_toNat_of_lt
    omega
  constructor
  · rw [BitVec.sle_eq_decide, hLeft, hRight]
    apply decide_eq_decide.mpr
    omega
  · unfold cibFull
    rw [BitVec.slt_eq_decide, hLeft, hRight]
    apply decide_eq_decide.mpr
    omega

/- A put into a buffer with space. -/
theorem cibPut_eq
    (hSpace : (cibAvail cib).toNat < 2 ^ k) :
    cibPut cib = ((cibPutUnsafe cib).1, some (cibPutUnsafe cib).2) := by
  unfold cibPut
  rw [hHolds.signed.1, decide_eq_true hSpace]
  rfl

/- A put into a full buffer. -/
theorem cibPut_full
    (hFull : (cibAvail cib).toNat = 2 ^ k) :
    cibPut cib = (cib, none) := by
  unfold cibPut
  rw [hHolds.signed.1, decide_eq_false (by omega)]
  rfl

end

/- A get from an empty buffer. -/
theorem cibGet_empty
    (hEmpty : (cibAvail cib).toNat = 0) :
    cibGet cib = (cib, none) := by
  have hZero : cibAvail cib = 0#32 := BitVec.eq_of_toNat_eq hEmpty
  unfold cibGet
  rw [if_pos hZero]

/- A get from a buffer that has an item. -/
theorem cibGet_eq
    (hHolds : CibHolds k cib) (hSome : (cibAvail cib).toNat ≠ 0) :
    cibGet cib = ((cibGetUnsafe cib).1, some (cibGetUnsafe cib).2) ∧
      CibHolds k (cibGetUnsafe cib).1 ∧
      (cibAvail (cibGetUnsafe cib).1).toNat + 1 = (cibAvail cib).toNat ∧ ∀ array : Nat → α,
        cibItems cib array = array (cibGetUnsafe cib).2 :: cibItems (cibGetUnsafe cib).1 array := by
  have hNe : cibAvail cib ≠ 0#32 := by
    intro hZero
    rw [hZero] at hSome
    exact hSome rfl
  have hAvail : (cibAvail (cibGetUnsafe cib).1).toNat + 1 = (cibAvail cib).toNat := by
    have hNext : cibAvail (cibGetUnsafe cib).1 = cibAvail cib - 1#32 := by
      unfold cibAvail cibGetUnsafe
      dsimp only
      bv_omega
    rw [hNext, BitVec.toNat_sub, BitVec.toNat_ofNat]
    have hBound := (cibAvail cib).isLt
    omega
  have hHolds' : CibHolds k (cibGetUnsafe cib).1 := by
    refine ⟨hHolds.small, hHolds.mask, ?_⟩
    have hLess := hHolds.avail
    omega
  refine ⟨?_, hHolds', hAvail, ?_⟩
  · unfold cibGet
    rw [if_neg hNe]
  · intro array
    rw [hHolds'.items_eq, hHolds.items_eq, ← hAvail, ringItems_pop]
    have hIndex := hHolds.masked cib.readCount
    have hCounter : cib.readCount.toNat + 1 ≡ (cibGetUnsafe cib).1.readCount.toNat [MOD 2 ^ k] := by
      unfold cibGetUnsafe
      dsimp only
      rw [BitVec.toNat_add]
      exact (hHolds.mod_word _).symm
    rw [ringItems_congr hCounter]
    unfold cibGetUnsafe
    dsimp only
    rw [hIndex]

/- Number of items. -/
theorem items_length
    (array : Nat → α) :
    (cibItems cib array).length = (cibAvail cib).toNat := by
  simp [cibItems]

end CibHolds

end Riot
