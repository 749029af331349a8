import Riot.Core.Bitarithm
import Mathlib.Algebra.Ring.Nat
import Mathlib.Data.List.Nodup

/-
  Iteration over the set bits of a word in the three builds
  of `bitarithm_test_and_clear`, and the agreement of the
  builds of the bit searches.
-/

----
-- Operations
----

namespace Riot

/- The value of a comparison. -/
def comparison
    (c : Bool) : BitVec 32 :=
  if c then 1#32 else 0#32

/- Highest set bit, in the builds without CLZ. -/
def bitarithMsb32bitNoNativeClz
    (v : BitVec 32) : BitVec 32 :=
  let r := comparison (0xFFFF#32 < v) <<< 4
  let v := v >>> r
  let shift := comparison (0xFF#32 < v) <<< 3
  let v := v >>> shift
  let r := r ||| shift
  let shift := comparison (0xF#32 < v) <<< 2
  let v := v >>> shift
  let r := r ||| shift
  let shift := comparison (0x3#32 < v) <<< 1
  let v := v >>> shift
  let r := r ||| shift
  r ||| (v >>> 1)

/- Builds of `bitarithm_test_and_clear`. -/
inductive ClearBuild where
  | clz
  | lookup
  | loop
deriving DecidableEq, Repr

/-
  The shifting loop of `bitarithm_test_and_clear`. A word
  without a set bit in the first 32 turns is zero and the
  loop does not end.
-/
def testAndClearLoop :
    Nat → BitVec 32 → BitVec 8 → Option (BitVec 32 × BitVec 8)
  | 0, _, _ => none
  | turns + 1, state, index =>
    if state &&& 1#32 = 0#32 then
      testAndClearLoop turns (state >>> 1) (index + 1#8)
    else
      some (state &&& ~~~1#32, index)

/- Find a set bit and clear it: the new state and the index. -/
def bitarithmTestAndClear
    (build : ClearBuild) (state : BitVec 32)
    (index : BitVec 8) : Option (BitVec 32 × BitVec 8) :=
  match build with
  | .clz =>
    (builtinClz state).map
      (fun zeros =>
        let index := BitVec.ofNat 8 (8 * 4 - zeros - 1)
        (state &&& ~~~(1#32 <<< index.toNat), index))
  | .lookup =>
    let leastBit := state &&& -state
    multiplyDeBruijnBitPosition[
        ((leastBit * 0x077CB531#32) >>> 27).toNat]?.map
      (fun position =>
        (state &&& ~~~leastBit, BitVec.ofNat 8 position))
  | .loop => testAndClearLoop 32 state index

/- Call until the returned state is zero; list the indices. -/
def bitarithmIterate
    (build : ClearBuild) :
    Nat → BitVec 32 → BitVec 8 → Option (List (BitVec 8))
  | 0, _, _ => none
  | calls + 1, state, index =>
    match bitarithmTestAndClear build state index with
    | none => none
    | some (state', index') =>
      if state' = 0#32 then
        some [index']
      else
        (bitarithmIterate build calls state' index').map (index' :: ·)

/- The positions of the set bits. -/
def bitPositions
    (v : BitVec 32) : List Nat :=
  (List.range 32).filter (fun i => v.getLsbD i)

----
-- The Search for the Highest Bit
----

/- Dividing by a power of two lowers the logarithm. -/
theorem log2_div_two_pow
    {n k : Nat} (hLe : 2 ^ k ≤ n) :
    n / 2 ^ k ≠ 0 ∧ k + (n / 2 ^ k).log2 = n.log2 := by
  have hPos : 0 < 2 ^ k := Nat.two_pow_pos k
  have hDiv : n / 2 ^ k ≠ 0 := by
    have := Nat.div_pos hLe hPos
    omega
  refine ⟨hDiv, ?_⟩
  rcases (Nat.log2_eq_iff hDiv).mp rfl with ⟨hLow, hHigh⟩
  symm
  rw [Nat.log2_eq_iff (by omega)]
  constructor
  · rw [Nat.pow_add]
    calc
      2 ^ k * 2 ^ (n / 2 ^ k).log2 ≤ 2 ^ k * (n / 2 ^ k) := Nat.mul_le_mul_left _ hLow
      _ ≤ n := Nat.mul_div_le n _
  · rw [Nat.add_assoc, Nat.pow_add, Nat.mul_comm]
    exact (Nat.div_lt_iff_lt_mul hPos).mp hHigh

/-
  One step of the search: a word below `2 ^ (2 * k)` is cut
  down below `2 ^ k`, and what is shifted out is counted in
  the bit of `k` in `r`.
-/
theorem msb_step
    {s k : Nat} {v r : BitVec 32} (mask : BitVec 32) (hk : k = 2 ^ s) (hs : s < 5)
    (hMask : mask.toNat + 1 = 2 ^ k) (hLt : v.toNat < 2 ^ (2 * k))
    (hNe : v.toNat ≠ 0) (hr : 2 * k ∣ r.toNat) :
    let shift := comparison (mask < v) <<< s
    (v >>> shift).toNat < 2 ^ k ∧ (v >>> shift).toNat ≠ 0 ∧ k ∣ (r ||| shift).toNat ∧
      (r ||| shift).toNat + (v >>> shift).toNat.log2 = r.toNat + v.toNat.log2 := by
  intro shift
  have hPosK : 0 < k := hk ▸ Nat.two_pow_pos s
  have hHalf : k ∣ r.toNat := Nat.dvd_trans (Nat.dvd_mul_left k 2) hr
  by_cases hGt : mask < v
  · have hGt' : mask.toNat < v.toNat := BitVec.lt_def.mp hGt
    have hLe : 2 ^ k ≤ v.toNat := by omega
    have hSmall : k < 2 ^ 32 := by
      rw [hk]
      exact Nat.pow_lt_pow_right (by decide) (by omega)
    have hShift : shift.toNat = k := by
      simp only [shift, comparison, hGt, decide_true, if_true]
      rw [BitVec.toNat_shiftLeft, Nat.shiftLeft_eq, BitVec.toNat_ofNat,
        Nat.one_mod_two_pow_eq_one.mpr (by decide), one_mul, ← hk, Nat.mod_eq_of_lt hSmall]
    have hValue : (v >>> shift).toNat = v.toNat / 2 ^ k := by
      rw [BitVec.ushiftRight_eq', BitVec.toNat_ushiftRight, hShift, Nat.shiftRight_eq_div_pow]
    have hOr : (r ||| shift).toNat = r.toNat + k := by
      rcases hr with ⟨a, ha⟩
      have hTwo : 2 * k = 2 ^ (s + 1) := by
        rw [hk, Nat.pow_succ, Nat.mul_comm]
      have hLtTwo : k < 2 * k := by omega
      rw [BitVec.toNat_or, hShift, ha, hTwo, ← Nat.two_pow_add_eq_or_of_lt (hTwo ▸ hLtTwo)]
    rcases log2_div_two_pow hLe with ⟨hDiv, hLog⟩
    rw [hValue, hOr]
    refine ⟨?_, hDiv, ?_, by omega⟩
    · rw [Nat.div_lt_iff_lt_mul (Nat.two_pow_pos k), ← Nat.pow_add, ← Nat.two_mul]
      exact hLt
    · exact Nat.dvd_add hHalf (Nat.dvd_refl k)
  · have hLe : v.toNat ≤ mask.toNat := by
      rw [BitVec.lt_def] at hGt
      omega
    have hShift : shift = 0#32 := by
      simp [shift, comparison, hGt]
    rw [hShift]
    simp only [BitVec.or_zero, BitVec.ushiftRight_eq', BitVec.toNat_ofNat, Nat.zero_mod,
      BitVec.ushiftRight_zero]
    exact ⟨by omega, hNe, hHalf, trivial⟩

/- The search finds the logarithm of the word. -/
theorem bitarithMsb32bitNoNativeClz_eq
    {v : BitVec 32} (hNe : v.toNat ≠ 0) :
    (bitarithMsb32bitNoNativeClz v).toNat = v.toNat.log2 := by
  have h₁ := msb_step (r := 0#32) (s := 4) (k := 16) (v := v)
      0xFFFF#32 rfl (by decide) rfl v.isLt hNe
      (by simp)
  unfold bitarithMsb32bitNoNativeClz
  dsimp only at h₁ ⊢
  rw [BitVec.zero_or] at h₁
  generalize comparison (0xFFFF#32 < v) <<< 4 = r at h₁ ⊢
  generalize v >>> r = v₁ at h₁ ⊢
  rcases h₁ with ⟨hLt₁, hNe₁, hDvd₁, hLog₁⟩
  have h₂ :=
    msb_step (r := r) (s := 3) (k := 8) (v := v₁) 0xFF#32 rfl (by decide) rfl hLt₁ hNe₁ hDvd₁
  dsimp only at h₂
  generalize comparison (0xFF#32 < v₁) <<< 3 = s at h₂ ⊢
  generalize v₁ >>> s = v₂ at h₂ ⊢
  generalize r ||| s = r₂ at h₂ ⊢
  rcases h₂ with ⟨hLt₂, hNe₂, hDvd₂, hLog₂⟩
  have h₃ :=
    msb_step (r := r₂) (s := 2) (k := 4) (v := v₂) 0xF#32 rfl (by decide) rfl hLt₂ hNe₂ hDvd₂
  dsimp only at h₃
  generalize comparison (0xF#32 < v₂) <<< 2 = s at h₃ ⊢
  generalize v₂ >>> s = v₃ at h₃ ⊢
  generalize r₂ ||| s = r₃ at h₃ ⊢
  rcases h₃ with ⟨hLt₃, hNe₃, hDvd₃, hLog₃⟩
  have h₄ :=
    msb_step (r := r₃) (s := 1) (k := 2) (v := v₃) 0x3#32 rfl (by decide) rfl hLt₃ hNe₃ hDvd₃
  dsimp only at h₄
  generalize comparison (0x3#32 < v₃) <<< 1 = s at h₄ ⊢
  generalize v₃ >>> s = v₄ at h₄ ⊢
  generalize r₃ ||| s = r₄ at h₄ ⊢
  rcases h₄ with ⟨hLt₄, hNe₄, ⟨a, ha⟩, hLog₄⟩
  -- what is left is 1, 2 or 3
  have hLast : v₄.toNat.log2 = v₄.toNat / 2 := by
    have hCases : v₄.toNat = 1 ∨ v₄.toNat = 2 ∨ v₄.toNat = 3 := by
      omega
    rcases hCases with h | h | h
    all_goals
      rw [h]
      decide
  have hOr : (r₄ ||| v₄ >>> 1).toNat = r₄.toNat + v₄.toNat / 2 := by
    have hSmall : v₄.toNat / 2 < 2 ^ 1 := by omega
    rw [BitVec.toNat_or, BitVec.toNat_ushiftRight, Nat.shiftRight_eq_div_pow, Nat.pow_one, ha,
      ← Nat.two_pow_add_eq_or_of_lt hSmall]
  rw [BitVec.toNat_ofNat, Nat.zero_mod] at hLog₁
  rw [hOr]
  omega

----
-- One Call
----

variable {w state : BitVec 32} {index : BitVec 8}

/-
  The word `w` of the positions that are still to come. The
  shift loop drops the positions it has passed.
-/
def BitsLeft
    (build : ClearBuild) (w state : BitVec 32) (index : BitVec 8) : Prop :=
  match build with
  | .loop => state = w >>> index.toNat ∧ ∀ j < index.toNat, w.getLsbD j = false
  | _ => state = w

/- The set bits but one. -/
theorem getLsbD_clear
    (w : BitVec 32) (i j : Nat) :
    (w &&& ~~~BitVec.twoPow 32 i).getLsbD j = (w.getLsbD j && decide (j ≠ i)) := by
  by_cases hj : j < 32
  · simp [hj, Bool.and_comm, eq_comm]
  · simp [BitVec.getLsbD_of_ge _ _ (Nat.le_of_not_lt hj)]

/- Nothing is to come exactly when the state is zero. -/
theorem BitsLeft.eq_zero_iff
    {build : ClearBuild} (hBits : BitsLeft build w state index) :
    state = 0#32 ↔ w = 0#32 := by
  cases build with
  | clz => rw [show state = w from hBits]
  | lookup => rw [show state = w from hBits]
  | loop =>
    rcases hBits with ⟨rfl, hPassed⟩
    constructor
    · intro hZero
      apply BitVec.eq_of_getLsbD_eq
      intro j _
      rw [BitVec.getLsbD_zero]
      by_cases hj : j < index.toNat
      · exact hPassed j hj
      · have hBit := congrArg (fun v => BitVec.getLsbD v (j - index.toNat)) hZero
        rw [BitVec.getLsbD_ushiftRight, Nat.add_sub_cancel' (Nat.le_of_not_lt hj),
          BitVec.getLsbD_zero] at hBit
        exact hBit
    · rintro rfl
      simp

/- The loop shifts the lowest set bit to bit zero. -/
theorem testAndClearLoop_eq
    {turns i : Nat} (hLow : IsLowestBit state i) (hTurns : i < turns) :
    testAndClearLoop turns state index =
      some (state >>> i &&& ~~~1#32, index + BitVec.ofNat 8 i) := by
  induction turns generalizing state i index with
  | zero => omega
  | succ turns ih =>
    simp only [testAndClearLoop]
    cases i with
    | zero =>
      rw [if_neg (by rw [and_one_eq_zero_iff, hLow.1]; decide)]
      simp
    | succ i =>
      rw [if_pos (and_one_eq_zero_iff.mpr (hLow.2 0 (by omega))), ih hLow.shift (by omega)]
      rw [← BitVec.shiftRight_add, Nat.add_comm 1 i, BitVec.add_assoc, ← BitVec.ofNat_add,
        Nat.add_comm 1 i]

/-
  A call returns the index of a bit that is still to come and
  takes this bit, and no other, from the word.
-/
theorem bitarithmTestAndClear_spec
    {build : ClearBuild} (hBits : BitsLeft build w state index) (hNe : w ≠ 0#32) :
    ∃ state' index', bitarithmTestAndClear build state index = some (state', index') ∧
        w.getLsbD index'.toNat = true ∧
        BitsLeft build (w &&& ~~~BitVec.twoPow 32 index'.toNat) state' index' := by
  have hSmall : ∀ i < 32, (BitVec.ofNat 8 i).toNat = i := fun i hi => Nat.mod_eq_of_lt (by omega)
  cases build with
  | clz =>
    have hState : state = w := hBits
    subst hState
    rcases bitarithmMsb_spec hNe with ⟨i, hi, hRun, hBit, _⟩
    rcases Option.map_eq_some_iff.mp hRun with ⟨zeros, hZeros, hEq⟩
    refine ⟨state &&& ~~~(1#32 <<< (BitVec.ofNat 8 i).toNat), BitVec.ofNat 8 i, ?_, ?_, ?_⟩
    · simp only [bitarithmTestAndClear, hZeros, hEq, Option.map_some]
    · rw [hSmall i hi]
      exact hBit
    · rw [hSmall i hi, BitVec.twoPow_eq]
      rfl
  | lookup =>
    have hState : state = w := hBits
    subst hState
    rcases exists_isLowestBit hNe with ⟨i, hi, hLow⟩
    have hTable := lookup_twoPow ⟨i, hi⟩
    refine ⟨state &&& ~~~BitVec.twoPow 32 i, BitVec.ofNat 8 i, ?_, ?_, ?_⟩
    · simp only [bitarithmTestAndClear, and_neg_eq_twoPow hLow, hTable, Option.map_some]
    · rw [hSmall i hi]
      exact hLow.1
    · rw [hSmall i hi]
      rfl
  | loop =>
    have hStateNe : state ≠ 0#32 := fun hZero => hNe (hBits.eq_zero_iff.mp hZero)
    rcases hBits with ⟨hState, hPassed⟩
    rcases exists_isLowestBit hStateNe with ⟨i, hi, hLow⟩
    have hBit : w.getLsbD (index.toNat + i) = true := by
      rw [← BitVec.getLsbD_ushiftRight, ← hState]
      exact hLow.1
    have hLt : index.toNat + i < 32 := BitVec.lt_of_getLsbD hBit
    have hIndex : (index + BitVec.ofNat 8 i).toNat = index.toNat + i := by
      rw [BitVec.toNat_add, hSmall i hi]
      omega
    refine ⟨_, _, testAndClearLoop_eq hLow hi, ?_, ?_, ?_⟩
    · rw [hIndex]
      exact hBit
    · rw [hIndex]
      apply BitVec.eq_of_getLsbD_eq
      intro j hj
      rw [BitVec.getLsbD_ushiftRight, getLsbD_clear, hState, ← BitVec.shiftRight_add,
        BitVec.getLsbD_and, BitVec.getLsbD_ushiftRight, BitVec.getLsbD_not, BitVec.getLsbD_one]
      cases j with
      | zero => simp
      | succ j => simp [hj]
    · rw [hIndex]
      intro j hj
      rw [getLsbD_clear]
      by_cases hIdx : j < index.toNat
      · rw [hPassed j hIdx]
        rfl
      · have hNone := hLow.2 (j - index.toNat) (by omega)
        rw [hState, BitVec.getLsbD_ushiftRight,
          Nat.add_sub_cancel' (Nat.le_of_not_lt hIdx)] at hNone
        rw [hNone]
        rfl

----
-- Iteration
----

variable {v : BitVec 32}

/- The positions are those of the set bits. -/
theorem mem_bitPositions
    {i : Nat} :
    i ∈ bitPositions w ↔ w.getLsbD i = true := by
  simp only [bitPositions, List.mem_filter, List.mem_range]
  constructor
  · intro hBoth
    exact hBoth.2
  · intro hBit
    exact ⟨BitVec.lt_of_getLsbD hBit, hBit⟩

/- A cleared bit is no position any more. -/
theorem bitPositions_clear
    (w : BitVec 32) (i : Nat) :
    bitPositions (w &&& ~~~BitVec.twoPow 32 i) = (bitPositions w).erase i := by
  have hNodup : (bitPositions w).Nodup := List.nodup_range.filter _
  rw [hNodup.erase_eq_filter, bitPositions, bitPositions, List.filter_filter]
  apply List.filter_congr
  intro j _
  rw [getLsbD_clear, Bool.and_comm]
  by_cases hEq : j = i
  · simp [hEq]
  · simp [hEq]

/- Only zero has no positions. -/
theorem bitPositions_ne_nil
    (hNe : w ≠ 0#32) :
    bitPositions w ≠ [] := by
  rcases exists_isLowestBit hNe with ⟨i, _, hLow⟩
  exact List.ne_nil_of_mem (mem_bitPositions.mpr hLow.1)

/-
  The calls return every position that is to come, each one
  once, and then the state is zero.
-/
theorem bitarithmIterate_perm
    {build : ClearBuild} {calls : Nat} (hBits : BitsLeft build w state index)
    (hNe : w ≠ 0#32) (hCalls : (bitPositions w).length ≤ calls) :
    ∃ out, bitarithmIterate build calls state index = some out ∧
        (out.map BitVec.toNat).Perm (bitPositions w) := by
  induction calls generalizing w state index with
  | zero =>
    exact absurd (List.eq_nil_of_length_eq_zero (by omega)) (bitPositions_ne_nil hNe)
  | succ calls ih =>
    rcases bitarithmTestAndClear_spec hBits hNe with ⟨state', index', hRun, hBit, hBits'⟩
    have hMem := mem_bitPositions.mpr hBit
    have hPerm := List.perm_cons_erase hMem
    have hClear := bitPositions_clear w index'.toNat
    have hLen := hPerm.length_eq
    simp only [List.length_cons] at hLen
    simp only [bitarithmIterate, hRun]
    by_cases hZero : state' = 0#32
    · rw [if_pos hZero]
      refine ⟨_, rfl, ?_⟩
      rw [← hClear, hBits'.eq_zero_iff.mp hZero] at hPerm
      exact hPerm.symm
    · rw [if_neg hZero]
      have hNe' := fun hw => hZero (hBits'.eq_zero_iff.mpr hw)
      rcases ih hBits' hNe' (by rw [hClear]; omega) with ⟨out, hOut, hRest⟩
      refine ⟨index' :: out, by rw [hOut]; rfl, ?_⟩
      rw [hClear] at hRest
      exact (hRest.cons index'.toNat).trans hPerm.symm

/-
  In every build the iteration ends within 32 calls and
  returns each set position once and no other; the builds of
  the searches for the lowest and the highest bit agree.
-/
theorem bitarithm_builds
    (hNe : v ≠ 0#32) :
    (∀ build, ∃ out,
      bitarithmIterate build 32 v 0#8 = some out ∧ (out.map BitVec.toNat).Perm (bitPositions v)) ∧
      (∃ i, ∀ build, bitarithmLsb build v = some i) ∧
      bitarithmMsb v = some (bitarithMsb32bitNoNativeClz v).toNat := by
  refine ⟨?_, ?_, ?_⟩
  · intro build
    have hBits : BitsLeft build v v 0#8 := by
      cases build with
      | clz => rfl
      | lookup => rfl
      | loop => exact ⟨by simp, by simp⟩
    apply bitarithmIterate_perm hBits hNe
    calc
      (bitPositions v).length ≤ (List.range 32).length := List.length_filter_le _ _
      _ = 32 := List.length_range
  · rcases exists_isLowestBit hNe with ⟨i, _, hLow⟩
    exact ⟨i, fun build => bitarithmLsb_spec build hLow⟩
  · have hNat : v.toNat ≠ 0 := by
      intro hZero
      exact hNe (BitVec.eq_of_toNat_eq (by simpa using hZero))
    have hLog : v.toNat.log2 < 32 := (Nat.log2_lt hNat).mpr v.isLt
    rw [bitarithMsb32bitNoNativeClz_eq hNat]
    simp only [bitarithmMsb, builtinClz, hNe, if_false, Option.map_some]
    congr 1
    omega

/- Both ends of a word are set. -/
theorem bitarithm_builds_ends :
    (∀ build, ∃ out, bitarithmIterate build 32 0x80000001#32 0#8 = some out ∧
        (out.map BitVec.toNat).Perm (bitPositions 0x80000001#32)) ∧
      (∃ i, ∀ build, bitarithmLsb build 0x80000001#32 = some i) ∧
      bitarithmMsb 0x80000001#32 = some (bitarithMsb32bitNoNativeClz 0x80000001#32).toNat :=
  bitarithm_builds (by decide)

end Riot
