import Riot.Lib.FinNumerals
import Riot.Lib.OnesComplement

/-
  The Internet checksum of `inet_csum.c`, over slices of the
  data.

  A pointer into a buffer is the rest of the buffer. Reading
  behind the buffer is a fault (`none`), and so is an
  addition that overflows the 32-bit accumulator.
-/

----
-- Operations
----

namespace Riot

/- Add to the accumulator. -/
def csumAdd
    (csum : UInt32) (value : Nat) : Option UInt32 :=
  if csum.toNat + value < 4294967296 then
    some (csum + UInt32.ofNat value)
  else
    none

/- Group `i` times two bytes to a word and add them. -/
def inetCsumWords :
    Nat → List UInt8 → UInt32 → Option (List UInt8 × UInt32)
  | 0, buf, csum => some (buf, csum)
  | i + 1, b :: b' :: buf, csum =>
    match csumAdd csum
        ((b.toNat <<< 8) % 65536 + b'.toNat) with
    | none => none
    | some csum => inetCsumWords i buf csum
  | _ + 1, _, _ => none

/-
  Bring the high half around until there is none. Two turns
  are always enough.
-/
def inetCsumFold : Nat → UInt32 → Option UInt32
  | 0, _ => none
  | turns + 1, csum =>
    if csum >>> 16 = 0 then
      some csum
    else
      let carry := (csum >>> 16).toUInt16
      match csumAdd (csum &&& 0xffff) carry.toNat with
      | none => none
      | some csum => inetCsumFold turns csum

/- The last byte of an odd length is a top half. -/
def inetCsumTail
    (csum : UInt32) (buf : List UInt8) (accumLen : UInt32) : Option UInt32 :=
  if accumLen &&& 1 ≠ 0 then
    match buf with
    | [] => none
    | b :: _ => csumAdd csum ((b.toNat <<< 8) % 65536)
  else
    some csum

/-
  The rest of `inet_csum_slice`, from the loop over the words
  on.
-/
def inetCsumRest
    (csum : UInt32) (buf : List UInt8) (len : UInt16) (accumLen : UInt32) : Option UInt16 :=
  match inetCsumWords (len >>> 1).toNat buf csum with
  | none => none
  | some (buf, csum) =>
    match inetCsumTail csum buf
        (accumLen + len.toUInt32) with
    | none => none
    | some csum => (inetCsumFold 3 csum).map UInt32.toUInt16

/- Sum a slice behind `accumLen` bytes. -/
def inetCsumSlice
    (sum : UInt16) (buf : List UInt8) (len : UInt16) (accumLen : UInt32) : Option UInt16 :=
  if len = 0 then
    some sum
  else if accumLen &&& 1 ≠ 0 then
    -- the first byte is the bottom half of a word
    match buf with
    | [] => none
    | b :: buf =>
      match csumAdd sum.toUInt32 b.toNat with
      | none => none
      | some csum => inetCsumRest csum buf (len - 1) (accumLen + 1)
  else
    inetCsumRest sum.toUInt32 buf len accumLen

/- Sum data that stands alone. -/
def inetCsum
    (sum : UInt16) (buf : List UInt8) (len : UInt16) : Option UInt16 :=
  inetCsumSlice sum buf len 0

/- Sum slices in order, behind `accumLen` bytes. -/
def inetCsumSlices
    (sum : UInt16) :
    Nat → List (List UInt8) → Option UInt16
  | _, [] => some sum
  | accumLen, slice :: slices =>
    match inetCsumSlice sum slice
        (UInt16.ofNat slice.length)
        (UInt32.ofNat accumLen) with
    | none => none
    | some sum => inetCsumSlices sum (accumLen + slice.length) slices

----
-- The Accumulator
----

open OnesComplement

variable {csum : UInt32} {buf : List UInt8}

/- An addition that fits adds numbers. -/
theorem csumAdd_eq
    (csum : UInt32) (value : Nat) (hFits : csum.toNat + value < 4294967296) :
    ∃ csum', csumAdd csum value = some csum' ∧ csum'.toNat = csum.toNat + value := by
  refine ⟨_, if_pos hFits, ?_⟩
  rw [UInt32.toNat_add, UInt32.toNat_ofNat']
  omega

/- The loop adds the weight of the bytes it passes. -/
theorem inetCsumWords_eq
    (csum : UInt32) (buf : List UInt8) {i : Nat} (hLen : 2 * i ≤ buf.length)
    (hFits : csum.toNat + weigh 0 (buf.take (2 * i)) < 4294967296) :
    ∃ csum', inetCsumWords i buf csum = some (buf.drop (2 * i), csum') ∧
        csum'.toNat = csum.toNat + weigh 0 (buf.take (2 * i)) := by
  induction i generalizing buf csum with
  | zero => exact ⟨csum, rfl, rfl⟩
  | succ i ih =>
    rcases buf with _ | ⟨b, _ | ⟨b', buf⟩⟩
    · simp only [List.length_nil] at hLen
      omega
    · simp only [List.length_cons, List.length_nil] at hLen
      omega
    · have hTake : (b :: b' :: buf).take (2 * (i + 1)) = b :: b' :: buf.take (2 * i) := rfl
      have hWeigh : weigh 0 (b :: b' :: buf.take (2 * i)) =
            (b.toNat <<< 8) % 65536 + b'.toNat + weigh 0 (buf.take (2 * i)) := by
        have hb := b.toNat_lt
        rw [weigh, weigh, weigh_congr (n := 0 + 1 + 1) (m := 0) (by omega), Nat.shiftLeft_eq]
        simp
        omega
      rw [hTake, hWeigh] at hFits
      rcases csumAdd_eq csum
          ((b.toNat <<< 8) % 65536 + b'.toNat)
          (by omega) with
        ⟨csum₁, hAdd, hNat⟩
      simp only [List.length_cons] at hLen
      rcases ih csum₁ buf (by omega) (by omega) with ⟨csum', hRun, hSum⟩
      refine ⟨csum', ?_, ?_⟩
      · simp only [inetCsumWords, hAdd]
        exact hRun
      · rw [hSum, hNat, hTake, hWeigh]
        omega

/- The high half of the accumulator. -/
theorem toNat_shiftRight_half
    (csum : UInt32) :
    (csum >>> 16).toNat = csum.toNat / 65536 := by
  have hShift := UInt32.toNat_shiftRight csum 16
  have hMod : (16 : UInt32).toNat % 32 = 16 := rfl
  rw [hMod, Nat.shiftRight_eq_div_pow] at hShift
  omega

/- One turn keeps the representative. -/
theorem csumAdd_carry
    (csum : UInt32) :
    ∃ csum', csumAdd (csum &&& 0xffff) (csum >>> 16).toUInt16.toNat = some csum' ∧
        csum'.toNat = csum.toNat % 65536 + csum.toNat / 65536 := by
  have hLow : (csum &&& 0xffff).toNat = csum.toNat % 65536 := by
    rw [UInt32.toNat_and]
    exact Nat.and_two_pow_sub_one_eq_mod csum.toNat 16
  have hHigh : (csum >>> 16).toUInt16.toNat = csum.toNat / 65536 := by
    have hLt := csum.toNat_lt
    rw [UInt32.toNat_toUInt16, toNat_shiftRight_half]
    omega
  have hLt := csum.toNat_lt
  rcases csumAdd_eq (csum &&& 0xffff)
      (csum >>> 16).toUInt16.toNat
      (by rw [hLow, hHigh]; omega) with
    ⟨csum', hAdd, hNat⟩
  exact ⟨csum', hAdd, by rw [hNat, hLow, hHigh]⟩

/- The high half is zero in a word. -/
theorem shiftRight_eq_zero_iff :
    csum >>> 16 = 0 ↔ csum.toNat < 65536 := by
  rw [← UInt32.toNat_inj, toNat_shiftRight_half, UInt32.toNat_zero]
  omega

/- The loop ends with the representative of the accumulator. -/
theorem inetCsumFold_eq
    (csum : UInt32) :
    ∃ csum', inetCsumFold 3 csum = some csum' ∧ csum'.toNat = fold csum.toNat := by
  by_cases h₀ : csum.toNat < 65536
  · refine ⟨csum, ?_, (fold_of_lt h₀).symm⟩
    rw [inetCsumFold, if_pos (shiftRight_eq_zero_iff.mpr h₀)]
  rcases csumAdd_carry csum with ⟨csum₁, hAdd₁, hNat₁⟩
  have hFold₁ := fold_carry csum.toNat
  rw [← hNat₁] at hFold₁
  rw [inetCsumFold, if_neg (fun h => h₀ (shiftRight_eq_zero_iff.mp h))]
  simp only [hAdd₁]
  by_cases h₁ : csum₁.toNat < 65536
  · refine ⟨csum₁, ?_, by rw [← hFold₁, fold_of_lt h₁]⟩
    rw [inetCsumFold, if_pos (shiftRight_eq_zero_iff.mpr h₁)]
  rcases csumAdd_carry csum₁ with ⟨csum₂, hAdd₂, hNat₂⟩
  have hFold₂ := fold_carry csum₁.toNat
  rw [← hNat₂] at hFold₂
  rw [inetCsumFold, if_neg (fun h => h₁ (shiftRight_eq_zero_iff.mp h))]
  simp only [hAdd₂]
  -- two halves below 2^16 sum to less than 2^17
  have hLt := csum.toNat_lt
  have h₂ : csum₂.toNat < 65536 := by omega
  refine ⟨csum₂, ?_, by rw [← hFold₁, ← hFold₂, fold_of_lt h₂]⟩
  rw [inetCsumFold, if_pos (shiftRight_eq_zero_iff.mpr h₂)]

----
-- Slices
----

variable {csum : UInt32} {sum len : UInt16} {accumLen : UInt32} {buf : List UInt8}

/- The parity of a machine number. -/
theorem and_one_ne_zero_iff
    (n : UInt32) :
    n &&& 1 ≠ 0 ↔ n.toNat % 2 = 1 := by
  have hAnd : (n &&& 1).toNat = n.toNat % 2 :=
    (UInt32.toNat_and n 1).trans (Nat.and_two_pow_sub_one_eq_mod n.toNat 1)
  rw [ne_eq, ← UInt32.toNat_inj, hAnd, UInt32.toNat_zero]
  omega

/-
  Behind an even number of bytes the rest of the function adds
  the words of the first `len` bytes, the last one padded.
-/
theorem inetCsumRest_eq
    (hLen : len.toNat ≤ buf.length) (hEven : accumLen.toNat % 2 = 0)
    (hFits : csum.toNat + weigh 0 (buf.take len.toNat) < 4294967296) :
    inetCsumRest csum buf len accumLen =
      some (UInt16.ofNat (fold (csum.toNat + weigh 0 (buf.take len.toNat)))) := by
  generalize hn : len.toNat = n at hLen hFits ⊢
  have hHalf : (len >>> 1).toNat = n / 2 := by
    have hShift := UInt16.toNat_shiftRight len 1
    have hMod : (1 : UInt16).toNat % 16 = 1 := rfl
    rw [hMod, Nat.shiftRight_eq_div_pow, hn] at hShift
    omega
  have hWeigh : weigh 0 (buf.take n) =
        weigh 0 (buf.take (2 * (n / 2))) + weigh 0 ((buf.drop (2 * (n / 2))).take (n % 2)) := by
    have hSplit : n = 2 * (n / 2) + n % 2 := (Nat.div_add_mod n 2).symm
    calc
      weigh 0 (buf.take n)
        = weigh 0 (buf.take (2 * (n / 2)) ++ (buf.drop (2 * (n / 2))).take (n % 2)) := by
          rw [← List.take_add, ← hSplit]
      _ = _ := by
        rw [weigh_append]
        congr 1
        apply weigh_congr
        rw [List.length_take]
        omega
  rcases inetCsumWords_eq csum buf (i := n / 2) (by omega) (by omega) with ⟨csum₁, hWords, hNat₁⟩
  have hOdd : (accumLen + len.toUInt32) &&& 1 ≠ 0 ↔ n % 2 = 1 := by
    rw [and_one_ne_zero_iff, UInt32.toNat_add, UInt16.toNat_toUInt32, hn]
    omega
  -- the last byte, if there is one, is the top half of a word
  have hTail : ∃ csum₂, inetCsumTail csum₁ (buf.drop (2 * (n / 2)))
            (accumLen + len.toUInt32) = some csum₂ ∧
          csum₂.toNat = csum.toNat + weigh 0 (buf.take n) := by
    unfold inetCsumTail
    rcases Nat.mod_two_eq_zero_or_one n with hParity | hParity
    · rw [hParity, List.take_zero] at hWeigh
      rw [if_neg (fun h => by rw [hOdd] at h; omega)]
      refine ⟨csum₁, rfl, ?_⟩
      rw [hNat₁, hWeigh]
      rfl
    · rw [if_pos (hOdd.mpr hParity)]
      rw [hParity] at hWeigh
      have hDrop := List.length_drop (i := 2 * (n / 2)) (l := buf)
      cases hRest : buf.drop (2 * (n / 2)) with
      | nil =>
        rw [hRest, List.length_nil] at hDrop
        omega
      | cons b rest =>
        have hb := b.toNat_lt
        have hLast : weigh 0 ((b :: rest).take 1) = (b.toNat <<< 8) % 65536 := by
          rw [List.take_succ_cons, List.take_zero, weigh, weigh, Nat.shiftLeft_eq]
          simp
          omega
        rw [hRest, hLast] at hWeigh
        rcases csumAdd_eq csum₁ ((b.toNat <<< 8) % 65536) (by omega) with ⟨csum₂, hAdd, hNat₂⟩
        exact ⟨csum₂, hAdd, by omega⟩
  rcases hTail with ⟨csum₂, hTail, hNat₂⟩
  rcases inetCsumFold_eq csum₂ with ⟨csum₃, hFold, hNat₃⟩
  unfold inetCsumRest
  rw [hHalf, hWords]
  simp only [hTail, hFold]
  rw [← hNat₂, ← hNat₃]
  rfl

/-
  A slice adds the weight of its bytes behind those already
  summed, and the accumulator does not overflow.
-/
theorem inetCsumSlice_eq
    (sum : UInt16) (accumLen : UInt32) (hLen : len.toNat ≤ buf.length) :
    inetCsumSlice sum buf len accumLen =
      some (UInt16.ofNat (fold (sum.toNat + weigh accumLen.toNat (buf.take len.toNat)))) := by
  have hSum := sum.toNat_lt
  have hLt := len.toNat_lt
  have hBound := weigh_le accumLen.toNat (buf.take len.toNat)
  rw [List.length_take] at hBound
  unfold inetCsumSlice
  by_cases hZero : len = 0
  · rw [if_pos hZero, hZero]
    change some sum = some (UInt16.ofNat (fold sum.toNat))
    rw [fold_of_lt hSum, UInt16.ofNat_toNat]
  · rw [if_neg hZero]
    by_cases hOdd : accumLen &&& 1 ≠ 0
    · have hOddNat := (and_one_ne_zero_iff accumLen).mp hOdd
      have hPos : len.toNat ≠ 0 := fun h => hZero (UInt16.toNat_inj.mp h)
      rw [if_pos hOdd]
      cases buf with
      | nil =>
        simp only [List.length_nil] at hLen
        omega
      | cons b rest =>
        have hPred : (len - 1).toNat = len.toNat - 1 := by
          rw [UInt16.toNat_sub, UInt16.toNat_one]
          omega
        have hWeigh : weigh accumLen.toNat
                ((b :: rest).take len.toNat) =
              b.toNat + weigh 0 (rest.take (len - 1).toNat) := by
          rw [hPred, List.take_cons (by omega), weigh, if_neg (by omega),
            weigh_congr (n := accumLen.toNat + 1) (m := 0) (by omega)]
        rw [hWeigh] at hBound
        rw [List.length_cons] at hLen
        rcases csumAdd_eq sum.toUInt32 b.toNat
            (by rw [UInt16.toNat_toUInt32]; omega) with
          ⟨csum, hAdd, hNat⟩
        rw [UInt16.toNat_toUInt32] at hNat
        simp only [hAdd]
        rw [inetCsumRest_eq, hNat, hWeigh, Nat.add_assoc]
        · omega
        · rw [UInt32.toNat_add, UInt32.toNat_one]
          omega
        · omega
    · have hEven : accumLen.toNat % 2 = 0 := by
        rw [and_one_ne_zero_iff] at hOdd
        omega
      have hWeigh : weigh accumLen.toNat (buf.take len.toNat) = weigh 0 (buf.take len.toNat) :=
        weigh_congr hEven
      rw [hWeigh] at hBound
      rw [if_neg hOdd, inetCsumRest_eq hLen hEven]
      · rw [UInt16.toNat_toUInt32, hWeigh]
      · rw [UInt16.toNat_toUInt32]
        omega

/- The whole buffer as a slice. -/
theorem inetCsumSlice_whole
    (sum : UInt16) (accumLen : UInt32) (hLt : buf.length < 65536) :
    inetCsumSlice sum buf (UInt16.ofNat buf.length) accumLen =
      some (UInt16.ofNat (fold (sum.toNat + weigh accumLen.toNat buf))) := by
  have hLen : (UInt16.ofNat buf.length).toNat = buf.length := by
    rw [UInt16.toNat_ofNat']
    exact Nat.mod_eq_of_lt hLt
  rw [inetCsumSlice_eq sum accumLen (Nat.le_of_eq hLen), hLen, List.take_length]

/- Chained slices add the weight of all their bytes. -/
theorem inetCsumSlices_eq
    (sum : UInt16) (accumLen : Nat) {slices : List (List UInt8)}
    (hSlices : ∀ slice ∈ slices, slice.length < 65536) :
    inetCsumSlices sum accumLen slices =
      some (UInt16.ofNat (fold (sum.toNat + weigh accumLen slices.flatten))) := by
  induction slices generalizing sum accumLen with
  | nil =>
    rw [List.flatten_nil, weigh, Nat.add_zero, fold_of_lt sum.toNat_lt, UInt16.ofNat_toNat]
    rfl
  | cons slice slices ih =>
    have hParity : weigh (UInt32.ofNat accumLen).toNat slice = weigh accumLen slice := by
      apply weigh_congr
      rw [UInt32.toNat_ofNat']
      omega
    have hWord : ∀ n, (UInt16.ofNat (fold n)).toNat = fold n := by
      intro n
      rw [UInt16.toNat_ofNat']
      exact Nat.mod_eq_of_lt (fold_lt n)
    simp only [inetCsumSlices]
    rw [inetCsumSlice_whole sum _ (hSlices slice (by simp)), hParity]
    dsimp only
    rw [ih _ _ (fun s hs => hSlices s (by simp [hs])), hWord, fold_add_fold, List.flatten_cons,
      weigh_append, Nat.add_assoc]

/-
  However a byte string is cut into slices, the chained sum is
  the one's complement sum of its words, and so is the sum of
  the string in one call.
-/
theorem inetCsum_slices
    (sum : UInt16) {slices : List (List UInt8)}
    (hSlices : ∀ slice ∈ slices, slice.length < 65536) :
    inetCsumSlices sum 0 slices =
        some (UInt16.ofNat (OnesComplement.sum sum.toNat (words slices.flatten))) ∧
      (slices.flatten.length < 65536 →
        inetCsum sum slices.flatten
            (UInt16.ofNat slices.flatten.length) = inetCsumSlices sum 0 slices) := by
  constructor
  · rw [inetCsumSlices_eq sum 0 hSlices, sum_words_eq_fold sum.toNat_lt]
  · intro hLt
    rw [inetCsumSlices_eq sum 0 hSlices, inetCsum, inetCsumSlice_whole sum 0 hLt]
    rfl

/- Odd and empty slices. -/
theorem inetCsum_slices_sample :
    inetCsumSlices 0 0 [[0x50, 0x02, 0x74], [], [0x61]] =
        some (UInt16.ofNat (OnesComplement.sum 0 (words [0x50, 0x02, 0x74, 0x61]))) ∧
      (4 < 65536 → inetCsum 0 [0x50, 0x02, 0x74, 0x61] 4 =
          inetCsumSlices 0 0 [[0x50, 0x02, 0x74], [], [0x61]]) :=
  inetCsum_slices 0
    (show ∀ slice ∈
        ([[0x50, 0x02, 0x74], [], [0x61]] : List (List UInt8)), slice.length < 65536 by simp)

end Riot
