import Riot.Net.TcpReceive

/-
  The option field of a TCP header.

  The parser walks over the bytes with a pointer and a count of
  what is left. It never leaves the field, but it stores the
  segment size of an option before it has looked at the ones
  that follow, so that a header which it refuses can still
  change the connection.
-/

----
-- The Parser on its Pointer
----

namespace Riot

/- GET_OFFSET: the words of a header. -/
def getOffset
    (offCtl : UInt16) : UInt8 :=
  ((offCtl &&& 0xf000) >>> 12).toUInt8

/-
  The switch on an option's kind, unless it ends the list or is
  one byte. The result `none` is a read outside of the field.
-/
def examineOption
    (opts : List UInt8) (t : Tcb) (kind : UInt8) (ptr : Nat)
    (left : UInt8) : Option (Tcb × Bool) :=
  if kind = 2 then
    if left < 2 then
      some (t, false)
    else
      opts[ptr + 1]?.bind fun length =>
        if length > left ∨ length ≠ 4 then
          some (t, false)
        else
          opts[ptr + 2]?.bind fun hi =>
            opts[ptr + 3]?.bind fun lo =>
              some ({ t with mss := (hi.toUInt16 <<< 8) ||| lo.toUInt16 }, true)
  else
    some (t, true)

def optionLoop
    (opts : List UInt8) :
    Nat → Tcb → Nat → UInt8 → Option (Tcb × Bool)
| 0, _, _, _ => none
| fuel + 1, t, ptr, left =>
  if left = 0 then
    some (t, true)
  else
    opts[ptr]?.bind fun kind =>
      if kind = 0 then
        some (t, true)
      else if kind = 1 then
        optionLoop opts fuel t (ptr + 1) (left - 1)
      else
        (examineOption opts t kind ptr left).bind fun r =>
          if r.2 = false ∨ left < 2 then
            some (r.1, false)
          else
            opts[ptr + 1]?.bind fun length =>
              if length > left ∨ length < 2 then
                some (r.1, false)
              else
                optionLoop opts fuel r.1 (ptr + length.toNat) (left - length)

/- The flag of the result is false for -1. -/
def optionParseHdr
    (t : Tcb) (offCtl : UInt16) (opts : List UInt8) (fuel : Nat) : Option (Tcb × Bool) :=
  if getOffset offCtl ≤ 5 then
    some (t, true)
  else
    optionLoop opts fuel t 0 ((getOffset offCtl - 5) * 4)

----
-- The Parser on the Bytes
----

/- Whether an option with this length byte is refused. -/
def WrongLength
    (kind length : UInt8) (value : List UInt8) : Prop :=
  length.toNat < 2 ∨ value.length + 2 < length.toNat ∨ (kind = 2 ∧ length ≠ 4)

instance
    (kind length : UInt8) (value : List UInt8) :
    Decidable (WrongLength kind length value) :=
  inferInstanceAs (Decidable (_ ∨ _ ∨ _))

variable {t : Tcb} {fuel ptr : Nat} {mss mss' : UInt16}
variable {kind length left : UInt8} {opts pre tail rest value bad : List UInt8}
variable {sizes : List UInt16}

/- A single option is refused before it has an effect. -/
theorem optionParse_wrong
    (hEol : kind ≠ 0) (hNop : kind ≠ 1) (hWrong : WrongLength kind length value) :
    optionParse (fuel + 1) mss (kind :: length :: value) = (mss, false) := by
  unfold WrongLength at hWrong
  by_cases hKind : kind = 2
  · have hRefused : length.toNat > value.length + 1 + 1 ∨ length ≠ 4 := by
      by_contra hNot
      have hFour : length = 4 := by
        simpa using (not_or.mp hNot).2
      subst hFour
      have hNat : (4 : UInt8).toNat = 4 := rfl
      simp only [ne_eq, not_true_eq_false, and_false, or_false, hNat] at hWrong hNot
      omega
    rw [optionParse, if_neg hEol, if_neg hNop]
    exact if_pos ⟨hKind, hRefused⟩
  · have hRefused : length.toNat > value.length + 1 + 1 ∨ length.toNat < 2 := by
      simp only [hKind, false_and, or_false] at hWrong
      omega
    rw [optionParse, if_neg hEol, if_neg hNop]
    simp only [hKind, false_and, if_false, List.length_cons, if_pos hRefused]

/- The bytes after an option decide on what becomes of it. -/
theorem optionParse_right
    (hEol : kind ≠ 0) (hNop : kind ≠ 1) (hRight : ¬WrongLength kind length value) :
    optionParse (fuel + 1) mss (kind :: length :: value) = optionParse fuel (if kind = 2 then
          ((value.getD 0 0).toUInt16 <<< 8) ||| (value.getD 1 0).toUInt16
        else mss)
        (value.drop (length.toNat - 2)) := by
  unfold WrongLength at hRight
  have hShort : ¬length.toNat < 2 := by omega
  have hLong : ¬length.toNat > value.length + 1 + 1 := by
    omega
  have hFour : ¬(kind = 2 ∧ length ≠ 4) := fun h => hRight (Or.inr (Or.inr h))
  rw [optionParse, if_neg hEol, if_neg hNop]
  simp only [List.length_cons, hFour, hLong, hShort, false_or, or_self, if_false]

theorem optionParse_nop :
    optionParse (fuel + 1) mss (1 :: rest) = optionParse fuel mss rest := by
  simp [optionParse]

theorem toNat_sub_length
    (hLe : length.toNat ≤ left.toNat) :
    (left - length).toNat = left.toNat - length.toNat :=
  UInt8.toNat_sub_of_le left length (UInt8.le_iff_toNat_le.mpr hLe)

/- One round of the loop, on an option that has a length. -/
theorem optionLoop_option
    (hAt : ∀ i, opts[ptr + i]? = (kind :: length :: value)[i]?)
    (hLeft : left.toNat = value.length + 2) (hEol : kind ≠ 0) (hNop : kind ≠ 1) :
    optionLoop opts (fuel + 1) t ptr left = if WrongLength kind length value then some (t, false)
      else optionLoop opts fuel { t with mss := if kind = 2 then
              ((value.getD 0 0).toUInt16 <<< 8) ||| (value.getD 1 0).toUInt16
            else t.mss }
          (ptr + length.toNat) (left - length) := by
  have hKindAt : opts[ptr]? = some kind := hAt 0
  have hLengthAt : opts[ptr + 1]? = some length := hAt 1
  have hTwo : ¬left < 2 := by
    rw [UInt8.lt_iff_toNat_lt, hLeft]
    exact Nat.not_lt.mpr (Nat.le_add_left 2 _)
  have hSome : left ≠ 0 := by
    rintro rfl
    cases hLeft
  have hMore : length > left ↔ value.length + 2 < length.toNat := by
    rw [gt_iff_lt, UInt8.lt_iff_toNat_lt, hLeft]
  have hLess : length < 2 ↔ length.toNat < 2 := UInt8.lt_iff_toNat_lt
  rw [optionLoop, if_neg hSome, hKindAt, Option.bind_some, if_neg hEol, if_neg hNop]
  by_cases hWrong : WrongLength kind length value
  · rw [if_pos hWrong]
    by_cases hKind : kind = 2
    · have hRefused : length > left ∨ length ≠ 4 := by
        rcases hWrong with hShort | hLong | hSize
        · right
          rintro rfl
          exact absurd hShort (by decide)
        · exact Or.inl (hMore.mpr hLong)
        · exact Or.inr hSize.2
      simp only [examineOption, if_pos hKind, if_neg hTwo, hLengthAt,
        Option.bind_some, if_pos hRefused, true_or, if_true]
    · have hRefused : length > left ∨ length < 2 := by
        rcases hWrong with hShort | hLong | hSize
        · exact Or.inr (hLess.mpr hShort)
        · exact Or.inl (hMore.mpr hLong)
        · exact absurd hSize.1 hKind
      simp only [examineOption, if_neg hKind, hTwo, hLengthAt, Option.bind_some, if_pos hRefused,
        Bool.true_eq_false, or_self, if_false]
  · have hRight : ¬(length > left ∨ length < 2) := by
      rintro (h | h)
      · exact hWrong (Or.inr (Or.inl (hMore.mp h)))
      · exact hWrong (Or.inl (hLess.mp h))
    rw [if_neg hWrong]
    by_cases hKind : kind = 2
    · have hSize : length = 4 := by
        by_contra hNot
        exact hWrong (Or.inr (Or.inr ⟨hKind, hNot⟩))
      have hFour : ¬(length > left ∨ length ≠ 4) := by
        rintro (h | h)
        · exact hRight (Or.inl h)
        · exact h hSize
      have hFit : 2 ≤ value.length := by
        have hNat : length.toNat = 4 := by rw [hSize]; rfl
        have hLong := mt hMore.mpr (not_or.mp hRight).1
        omega
      -- both bytes of the size are in the field
      rcases value with _ | ⟨hi, _ | ⟨lo, value⟩⟩
      · exact absurd hFit (Nat.not_succ_le_zero 1)
      · exact absurd hFit (Nat.lt_irrefl 1)
      have hHiAt : opts[ptr + 2]? = some hi := hAt 2
      have hLoAt : opts[ptr + 3]? = some lo := hAt 3
      simp only [examineOption, if_pos hKind, hLengthAt, Option.bind_some, if_neg hFour, hHiAt,
        hLoAt, hTwo, Bool.true_eq_false, or_self, if_false, if_neg hRight, List.getD_cons_zero,
        List.getD_cons_succ]
    · simp only [examineOption, if_neg hKind, hTwo, hLengthAt, Option.bind_some, if_neg hRight,
        Bool.true_eq_false, or_self, if_false]

/- The loop reads the bytes of the field and no others. -/
theorem optionLoop_spec
    (hAt : ∀ i, opts[ptr + i]? = tail[i]?) (hLeft : left.toNat = tail.length)
    (hFuel : tail.length ≤ fuel) :
    optionLoop opts (fuel + 1) t ptr left =
      some ({ t with mss := (optionParse fuel t.mss tail).1 },
        (optionParse fuel t.mss tail).2) := by
  induction fuel generalizing t ptr left tail with
  | zero =>
    have hNil := List.eq_nil_of_length_eq_zero (Nat.le_zero.mp hFuel)
    subst hNil
    have hZero : left = 0 := UInt8.toNat_inj.mp hLeft
    simp [optionLoop, optionParse, hZero]
  | succ fuel ih =>
    rcases tail with _ | ⟨kind, rest⟩
    · have hZero : left = 0 := UInt8.toNat_inj.mp hLeft
      simp [optionLoop, optionParse, hZero]
    have hSome : left ≠ 0 := by
      rintro rfl
      cases hLeft
    have hKindAt : opts[ptr]? = some kind := hAt 0
    simp only [List.length_cons] at hLeft hFuel
    by_cases hEol : kind = 0
    · simp [optionLoop, optionParse, hSome, hKindAt, hEol]
    by_cases hNop : kind = 1
    · subst hNop
      rw [optionLoop, if_neg hSome, hKindAt, Option.bind_some,
        if_neg hEol, if_pos rfl, optionParse_nop]
      apply ih _ _ (by omega)
      · intro i
        rw [Nat.add_assoc, hAt, Nat.add_comm 1 i]
        rfl
      · rw [toNat_sub_length] <;> rw [hLeft]
        · rfl
        · exact Nat.le_add_left ..
    rcases rest with _ | ⟨length, value⟩
    · have hOne : left = 1 := UInt8.toNat_inj.mp hLeft
      by_cases hKind : kind = 2
      · simp [optionLoop, optionParse, examineOption, hKindAt, hOne, hKind]
      · simp [optionLoop, optionParse, examineOption, hKindAt, hOne, hKind, hEol, hNop]
    simp only [List.length_cons] at hLeft hFuel
    rw [optionLoop_option hAt hLeft hEol hNop]
    by_cases hWrong : WrongLength kind length value
    · rw [if_pos hWrong, optionParse_wrong hEol hNop hWrong]
    have hRight := hWrong
    unfold WrongLength at hRight
    rw [if_neg hWrong, optionParse_right hEol hNop hWrong]
    apply ih _ _ (by rw [List.length_drop]; omega)
    · intro i
      rw [Nat.add_assoc, hAt, List.getElem?_drop,
        show length.toNat + i = (length.toNat - 2 + i) + 1 + 1 by omega]
      rfl
    · rw [toNat_sub_length (by omega), List.length_drop]
      omega

theorem getOffset_le
    (offCtl : UInt16) :
    (getOffset offCtl).toNat ≤ 15 := by
  have hMask : offCtl.toNat &&& 0xf000 ≤ 0xf000 := Nat.and_le_right
  have hOffset : (getOffset offCtl).toNat = ((offCtl.toNat &&& 0xf000) >>> 12) % 2 ^ 8 := rfl
  rw [hOffset, Nat.shiftRight_eq_div_pow]
  omega

/- The header's offset gives the length of the field. -/
theorem optionParseHdr_eq
    {offCtl : UInt16} (hLen : opts.length = ((getOffset offCtl).toNat - 5) * 4)
    (hFuel : opts.length ≤ fuel) :
    optionParseHdr t offCtl opts (fuel + 1) =
      some ({ t with mss := (optionParse fuel t.mss opts).1 },
        (optionParse fuel t.mss opts).2) := by
  unfold optionParseHdr
  have hLe : getOffset offCtl ≤ 5 ↔ (getOffset offCtl).toNat ≤ 5 := UInt8.le_iff_toNat_le
  by_cases hMin : getOffset offCtl ≤ 5
  · have hNil : opts = [] := by
      apply List.eq_nil_of_length_eq_zero
      rw [hLen, Nat.sub_eq_zero_of_le (hLe.mp hMin)]
    rw [if_pos hMin, hNil]
    cases fuel <;> rfl
  · rw [if_neg hMin]
    apply optionLoop_spec _ _ hFuel
    · exact fun i => congrArg (opts[·]?) (Nat.zero_add i)
    · have hMax := getOffset_le offCtl
      have hSub : (getOffset offCtl - 5).toNat = (getOffset offCtl).toNat - 5 :=
        toNat_sub_length (Nat.le_of_not_le (mt hLe.mpr hMin))
      have hFour : (4 : UInt8).toNat = 4 := rfl
      rw [UInt8.toNat_mul, hSub, hFour, hLen]
      exact Nat.mod_eq_of_lt (by omega)

----
-- Malformed Options
----

/-
  Well-formed options lead from the first bytes to the last
  ones. The numbers are the segment sizes among them.
-/
inductive OptionsUpTo :
    List UInt8 → List UInt16 → List UInt8 → Prop where
| start
    {opts : List UInt8} :
    OptionsUpTo opts [] opts
| nop
    {rest bad : List UInt8} {sizes : List UInt16} :
    OptionsUpTo rest sizes bad → OptionsUpTo (1 :: rest) sizes bad
| mss
    {hi lo : UInt8} {rest bad : List UInt8} {sizes : List UInt16} :
    OptionsUpTo rest sizes bad →
    OptionsUpTo (2 :: 4 :: hi :: lo :: rest) (((hi.toUInt16 <<< 8) ||| lo.toUInt16) :: sizes) bad
| other
    {kind length : UInt8} {value rest bad : List UInt8} {sizes : List UInt16} :
    kind ≠ 0 → kind ≠ 1 → kind ≠ 2 → length.toNat = value.length + 2 →
    OptionsUpTo rest sizes bad → OptionsUpTo (kind :: length :: (value ++ rest)) sizes bad

/- The bytes begin with an option that is refused. -/
inductive MalformedOption : List UInt8 → Prop where
| noLength
    {kind : UInt8} :
    kind ≠ 0 → kind ≠ 1 → MalformedOption [kind]
| wrongLength
    {kind length : UInt8} {value : List UInt8} :
    kind ≠ 0 → kind ≠ 1 → WrongLength kind length value →
    MalformedOption (kind :: length :: value)

/- The last size in front of a malformed option is kept. -/
theorem OptionsUpTo.optionParse_eq
    (h : OptionsUpTo opts sizes bad) (hBad : MalformedOption bad)
    (hFuel : opts.length ≤ fuel) :
    optionParse fuel mss opts = (sizes.getLastD mss, false) := by
  induction h generalizing fuel mss with
  | start =>
    cases hBad with
    | noLength hEol hNop =>
      cases fuel with
      | zero => cases hFuel
      | succ fuel => simp [optionParse, hEol, hNop]
    | wrongLength hEol hNop hWrong =>
      cases fuel with
      | zero => cases hFuel
      | succ fuel => exact optionParse_wrong hEol hNop hWrong
  | nop hRest ih =>
    cases fuel with
    | zero => cases hFuel
    | succ fuel =>
      rw [optionParse_nop]
      exact ih hBad (Nat.le_of_succ_le_succ hFuel)
  | @mss hi lo rest bad sizes hRest ih =>
    cases fuel with
    | zero => cases hFuel
    | succ fuel =>
      simp only [List.length_cons] at hFuel
      have hRight (value : List UInt8) : ¬WrongLength 2 4 (hi :: lo :: value) := by
        simp [WrongLength]
      rw [optionParse_right (by decide) (by decide) (hRight _), if_pos rfl, List.getLastD_cons]
      have hRest : rest.length ≤ fuel := by omega
      exact ih hBad hRest
  | other hEol hNop hKind hLength hRest ih =>
    cases fuel with
    | zero => cases hFuel
    | succ fuel =>
      simp only [List.length_cons, List.length_append] at hFuel
      rw [optionParse_right hEol hNop, if_neg hKind, hLength, Nat.add_sub_cancel, List.drop_left]
      · exact ih hBad (by omega)
      · simp [WrongLength, hLength, hKind]

/- What is refused begins with well-formed options. -/
theorem exists_malformed
    (hParse : (optionParse fuel mss opts).2 = false) :
    ∃ sizes bad, OptionsUpTo opts sizes bad ∧ MalformedOption bad := by
  induction fuel generalizing mss opts with
  | zero => cases hParse
  | succ fuel ih =>
    rcases opts with _ | ⟨kind, rest⟩
    · cases hParse
    by_cases hEol : kind = 0
    · simp [optionParse, hEol] at hParse
    by_cases hNop : kind = 1
    · subst hNop
      rw [optionParse_nop] at hParse
      rcases ih hParse with ⟨sizes, bad, hUpTo, hBad⟩
      exact ⟨sizes, bad, .nop hUpTo, hBad⟩
    rcases rest with _ | ⟨length, value⟩
    · exact ⟨[], [kind], .start, .noLength hEol hNop⟩
    by_cases hWrong : WrongLength kind length value
    · exact ⟨[], _, .start, .wrongLength hEol hNop hWrong⟩
    rw [optionParse_right hEol hNop hWrong] at hParse
    rcases ih hParse with ⟨sizes, bad, hUpTo, hBad⟩
    have hRight := hWrong
    simp only [WrongLength, not_or] at hRight
    by_cases hKind : kind = 2
    · have hSize : length = 4 := by
        by_contra hNot
        exact hRight.2.2 ⟨hKind, hNot⟩
      subst hKind hSize
      have hNat : (4 : UInt8).toNat = 4 := rfl
      rw [hNat] at hRight hUpTo
      rcases value with _ | ⟨hi, _ | ⟨lo, rest⟩⟩
      · exact absurd hRight.2.1 (by simp)
      · exact absurd hRight.2.1 (by simp)
      · exact ⟨_, bad, .mss hUpTo, hBad⟩
    · refine ⟨sizes, bad, ?_, hBad⟩
      rw [← List.take_append_drop (length.toNat - 2) value]
      apply OptionsUpTo.other hEol hNop hKind _ hUpTo
      rw [List.length_take]
      omega

/-
  The parser ends without leaving the field. It refuses a header
  without an effect exactly if the last size in front of the
  malformed option, where there is one, is the connection's.
-/
theorem optionParseHdr_keeps_iff
    (t : Tcb) (offCtl : UInt16) (opts : List UInt8) (fuel : Nat)
    (hLen : opts.length = ((getOffset offCtl).toNat - 5) * 4)
    (hFuel : opts.length ≤ fuel) :
    ∃ t' ok, optionParseHdr t offCtl opts (fuel + 1) = some (t', ok) ∧ ((ok = false → t' = t) ↔
        ∀ sizes bad, OptionsUpTo opts sizes bad →
          MalformedOption bad → sizes.getLastD t.mss = t.mss) := by
  refine ⟨_, _, optionParseHdr_eq hLen hFuel, ?_, ?_⟩
  · intro hKeeps sizes bad hUpTo hBad
    rw [hUpTo.optionParse_eq hBad hFuel] at hKeeps
    exact congrArg Tcb.mss (hKeeps rfl)
  · intro hSizes hParse
    rcases exists_malformed hParse with ⟨sizes, bad, hUpTo, hBad⟩
    rw [hUpTo.optionParse_eq hBad hFuel, hSizes sizes bad hUpTo hBad]

theorem optionParseHdr_keeps_iff_sample :
    ∃ t' ok, optionParseHdr Tcb.init 0x6000 [2, 3, 1, 0] 5 = some (t', ok) ∧
      ((ok = false → t' = Tcb.init) ↔ ∀ sizes bad, OptionsUpTo [2, 3, 1, 0] sizes bad →
          MalformedOption bad → sizes.getLastD 0 = 0) :=
  optionParseHdr_keeps_iff Tcb.init 0x6000 [2, 3, 1, 0] 4 rfl (by decide)

/- A size is stored and the option after it is refused. -/
theorem not_optionParseHdr_keeps :
    ∃ t', optionParseHdr Tcb.init 0x7000
        [2, 4, 1, 0, 5, 0, 0, 0] 9 = some (t', false) ∧ t' ≠ Tcb.init :=
  ⟨{ Tcb.init with mss := 256 }, rfl, fun h =>
    absurd (congrArg Tcb.mss h) (by decide)⟩

end Riot
