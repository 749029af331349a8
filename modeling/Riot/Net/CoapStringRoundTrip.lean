import Riot.Net.CoapStrings

/-
  Reading the text of several options of a number.
-/

open ByteBuffer Segments

----
-- Reading the Options of a Message
----

namespace Riot

/-
  The options that a read from the first of them on goes over:
  those that repeat the number.
-/
def stringRun : Bool → List CoapOption → List CoapOption
| _, [] => []
| first, o :: os =>
  if first = true ∨ o.delta % 2 ^ 16 = 0 then
    o :: stringRun false os
  else
    []

/- The text of a list of options. -/
def textOf
    (separator : UInt8) (os : List CoapOption) : List UInt8 :=
  joined separator (os.map CoapOption.value)

variable {m : CoapMessage} {observe pos fuel maxLen tpos left : Nat}
variable {first : Bool} {separator : UInt8} {target : List UInt8}
variable {o : CoapOption} {os os₁ os₂ : List CoapOption}

@[simp]
theorem textOf_nil :
    textOf separator [] = [] :=
  rfl

@[simp]
theorem textOf_cons :
    textOf separator (o :: os) = separator :: (o.value ++ textOf separator os) := by
  rw [textOf, List.map_cons, joined_cons, textOf]

/- The value of an option of the message. -/
theorem readBytes_value
    (hSplit : m.options = os₁ ++ o :: os₂)
    (hPos : pos = sizeofCoapHdr + m.token.length + (encodeOptions os₁).length) :
    readBytes (m.context observe).hdr (pos + o.header.length) o.value.length = some o.value := by
  have hDrop := CoapMessage.drop_of_split hSplit
  have hEnd := CoapMessage.end_of_split hSplit
  have hOptionsEnd := m.optionsEnd_le
  have hPayload := m.payloadStart_le
  rw [CoapOption.size] at hEnd
  rw [CoapOption.encode, List.append_assoc, ← hPos] at hDrop
  refine readBytes_of_drop (drop_of_drop hDrop) ?_
  change _ ≤ m.encode.length
  omega

theorem coapIterateOption_end :
    coapIterateOption (m.context observe) m.optionsEnd first = some none := by
  rw [coapIterateOption, CoapMessage.parseOption_context_end]
  rfl

theorem coapIterateOption_context
    (hSplit : m.options = os₁ ++ o :: os₂)
    (hPos : pos = sizeofCoapHdr + m.token.length + (encodeOptions os₁).length) :
    coapIterateOption (m.context observe) pos first = if first = true ∨ o.delta % 2 ^ 16 = 0 then
        some (some (pos + o.header.length, (o.value.length : Int), pos + o.size))
      else some none := by
  have hNext :
      (((pos + o.header.length : Nat) : Int) + (o.value.length : Int)).toNat = pos + o.size := by
    rw [CoapOption.size]
    omega
  rw [coapIterateOption, hPos, CoapMessage.parseOption_context hSplit, ← hPos, Option.bind_eq_bind,
    Option.bind_some]
  dsimp only
  rw [hNext]

variable (observe maxLen left) in
/- One turn of the loop at an option of the run. -/
theorem getParts_next
    (hSplit : m.options = os₁ ++ o :: os₂)
    (hPos : pos = sizeofCoapHdr + m.token.length + (encodeOptions os₁).length)
    (hRun : first = true ∨ o.delta % 2 ^ 16 = 0) :
    getParts (m.context observe) separator maxLen (fuel + 1) pos first target tpos left =
      if left < o.value.length + 1 then some (.error .enospc, target)
      else (writeBytes target tpos [separator]).bind (fun t =>
          (writeBytes t (tpos + 1) o.value).bind (fun t =>
            getParts (m.context observe) separator maxLen fuel
              (pos + o.size) false t (tpos + 1 + o.value.length)
              (left - (o.value.length + 1)))) := by
  have hIterate : coapIterateOption (m.context observe) pos first = _ :=
    coapIterateOption_context hSplit hPos
  have hLe := o.length_le
  unfold maxField at hLe
  have hNeeded : (((o.value.length : Int) + 1) % 2 ^ 32).toNat = o.value.length + 1 := by
    omega
  have hCopied : ((o.value.length : Int) % 2 ^ 32).toNat = o.value.length := by
    omega
  rw [if_pos hRun] at hIterate
  simp only [getParts, hIterate, Option.bind_eq_bind, Option.bind_some, hNeeded, hCopied,
    readBytes_value hSplit hPos]

/-
  Reading goes over the run of options and gives their text,
  or an error where it does not fit, by induction on the
  options ahead.
-/
theorem getParts_context
    (hSplit : m.options = os₁ ++ os₂)
    (hPos : pos = sizeofCoapHdr + m.token.length + (encodeOptions os₁).length)
    (hFuel : os₂.length < fuel) :
    ((textOf separator (stringRun first os₂)).length ≤ left →
      getParts (m.context observe) separator maxLen fuel pos first target tpos left =
        (writeBytes target tpos (textOf separator (stringRun first os₂) ++ [0])).map (fun t =>
              (.ok (Int.bmod
                (maxLen - (left - (textOf separator (stringRun first os₂)).length) : Nat)
                (2 ^ 32)), t))) ∧ (left < (textOf separator (stringRun first os₂)).length →
      ∀ r t, getParts (m.context observe) separator maxLen fuel pos
          first target tpos left ≠ some (.ok r, t)) := by
  -- where the run ends, the text is closed
  have hClose : ∀ (p f : Nat) (b : Bool) (target : List UInt8)
        (tpos left : Nat), coapIterateOption (m.context observe) p b = some none →
        getParts (m.context observe) separator maxLen (f + 1) p b
            target tpos left =
          (writeBytes target tpos ([] ++ [0])).map
            (fun t =>
              (.ok (Int.bmod (maxLen - (left - 0) : Nat) (2 ^ 32)), t)) := by
    intro p f b target tpos left hNone
    rw [getParts, hNone, Option.bind_eq_bind, Option.bind_some, List.nil_append, Nat.sub_zero]
    cases writeBytes target tpos [0] <;> rfl
  induction os₂ generalizing os₁ pos fuel first target tpos left with
  | nil =>
    obtain ⟨fuel, rfl⟩ : ∃ f, fuel = f + 1 := ⟨fuel - 1, by omega⟩
    have hLast : pos = m.optionsEnd := by
      rw [hPos, CoapMessage.optionsEnd, hSplit, List.append_nil]
    rw [stringRun, textOf_nil, List.length_nil]
    refine ⟨fun _ => ?_, fun h => absurd h (Nat.not_lt_zero _)⟩
    refine hClose pos fuel first target tpos left ?_
    rw [hLast]
    exact coapIterateOption_end
  | cons o os₂ ih =>
    obtain ⟨fuel, rfl⟩ : ∃ f, fuel = f + 1 := ⟨fuel - 1, by omega⟩
    rw [List.length_cons] at hFuel
    by_cases hRun : first = true ∨ o.delta % 2 ^ 16 = 0
    · rw [stringRun, if_pos hRun, textOf_cons, getParts_next observe maxLen left hSplit hPos hRun]
      rcases split_snoc hSplit hPos with ⟨hSplit', hPos'⟩
      have hRest := fun t p l =>
          @ih (pos + o.size) fuel p l false t (os₁ ++ [o]) hSplit' hPos' (by omega)
      generalize textOf separator (stringRun false os₂) = text at hRest
      have hLength :
          (separator :: (o.value ++ text)).length = o.value.length + 1 + text.length := by
        rw [List.length_cons, List.length_append]
        omega
      rw [hLength]
      constructor
      · intro hFits
        have hBytes : writeBytes target tpos
                (separator :: (o.value ++ text) ++ [0]) =
              (writeBytes target tpos [separator]).bind
                (fun t =>
                  (writeBytes t (tpos + 1) o.value).bind
                    (fun t =>
                      writeBytes t (tpos + 1 + o.value.length) (text ++ [0]))) := by
          have hParts : separator :: (o.value ++ text) ++ [0] =
                [separator] ++ (o.value ++ (text ++ [0])) := by
            simp
          rw [hParts, ← writeBytes_bind]
          simp only [← writeBytes_bind, List.length_singleton]
        have hLeft : left - (o.value.length + 1) - text.length =
              left - (o.value.length + 1 + text.length) := by
          omega
        rw [if_neg (by omega), hBytes]
        cases writeBytes target tpos [separator] with
        | none => rfl
        | some t =>
          rw [Option.bind_some, Option.bind_some]
          cases writeBytes t (tpos + 1) o.value with
          | none => rfl
          | some t =>
            rw [Option.bind_some, Option.bind_some, (hRest _ _ _).1 (by omega), hLeft]
      · intro hOver r t hResult
        by_cases hNow : left < o.value.length + 1
        · rw [if_pos hNow] at hResult
          cases hResult
        · rw [if_neg hNow] at hResult
          rcases Option.bind_eq_some_iff.mp hResult with ⟨t₁, _, hResult⟩
          rcases Option.bind_eq_some_iff.mp hResult with ⟨t₂, _, hResult⟩
          exact (hRest _ _ _).2 (by omega) r t hResult
    · have hIterate : coapIterateOption (m.context observe) pos first = _ :=
        coapIterateOption_context hSplit hPos
      rw [if_neg hRun] at hIterate
      rw [stringRun, if_neg hRun, textOf_nil, List.length_nil]
      refine ⟨fun _ => ?_, fun h => absurd h (Nat.not_lt_zero _)⟩
      exact hClose pos fuel first target tpos left hIterate

----
-- Reading a Text Back
----

/- With a large enough buffer the read gives the text. -/
def StringReadsBack
    (pkt : CoapPkt) (n : UInt16) (s : List UInt8) : Prop :=
  ∀ (target : List UInt8) (maxLen : Nat), s.length < maxLen → maxLen < 2 ^ 32 →
    maxLen ≤ target.length → ∃ target', coapOptGetString pkt n target maxLen slash =
        some (.ok (Int.bmod (s.length + 1 : Nat) (2 ^ 32)), target') ∧
      target'.take (s.length + 1) = s ++ [0]

variable {m : CoapMessage} {observe pos maxLen : Nat} {n : UInt16}
variable {s text target target' : List UInt8} {os os₁ os₂ : List CoapOption}

theorem length_le_encodeOptions
    (os : List CoapOption) :
    os.length ≤ (encodeOptions os).length := by
  induction os with
  | nil => exact le_rfl
  | cons o os ih =>
    have hSize := o.size_pos
    rw [encodeOptions_cons, List.length_cons, List.length_append, CoapOption.length_encode]
    omega

/- A read from the first option of the number. -/
theorem coapOptGetString_found
    (target : List UInt8)
    (hFind : coapFindOption (m.context observe) n.toNat = some pos)
    (hSplit : m.options = os₁ ++ os₂)
    (hPos : pos = sizeofCoapHdr + m.token.length + (encodeOptions os₁).length)
    (hRoom : 1 < maxLen) :
    ((textOf slash (stringRun true os₂)).length < maxLen →
      coapOptGetString (m.context observe) n target maxLen slash = (writeBytes target 0
          (textOf slash (stringRun true os₂) ++ [0])).map (fun t =>
              (.ok (Int.bmod
                ((textOf slash (stringRun true os₂)).length + 1 : Nat) (2 ^ 32)), t))) ∧
    (maxLen ≤ (textOf slash (stringRun true os₂)).length →
      ∀ r t, coapOptGetString (m.context observe) n target maxLen slash ≠ some (.ok r, t)) := by
  have hFuel : os₂.length < (m.context observe).hdr.length + 2 := by
    have hCount := length_le_encodeOptions os₂
    have hOptionsEnd := m.optionsEnd_le
    have hPayload := m.payloadStart_le
    rw [CoapMessage.optionsEnd, hSplit, encodeOptions_append, List.length_append] at hOptionsEnd
    change os₂.length < m.encode.length + 2
    omega
  have hLoop := fun l =>
      @getParts_context m observe pos
        ((m.context observe).hdr.length + 2) maxLen 0 l true
        slash target os₁ os₂ hSplit hPos hFuel
  have hStart : coapOptGetString (m.context observe) n target maxLen
          slash =
        getParts (m.context observe) slash maxLen
          ((m.context observe).hdr.length + 2) pos true target 0
          (maxLen - 1) := by
    rw [coapOptGetString, if_neg (by omega), hFind]
  rw [hStart]
  constructor
  · intro hFits
    have hCount : maxLen - (maxLen - 1 - (textOf slash (stringRun true os₂)).length) =
          (textOf slash (stringRun true os₂)).length + 1 := by
      omega
    rw [(hLoop (maxLen - 1)).1 (by omega), hCount]
  · intro hOver
    exact (hLoop (maxLen - 1)).2 (by omega)

/- A NUL marks where a text ends. -/
theorem prefix_of_take
    {rest : List UInt8} (hText : 0 ∉ s)
    (hTake : (text ++ 0 :: rest).take (s.length + 1) = s ++ [0]) :
    s <+: text := by
  by_cases hShort : text.length < s.length
  · have hCell : (s ++ [0])[text.length]? = some 0 := by
      rw [← hTake, List.getElem?_take_of_lt (by omega),
        List.getElem?_append_right le_rfl, Nat.sub_self]
      rfl
    rw [List.getElem?_append_left hShort] at hCell
    exact absurd (List.mem_of_getElem? hCell) hText
  · have hStart := congrArg (List.take s.length) hTake
    rw [List.take_take, Nat.min_eq_left (Nat.le_succ _), List.take_left,
      List.take_append_of_le_length (Nat.not_lt.mp hShort)]
      at hStart
    rw [← hStart]
    exact List.take_prefix _ _

theorem text_eq_of_take
    {rest : List UInt8} (hText : 0 ∉ s) (hLe : text.length ≤ s.length)
    (hTake : (text ++ 0 :: rest).take (s.length + 1) = s ++ [0]) :
    text = s :=
  ((prefix_of_take hText hTake).eq_of_length_le hLe).symm

/- The text is read back if it is the text of the options. -/
theorem readsBack_found_iff
    (hText : 0 ∉ s) (hSome : 0 < s.length) (hMemory : s.length + 1 < 2 ^ 32)
    (hFind : coapFindOption (m.context observe) n.toNat = some pos)
    (hSplit : m.options = os₁ ++ os₂)
    (hPos : pos = sizeofCoapHdr + m.token.length + (encodeOptions os₁).length) :
    StringReadsBack (m.context observe) n s ↔ textOf slash (stringRun true os₂) = s := by
  have hRead := fun t l =>
      @coapOptGetString_found m observe pos l n os₁ os₂ t hFind hSplit hPos
  generalize textOf slash (stringRun true os₂) = text at hRead
  constructor
  · intro hBack
    rcases hBack (List.replicate (s.length + 1) 0)
        (s.length + 1) (Nat.lt_succ_self _) hMemory
        (List.length_replicate).ge with ⟨target', hOk, hTake⟩
    have hCase := hRead (List.replicate (s.length + 1) 0) (s.length + 1) (by omega)
    by_cases hFits : text.length < s.length + 1
    · rw [hCase.1 hFits] at hOk
      rcases Option.map_eq_some_iff.mp hOk with ⟨t, hWrite, hPair⟩
      have hSame : t = target' := congrArg Prod.snd hPair
      rcases writeBytes_eq_some hWrite with ⟨_, hBytes⟩
      rw [List.take_zero, List.nil_append] at hBytes
      rw [← hSame, hBytes, List.append_assoc] at hTake
      exact text_eq_of_take hText (by omega) hTake
    · exact absurd hOk (hCase.2 (by omega) _ _)
  · rintro rfl
    intro target maxLen hLong _ hIn
    have hCase := (hRead target maxLen (by omega)).1 hLong
    have hFits : 0 + (text ++ [0]).length ≤ target.length := by
      rw [List.length_append, List.length_singleton]
      omega
    have hWrite : writeBytes target 0 (text ++ [0]) =
          some (target.take 0 ++ (text ++ [0]) ++ target.drop (0 + (text ++ [0]).length)) :=
      if_pos hFits
    rw [hWrite] at hCase
    refine ⟨_, hCase, ?_⟩
    have hLength : (text ++ [0]).length = text.length + 1 := by
      rw [List.length_append, List.length_singleton]
    rw [List.take_zero, List.nil_append, ← hLength, List.take_left]

/- Without an option of the number the root is read. -/
theorem coapOptGetString_none
    (hFind : coapFindOption (m.context observe) n.toNat = none)
    (hRoom : 1 < maxLen) :
    coapOptGetString (m.context observe) n target maxLen slash =
      (writeBytes target 0 [slash, 0]).map (fun t => (.ok 2, t)) := by
  have hBoth : writeBytes target 0 [slash, 0] =
        (writeBytes target 0 [slash]).bind (fun t => writeBytes t (0 + 1) [0]) :=
    (writeBytes_bind (a := [slash]) (b := [0])).symm
  rw [coapOptGetString, if_neg (by omega), hFind, hBoth]
  cases writeBytes target 0 [slash] with
  | none => rfl
  | some t =>
    rw [Option.bind_eq_bind, Option.bind_some, Option.bind_some]
    cases writeBytes t 1 [0] <;> rfl

theorem readsBack_none_iff
    (hText : 0 ∉ s) (hSome : 0 < s.length) (hMemory : s.length + 1 < 2 ^ 32)
    (hFind : coapFindOption (m.context observe) n.toNat = none) :
    StringReadsBack (m.context observe) n s ↔ s = [slash] := by
  constructor
  · intro hBack
    rcases hBack (List.replicate (s.length + 1) 0)
        (s.length + 1) (Nat.lt_succ_self _) hMemory
        (List.length_replicate).ge with ⟨target', hOk, hTake⟩
    rw [coapOptGetString_none hFind (by omega)] at hOk
    rcases Option.map_eq_some_iff.mp hOk with ⟨t, hWrite, hPair⟩
    have hSame : t = target' := congrArg Prod.snd hPair
    rcases writeBytes_eq_some hWrite with ⟨_, hBytes⟩
    rw [List.take_zero, List.nil_append] at hBytes
    have hRoot : [slash].length ≤ s.length := hSome
    rw [← hSame, hBytes] at hTake
    exact (text_eq_of_take hText hRoot hTake).symm
  · rintro rfl
    intro target maxLen hLong _ hIn
    rw [List.length_singleton] at hLong
    have hFits : 0 + [slash, 0].length ≤ target.length := by
      simp only [List.length_cons, List.length_nil]
      omega
    rw [coapOptGetString_none hFind hLong, writeBytes, if_pos hFits]
    exact ⟨_, rfl, rfl⟩

----
-- What Can Be Read
----

variable {pkt : CoapPkt} {buf target target' : List UInt8}
variable {val pos pktEnd fuel maxLen tpos left q : Nat} {r : Int} {first : Bool}
variable {separator : UInt8}

/- A field is short, or it is an error. -/
theorem decodeValue_range
    (hVal : val < 16) (hDecode : decodeValue buf val pos pktEnd = some (r, q)) :
    -77 ≤ r ∧ r ≠ -1 ∧ r ≤ maxField := by
  unfold maxField
  rcases Nat.lt_or_ge val 13 with hSmall | hLarge
  · have hPlain : decodeValue buf val pos pktEnd = some ((val : Int), pos) := by
      unfold decodeValue
      split <;> first | omega | rfl
    rw [hPlain, Option.some.injEq, Prod.mk.injEq] at hDecode
    omega
  · have hThree : val = 13 ∨ val = 14 ∨ val = 15 := by
      omega
    rcases hThree with rfl | rfl | rfl
    · by_cases hLeft : pktEnd - pos < 1
      · simp only [decodeValue, if_pos hLeft, CoapError.errno,
          Option.some.injEq, Prod.mk.injEq] at hDecode
        omega
      · simp only [decodeValue, if_neg hLeft] at hDecode
        rcases Option.bind_eq_some_iff.mp hDecode with ⟨b, _, hResult⟩
        have hb := b.toNat_lt
        rw [Option.some.injEq, Prod.mk.injEq] at hResult
        omega
    · by_cases hLeft : pktEnd - pos < 2
      · simp only [decodeValue, if_pos hLeft, CoapError.errno,
          Option.some.injEq, Prod.mk.injEq] at hDecode
        omega
      · simp only [decodeValue, if_neg hLeft] at hDecode
        rcases Option.bind_eq_some_iff.mp hDecode with ⟨bs, hRead, hResult⟩
        obtain ⟨b, c, rfl⟩ : ∃ b c, bs = [b, c] := List.length_eq_two.mp (length_of_readBytes hRead)
        have hb := b.toNat_lt
        have hc := c.toNat_lt
        rw [Option.some.injEq, Prod.mk.injEq] at hResult
        simp only [fromNetwork, List.foldl_cons, List.foldl_nil] at hResult
        omega
    · simp only [decodeValue, CoapError.errno, Option.some.injEq, Prod.mk.injEq] at hDecode
      omega

theorem coapIterateOption_range
    {partStart optPos : Nat} {optLen : Int}
    (hNext : coapIterateOption pkt pos first = some (some (partStart, optLen, optPos))) :
    -77 ≤ optLen ∧ optLen ≠ -1 ∧ optLen ≤ maxField := by
  rcases Option.bind_eq_some_iff.mp hNext with ⟨parsed, hParsed, hNext⟩
  cases parsed with
  | none => cases hNext
  | some p =>
    dsimp only at hNext
    by_cases hRun : first = true ∨ p.delta = 0
    · rw [if_pos hRun, Option.some.injEq, Option.some.injEq, Prod.mk.injEq, Prod.mk.injEq] at hNext
      rw [← hNext.2.1]
      -- the length is what the second field decodes to
      unfold parseOption at hParsed
      by_cases hEnd : pos ≥ pkt.payload
      · rw [if_pos hEnd] at hParsed
        cases hParsed
      rw [if_neg hEnd] at hParsed
      rcases Option.bind_eq_some_iff.mp hParsed with ⟨b, _, hParsed⟩
      by_cases hMarker : pos + 1 = pkt.payload ∧ b = 0xff
      · rw [if_pos hMarker] at hParsed
        cases hParsed
      rw [if_neg hMarker] at hParsed
      rcases Option.bind_eq_some_iff.mp hParsed with ⟨⟨delta, q⟩, _, hParsed⟩
      rcases Option.bind_eq_some_iff.mp hParsed with ⟨⟨len, q'⟩, hLen, hResult⟩
      have hNybble : b.toNat &&& 0xf < 16 := by
        rw [Nat.and_two_pow_sub_one_eq_mod _ 4]
        omega
      rw [Option.some.injEq, Option.some.injEq] at hResult
      rw [← hResult]
      exact decodeValue_range hNybble hLen
    · rw [if_neg hRun] at hNext
      cases hNext

/-
  Whatever the packet holds, only a text of short parts is
  read from it, by induction on the fuel.
-/
theorem getParts_pieces
    (hLeft : left < 2 ^ 31)
    (hRead : getParts pkt separator maxLen fuel pos first target tpos
        left = some (.ok r, target')) :
    ∃ parts rest, (∀ part ∈ parts, part.length ≤ maxField) ∧
      target' = target.take tpos ++ (joined separator parts ++ 0 :: rest) := by
  induction fuel generalizing pos first target tpos left with
  | zero => cases hRead
  | succ fuel ih =>
    rw [getParts] at hRead
    rcases Option.bind_eq_some_iff.mp hRead with ⟨next, hNext, hRead⟩
    cases next with
    | none =>
      rcases Option.bind_eq_some_iff.mp hRead with ⟨t, hWrite, hResult⟩
      rw [Option.some.injEq, Prod.mk.injEq] at hResult
      rw [← hResult.2, (writeBytes_eq_some hWrite).2]
      refine ⟨[], target.drop (tpos + [(0 : UInt8)].length), by simp, ?_⟩
      rw [List.append_assoc, joined_nil, List.nil_append]
      rfl
    | some p =>
      rcases p with ⟨partStart, optLen, optPos⟩
      have hRange := coapIterateOption_range hNext
      unfold maxField at hRange
      dsimp only at hRead
      by_cases hFull : left < ((optLen + 1) % 2 ^ 32).toNat
      · rw [if_pos hFull] at hRead
        cases hRead
      rw [if_neg hFull] at hRead
      rcases Option.bind_eq_some_iff.mp hRead with ⟨t₁, hFirst, hRead⟩
      rcases Option.bind_eq_some_iff.mp hRead with ⟨part, hPart, hRead⟩
      rcases Option.bind_eq_some_iff.mp hRead with ⟨t₂, hSecond, hRest⟩
      have hLength := length_of_readBytes hPart
      have hShort : part.length ≤ maxField := by
        unfold maxField
        rw [hLength]
        omega
      rcases ih (by omega) hRest with ⟨parts, rest, hParts, hText⟩
      have hBoth : writeBytes target tpos ([separator] ++ part) = some t₂ := by
        rw [← writeBytes_bind, hFirst, Option.bind_some]
        exact hSecond
      rcases writeBytes_eq_some hBoth with ⟨hFits, hBytes⟩
      have hTake :
          t₂.take (tpos + 1 + part.length) = target.take tpos ++ ([separator] ++ part) := by
        have hWritten :
            (target.take tpos ++ ([separator] ++ part)).length = tpos + 1 + part.length := by
          rw [List.length_append] at hFits ⊢
          rw [List.length_take, List.length_append]
          rw [List.length_singleton] at hFits ⊢
          omega
        rw [hBytes, ← hWritten, List.take_left]
      refine ⟨part :: parts, rest, ?_, ?_⟩
      · intro p hp
        rcases List.mem_cons.mp hp with rfl | hp
        · exact hShort
        · exact hParts p hp
      · simp only [hText, hTake, joined_cons, List.append_assoc, List.cons_append, List.nil_append]

/- Only a text with short segments is ever read back. -/
theorem short_of_readsBack
    {n : UInt16} {segs : List (List UInt8)}
    (hSegs : ∀ seg ∈ segs, slash ∉ seg ∧ 0 ∉ seg) (hSome : segs ≠ [])
    (hMemory : 2 * ((joined slash segs).length + 1) < 2 ^ 32)
    (hBack : StringReadsBack pkt n (joined slash segs)) :
    ∀ seg ∈ segs, seg.length ≤ maxField := by
  have hNul := notMem_joined_zero hSegs
  generalize hText : joined slash segs = s at hBack hMemory hNul
  have hPos : 0 < s.length := by
    cases segs with
    | nil => exact absurd rfl hSome
    | cons seg segs =>
      rw [← hText, joined_cons, List.length_cons]
      omega
  rcases hBack (List.replicate (s.length + 1) 0) (s.length + 1)
      (Nat.lt_succ_self _) (by omega)
      (List.length_replicate).ge with ⟨target', hOk, hTake⟩
  -- what was read starts with the segments and a NUL
  have hParts : ∃ parts rest, (∀ part ∈ parts, part.length ≤ maxField) ∧
        target' = joined slash parts ++ 0 :: rest := by
    unfold coapOptGetString at hOk
    rw [if_neg (by omega)] at hOk
    cases hFind : coapFindOption pkt n.toNat with
    | none =>
      rw [hFind] at hOk
      dsimp only at hOk
      rcases Option.bind_eq_some_iff.mp hOk with ⟨t₁, hFirst, hOk⟩
      rcases Option.bind_eq_some_iff.mp hOk with ⟨t₂, hSecond, hResult⟩
      rw [Option.some.injEq, Prod.mk.injEq] at hResult
      have hBoth : writeBytes (List.replicate (s.length + 1) 0) 0 ([slash] ++ [0]) = some t₂ := by
        rw [← writeBytes_bind, hFirst, Option.bind_some]
        exact hSecond
      have hBytes := (writeBytes_eq_some hBoth).2
      rw [hResult.2, List.take_zero, List.nil_append] at hBytes
      exact ⟨[[]], _, by simp, hBytes⟩
    | some pos =>
      rw [hFind] at hOk
      rcases getParts_pieces (by omega) hOk with ⟨parts, rest, hShort, hTarget⟩
      exact ⟨parts, rest, hShort, hTarget⟩
  rcases hParts with ⟨parts, rest, hShort, hTarget⟩
  rw [hTarget] at hTake
  have hStart : joined slash segs <+: [] ++ joined slash parts := by
    rw [hText]
    exact prefix_of_take hNul hTake
  exact
    length_le_of_joined_prefix (fun seg hSeg => (hSegs seg hSeg).1) (Nat.zero_le _) hShort hStart

end Riot
