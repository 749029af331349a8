import Riot.Net.CoapMessage

/-
  The parser accepts exactly the encodings of messages with
  few enough options, and what it finds in them.
-/

open ByteBuffer

----
-- One Turn of the Loop
----

namespace Riot

/- The bytes of an option before its value. -/
def fieldHeader
    (d l : Nat) : List UInt8 :=
  optionByte d l :: (fieldExtension d ++ fieldExtension l)

/- The variables after an option. -/
def OptionScan.next
    (s : OptionScan) (d l : Nat) : OptionScan :=
  { s with
    pktPos := s.pktPos + (fieldHeader d l).length + l
    optionNr := (s.optionNr + d) % 2 ^ 32
    options :=
      if d = 0 then s.options
      else s.options ++ [⟨(s.optionNr + d) % 2 ^ 16, s.pktPos % 2 ^ 16⟩] }

/- The variables after the payload marker. -/
def OptionScan.marked
    (s : OptionScan) : OptionScan :=
  { s with pktPos := s.pktPos + 1, payload := some (s.pktPos + 1) }

section

variable {cfg : NanocoapConfig} {buf rest : List UInt8} {s s' : OptionScan}
variable {fuel d l pos hdrEnd : Nat}

theorem fieldHeader_length_pos :
    0 < (fieldHeader d l).length := by
  simp [fieldHeader]

/- The fields of an option header in the buffer. -/
theorem decode_fieldHeader
    (hd : d ≤ maxField) (hl : l ≤ maxField)
    (hDrop : buf.drop pos = fieldHeader d l ++ rest)
    (hEnd : pos + (fieldHeader d l).length ≤ hdrEnd) (hLen : hdrEnd ≤ buf.length) :
    buf[pos]? = some (optionByte d l) ∧ decodeValue buf (fieldNybble d) (pos + 1) hdrEnd =
      some ((d : Int), pos + 1 + (fieldExtension d).length) ∧
    decodeValue buf (fieldNybble l) (pos + 1 + (fieldExtension d).length) hdrEnd =
      some ((l : Int), pos + (fieldHeader d l).length) := by
  have hHeader :
      (fieldHeader d l).length = 1 + (fieldExtension d).length + (fieldExtension l).length := by
    simp only [fieldHeader, List.length_cons, List.length_append]
    omega
  rw [fieldHeader, List.cons_append, List.append_assoc] at hDrop
  have hDelta : buf.drop (pos + 1) = fieldExtension d ++ (fieldExtension l ++ rest) :=
    drop_succ_of_drop hDrop
  have hLength := drop_of_drop hDelta
  refine ⟨getElem?_of_drop hDrop, ?_, ?_⟩
  · exact decodeValue_extension hd hDelta (by omega) (by omega)
  · have hDecode :
        decodeValue buf (fieldNybble l) (pos + 1 + (fieldExtension d).length) hdrEnd = _ :=
      decodeValue_extension hl hLength (by omega) (by omega)
    have hPos : pos + (fieldHeader d l).length =
          pos + 1 + (fieldExtension d).length + (fieldExtension l).length := by
      omega
    rw [hDecode, hPos]

/- At the marker the loop ends. -/
theorem scanOptions_marker
    (hDrop : buf.drop s.pktPos = 0xff :: rest) :
    scanOptions cfg buf (fuel + 1) s = some (.ok s.marked) := by
  have hByte := getElem?_of_drop hDrop
  have hPos : s.pktPos < buf.length := by
    have hLen := congrArg List.length hDrop
    rw [List.length_drop, List.length_cons] at hLen
    omega
  simp only [scanOptions, if_pos hPos, hByte, Option.bind_eq_bind, Option.bind_some, if_true]
  rfl

/- At an option it goes on with the next one. -/
theorem scanOptions_next
    (hd : d ≤ maxField) (hl : l ≤ maxField)
    (hDrop : buf.drop s.pktPos = fieldHeader d l ++ rest) :
    scanOptions cfg buf (fuel + 1) s = if d ≠ 0 ∧ cfg.noptsMax ≤ s.options.length then
        some (.error .enomem)
      else scanOptions cfg buf fuel (s.next d l) := by
  have hEnd : s.pktPos + (fieldHeader d l).length ≤ buf.length := by
    have hHeader := fieldHeader_length_pos (d := d) (l := l)
    have hLen := congrArg List.length hDrop
    rw [List.length_drop, List.length_append] at hLen
    omega
  have hPos : s.pktPos < buf.length := by
    have hHeader := fieldHeader_length_pos (d := d) (l := l)
    omega
  rcases decode_fieldHeader hd hl hDrop hEnd le_rfl with ⟨hByte, hDelta, hLength⟩
  have hd0 : ¬ ((d : Int) < 0) := by
    omega
  have hl0 : ¬ ((l : Int) < 0) := by
    omega
  have hMod : (s.optionNr + d) % 2 ^ 32 % 2 ^ 16 = (s.optionNr + d) % 2 ^ 16 := by
    omega
  simp only [scanOptions, if_pos hPos, hByte, Option.bind_eq_bind, Option.bind_some,
    if_neg optionByte_ne_marker, optionByte_shiftRight, optionByte_and, hDelta, hLength, if_neg hd0,
    if_neg hl0, Int.toNat_natCast, hMod, ne_eq, ge_iff_le]
  by_cases hZero : d = 0
  · subst hZero
    simp [OptionScan.next]
  · by_cases hFull : cfg.noptsMax ≤ s.options.length
    · simp [hZero, hFull]
    · simp [hZero, hFull, OptionScan.next]

variable (cfg fuel) in
/- What the loop can find at a position in the buffer. -/
theorem scanOptions_cases
    (hPos : s.pktPos < buf.length) :
    (∃ rest, buf.drop s.pktPos = 0xff :: rest) ∨
    scanOptions cfg buf (fuel + 1) s = some (.error .ebadmsg) ∨
    (∃ d l rest, d ≤ maxField ∧ l ≤ maxField ∧ buf.drop s.pktPos = fieldHeader d l ++ rest) := by
  obtain ⟨b, rest, hDrop⟩ : ∃ b rest, buf.drop s.pktPos = b :: rest := by
    refine List.exists_cons_of_length_pos ?_
    rw [List.length_drop]
    omega
  have hByte := getElem?_of_drop hDrop
  have hb := b.toNat_lt
  by_cases hMarker : b = 0xff
  · subst hMarker
    exact .inl ⟨rest, hDrop⟩
  · right
    have hHigh : b.toNat >>> 4 < 16 := by
      rw [Nat.shiftRight_eq_div_pow]
      omega
    have hLow : b.toNat &&& 0xf < 16 := by
      rw [Nat.and_two_pow_sub_one_eq_mod _ 4]
      omega
    have hRest : buf.drop (s.pktPos + 1) = rest := drop_succ_of_drop hDrop
    rcases decodeValue_cases hHigh (Nat.succ_le_of_lt hPos)
        le_rfl with
      ⟨r, hDelta, hr⟩ | ⟨d, tail, hDelta, hd, hNybble, hExt, hEnd⟩
    · left
      simp only [scanOptions, if_pos hPos, hByte, Option.bind_eq_bind, Option.bind_some,
        if_neg hMarker, hDelta, if_pos hr]
    · have hd0 : ¬ ((d : Int) < 0) := by
        omega
      rcases decodeValue_cases hLow hEnd le_rfl with ⟨r, hLength, hr⟩ |
        ⟨l, tail', hLength, hl, hNybbleLen, hExtLen, hEndLen⟩
      · left
        simp only [scanOptions, if_pos hPos, hByte, Option.bind_eq_bind, Option.bind_some,
          if_neg hMarker, hDelta, if_neg hd0, hLength, if_pos hr]
      · right
        refine ⟨d, l, tail', hd, hl, ?_⟩
        have hTail : tail = fieldExtension l ++ tail' := by
          rw [← drop_of_drop hExt, hExtLen]
        have hHeaderByte := eq_optionByte hNybble hNybbleLen
        rw [hDrop, ← hRest, hExt, hTail, hHeaderByte,
          fieldHeader, List.cons_append, List.append_assoc]

end

----
-- The Loop
----

/- The positions that are recorded for a list of options. -/
def recordedOptions :
    Nat → Nat → List CoapOption → List CoapOptpos
| _, _, [] => []
| nr, pos, o :: os =>
  let rest := recordedOptions (nr + o.delta) (pos + o.size) os
  if o.delta = 0 then
    rest
  else
    ⟨(nr + o.delta) % 2 ^ 16, pos % 2 ^ 16⟩ :: rest

/- The variables after options and perhaps a marker. -/
def OptionScan.after
    (s : OptionScan) (nr : Nat) (os : List CoapOption)
    (p : Option (List UInt8)) : OptionScan where
  pktPos := s.pktPos + (encodeOptions os).length + (if p.isSome then 1 else 0)
  payload :=
    if p.isSome then
      some (s.pktPos + (encodeOptions os).length + 1)
    else
      s.payload
  optionNr := (nr + (os.map CoapOption.delta).sum) % 2 ^ 32
  options := s.options ++ recordedOptions nr s.pktPos os

variable {cfg : NanocoapConfig} {buf : List UInt8} {s s' : OptionScan}
variable {fuel nr : Nat} {o : CoapOption} {os : List CoapOption} {p : Option (List UInt8)}

theorem CoapOption.encode_eq :
    o.encode = fieldHeader o.delta o.value.length ++ o.value :=
  rfl

theorem OptionScan.next_pktPos_eq :
    (s.next o.delta o.value.length).pktPos = s.pktPos + o.size := by
  rw [CoapOption.size]
  exact Nat.add_assoc _ _ _

theorem OptionScan.after_nil
    (hNr : s.optionNr = nr % 2 ^ 32) :
    s.after nr [] p = if p.isSome then s.marked else s := by
  rcases s with ⟨pos, payload, number, options⟩
  change number = nr % 2 ^ 32 at hNr
  subst hNr
  cases p <;> simp [after, marked, recordedOptions]

/- Going on after an option. -/
theorem OptionScan.after_next
    (hNr : s.optionNr = nr % 2 ^ 32) :
    (s.next o.delta o.value.length).after (nr + o.delta) os p = s.after nr (o :: os) p := by
  have hMod : (nr % 2 ^ 32 + o.delta) % 2 ^ 16 = (nr + o.delta) % 2 ^ 16 := by
    omega
  simp only [after, next_pktPos_eq, encodeOptions_cons, List.length_append,
    CoapOption.length_encode, recordedOptions, List.map_cons, List.sum_cons, OptionScan.mk.injEq,
    Nat.add_assoc]
  refine ⟨trivial, ?_, trivial, ?_⟩
  · rfl
  · simp only [next, hNr, hMod]
    by_cases hZero : o.delta = 0
    · simp [hZero]
    · simp [hZero]

theorem OptionScan.next_optionNr
    (hNr : s.optionNr = nr % 2 ^ 32) :
    (s.next o.delta o.value.length).optionNr = (nr + o.delta) % 2 ^ 32 := by
  simp only [next, hNr]
  omega

/-
  The loop over encoded options comes to their end, by
  induction on the options.
-/
theorem scanOptions_encode
    (hDrop : buf.drop s.pktPos = encodeOptions os ++ encodePayload p)
    (hPos : s.pktPos ≤ buf.length) (hNr : s.optionNr = nr % 2 ^ 32)
    (hFits : (s.after nr os p).options.length ≤ cfg.noptsMax)
    (hFuel : buf.length - s.pktPos < fuel) :
    scanOptions cfg buf fuel s = some (.ok (s.after nr os p)) := by
  induction os generalizing s nr fuel with
  | nil =>
    obtain ⟨fuel, rfl⟩ : ∃ f, fuel = f + 1 := ⟨fuel - 1, by omega⟩
    cases p with
    | none =>
      have hEnd := length_of_drop hDrop hPos
      have hNot : ¬ s.pktPos < buf.length := by
        simp [encodePayload] at hEnd
        omega
      rw [OptionScan.after_nil hNr]
      simp [scanOptions, hNot]
    | some payload =>
      rw [scanOptions_marker hDrop, OptionScan.after_nil hNr]
      rfl
  | cons o os ih =>
    obtain ⟨fuel, rfl⟩ : ∃ f, fuel = f + 1 := ⟨fuel - 1, by omega⟩
    have hSize := o.size_pos
    have hOption := hDrop
    rw [encodeOptions_cons, List.append_assoc] at hDrop
    have hLen := length_of_drop hDrop hPos
    rw [List.length_append, CoapOption.length_encode] at hLen
    rw [CoapOption.encode_eq, List.append_assoc] at hDrop
    rw [scanOptions_next o.delta_le o.length_le hDrop]
    -- the entry for this option has its place
    have hRoom : ¬ (o.delta ≠ 0 ∧ cfg.noptsMax ≤ s.options.length) := by
      rintro ⟨hDelta, hFull⟩
      simp [OptionScan.after, recordedOptions, hDelta] at hFits
      omega
    rw [if_neg hRoom, ← OptionScan.after_next hNr]
    rw [← OptionScan.after_next hNr] at hFits
    have hNext := OptionScan.next_pktPos_eq (s := s) (o := o)
    refine ih ?_ ?_ (OptionScan.next_optionNr hNr) hFits ?_
    · rw [encodeOptions_cons, List.append_assoc] at hOption
      rw [hNext, ← CoapOption.length_encode]
      exact drop_of_drop hOption
    · omega
    · omega

variable (cfg buf s nr fuel) in
/-
  The loop ends, and it ends in the buffer only if it went
  over encoded options, by induction on the fuel.
-/
theorem scanOptions_sound
    (hNr : s.optionNr = nr % 2 ^ 32) (hFits : s.options.length ≤ cfg.noptsMax)
    (hFuel : buf.length - s.pktPos < fuel) :
    ∃ r, scanOptions cfg buf fuel s = some r ∧ ∀ s', r = .ok s' → s'.pktPos ≤ buf.length →
        ∃ os p, buf.drop s.pktPos = encodeOptions os ++ encodePayload p ∧
          s.pktPos ≤ buf.length ∧ s' = s.after nr os p ∧ s'.options.length ≤ cfg.noptsMax := by
  induction fuel generalizing s nr with
  | zero => omega
  | succ fuel ih =>
    by_cases hPos : s.pktPos < buf.length
    · rcases scanOptions_cases cfg fuel hPos with ⟨rest, hDrop⟩ | hBad | ⟨d, l, rest, hd, hl, hDrop⟩
      · refine ⟨_, scanOptions_marker hDrop, ?_⟩
        intro s' hEq _
        have hEq : s.marked = s' := by
          simpa using hEq
        subst hEq
        refine ⟨[], some rest, hDrop, hPos.le, ?_, hFits⟩
        rw [OptionScan.after_nil hNr]
        rfl
      · refine ⟨_, hBad, ?_⟩
        intro s' hEq
        cases hEq
      · rw [scanOptions_next hd hl hDrop]
        by_cases hRoom : d ≠ 0 ∧ cfg.noptsMax ≤ s.options.length
        · refine ⟨_, if_pos hRoom, ?_⟩
          intro s' hEq
          cases hEq
        · rw [if_neg hRoom]
          have hHeader := fieldHeader_length_pos (d := d) (l := l)
          have hNextPos : (s.next d l).pktPos = s.pktPos + (fieldHeader d l).length + l := rfl
          have hNextFits : (s.next d l).options.length ≤ cfg.noptsMax := by
            unfold OptionScan.next
            by_cases hZero : d = 0
            · simp [hZero, hFits]
            · simp only [hZero, if_false, List.length_append, List.length_singleton]
              by_contra hOver
              exact hRoom ⟨hZero, by omega⟩
          have hNextNr : (s.next d l).optionNr = (nr + d) % 2 ^ 32 := by
            simp only [OptionScan.next, hNr]
            omega
          rcases ih _ _ hNextNr hNextFits (by omega) with ⟨r, hRun, hSound⟩
          refine ⟨r, hRun, ?_⟩
          intro s' hEq hEnd
          rcases hSound s' hEq hEnd with ⟨os, p, hOptions, hIn, hAfter, hCount⟩
          -- the value of the option lies in the buffer
          have hRest := drop_of_drop hDrop
          have hLen := length_of_drop hDrop hPos.le
          rw [List.length_append] at hLen
          have hValue : (rest.take l).length = l := by
            rw [List.length_take]
            omega
          let o : CoapOption := ⟨d, rest.take l, hd, by rw [hValue]; exact hl⟩
          have hStep : s.next d l = s.next o.delta o.value.length := by
            change s.next d l = s.next d (rest.take l).length
            rw [hValue]
          refine ⟨o :: os, p, ?_, hPos.le, ?_, hCount⟩
          · have hTail : rest.drop l = encodeOptions os ++ encodePayload p := by
              rw [← hOptions, hNextPos, ← List.drop_drop, hRest]
            rw [encodeOptions_cons, List.append_assoc, ← hTail,
              CoapOption.encode_eq, hDrop, List.append_assoc]
            change fieldHeader d l ++ rest =
              fieldHeader d (rest.take l).length ++ (rest.take l ++ rest.drop l)
            rw [hValue, List.take_append_drop]
          · rw [hAfter, hStep]
            exact OptionScan.after_next hNr
    · have hRun : scanOptions cfg buf (fuel + 1) s = some (.ok s) := by
        simp [scanOptions, hPos]
      refine ⟨_, hRun, ?_⟩
      intro s' hEq hEnd
      have hEq : s = s' := by
        simpa using hEq
      subst hEq
      refine ⟨[], none, ?_, hEnd, ?_, hFits⟩
      · rw [List.drop_eq_nil_of_le (by omega)]
        rfl
      · rw [OptionScan.after_nil hNr]
        rfl

----
-- Reading Options
----

variable {pkt : CoapPkt} {pos d l : Nat} {rest : List UInt8}

/- The option at a position, up to the payload. -/
theorem parseOption_option
    (hd : d ≤ maxField) (hl : l ≤ maxField)
    (hDrop : pkt.hdr.drop pos = fieldHeader d l ++ rest)
    (hEnd : pos + (fieldHeader d l).length ≤ pkt.payload)
    (hLen : pkt.payload ≤ pkt.hdr.length) :
    parseOption pkt pos = some (some ⟨pos + (fieldHeader d l).length, d % 2 ^ 16, l⟩) := by
  have hHeader := fieldHeader_length_pos (d := d) (l := l)
  rcases decode_fieldHeader hd hl hDrop hEnd hLen with ⟨hByte, hDelta, hLength⟩
  have hPos : ¬ pos ≥ pkt.payload := by
    omega
  have hMarker : ¬ (pos + 1 = pkt.payload ∧ optionByte d l = 0xff) :=
    fun h => optionByte_ne_marker h.2
  simp only [parseOption, if_neg hPos, hByte, Option.bind_eq_bind, Option.bind_some, if_neg hMarker,
    optionByte_shiftRight, optionByte_and, hDelta, hLength, Option.some.injEq,
    ParsedOption.mk.injEq, true_and, and_true]
  omega

/- Behind the options there is none. -/
theorem parseOption_end
    (hEnd : pkt.payload ≤ pos ∨ (pos + 1 = pkt.payload ∧ pkt.hdr[pos]? = some 0xff)) :
    parseOption pkt pos = some none := by
  unfold parseOption
  by_cases hPos : pos ≥ pkt.payload
  · simp [hPos]
  · rcases hEnd with hEnd | ⟨hEnd, hByte⟩
    · omega
    · simp [hPos, hByte, hEnd]

variable (pkt pos) in
/- Whatever is at a position, the code stays in the packet. -/
theorem parseOption_total
    (hLen : pkt.payload ≤ pkt.hdr.length) :
    ∃ r, parseOption pkt pos = some r ∧ (pos + 1 < pkt.payload → r ≠ none) ∧
      ∀ p, r = some p → p.pktPos ≤ pos + 5 ∧ p.pktPos ≤ pkt.payload := by
  by_cases hPos : pkt.payload ≤ pos
  · refine ⟨none, parseOption_end (.inl hPos), ?_, ?_⟩
    · omega
    · intro p hEq
      cases hEq
  · obtain ⟨b, hByte⟩ : ∃ b, pkt.hdr[pos]? = some b := ⟨_, List.getElem?_eq_getElem (by omega)⟩
    have hb := b.toNat_lt
    have hHigh : b.toNat >>> 4 < 16 := by
      rw [Nat.shiftRight_eq_div_pow]
      omega
    have hLow : b.toNat &&& 0xf < 16 := by
      rw [Nat.and_two_pow_sub_one_eq_mod _ 4]
      omega
    -- a field moves the position by two bytes at most
    have hField :
        ∀ val q, val < 16 → q ≤ pkt.payload → ∃ r q', decodeValue pkt.hdr val q pkt.payload =
              some (r, q') ∧ q' ≤ q + 2 ∧ q' ≤ pkt.payload := by
      intro val q hVal hq
      rcases decodeValue_cases hVal hq hLen with ⟨r, hDecode, _⟩ | ⟨v, _, hDecode, _, _, _, hEnd⟩
      · exact ⟨r, q, hDecode, by omega, hq⟩
      · have hExt := length_fieldExtension_le (v := v)
        exact ⟨_, _, hDecode, by omega, hEnd⟩
    by_cases hMarker : pos + 1 = pkt.payload ∧ b = 0xff
    · refine ⟨none, parseOption_end (.inr ⟨hMarker.1, ?_⟩), ?_, ?_⟩
      · rw [hByte, hMarker.2]
      · omega
      · intro p hEq
        cases hEq
    · rcases hField _ (pos + 1) hHigh (by omega) with ⟨delta, q, hDelta, hq, hqEnd⟩
      rcases hField _ q hLow hqEnd with ⟨optLen, q', hLength, hq', hqEnd'⟩
      refine ⟨some ⟨q', (delta % 2 ^ 16).toNat, optLen⟩, ?_, by simp, ?_⟩
      · simp only [parseOption, ge_iff_le, if_neg hPos, hByte, Option.bind_eq_bind,
          Option.bind_some, if_neg hMarker, hDelta, hLength]
      · intro p hEq
        have hEq := Option.some.inj hEq
        subst hEq
        exact ⟨by simp only; omega, hqEnd'⟩

theorem length_recordedOptions_le
    (nr pos : Nat) (os : List CoapOption) :
    (recordedOptions nr pos os).length ≤ os.length := by
  induction os generalizing nr pos with
  | nil => exact le_rfl
  | cons o os ih =>
    have hRest := ih (nr + o.delta) (pos + o.size)
    simp only [recordedOptions]
    split
    · exact hRest.trans (Nat.le_succ _)
    · simpa using hRest

/- Where a recorded entry comes from. -/
theorem mem_recordedOptions
    {nr pos : Nat} {os : List CoapOption} {e : CoapOptpos}
    (hMem : e ∈ recordedOptions nr pos os) :
    ∃ os₁ o os₂, os = os₁ ++ o :: os₂ ∧
      e.optNum = (nr + (os₁.map CoapOption.delta).sum + o.delta) % 2 ^ 16 ∧
      e.offset = (pos + (encodeOptions os₁).length) % 2 ^ 16 := by
  induction os generalizing nr pos with
  | nil => cases hMem
  | cons o os ih =>
    have hSplit : e = ⟨(nr + o.delta) % 2 ^ 16, pos % 2 ^ 16⟩ ∨
          e ∈ recordedOptions (nr + o.delta) (pos + o.size) os := by
      simp only [recordedOptions] at hMem
      split at hMem
      · exact .inr hMem
      · exact List.mem_cons.mp hMem
    rcases hSplit with rfl | hMem
    · exact ⟨[], o, os, rfl, by simp, by simp⟩
    · rcases ih hMem with ⟨os₁, o', os₂, rfl, hNum, hOffset⟩
      refine ⟨o :: os₁, o', os₂, rfl, ?_, ?_⟩
      · rw [hNum, List.map_cons, List.sum_cons, Nat.add_assoc nr]
      · rw [hOffset, encodeOptions_cons, List.length_append,
          CoapOption.length_encode, Nat.add_assoc]

----
-- Accepted Messages
----

namespace CoapMessage

variable {os₁ os₂ : List CoapOption}

/- Where the payload starts, or the message ends. -/
def payloadStart
    (m : CoapMessage) : Nat :=
  m.optionsEnd + (if m.payload.isSome then 1 else 0)

/- The positions the parser records. -/
def recorded
    (m : CoapMessage) : List CoapOptpos :=
  recordedOptions 0 (sizeofCoapHdr + m.token.length) m.options

/- The positions have their places in the array. -/
def Fits
    (cfg : NanocoapConfig) (m : CoapMessage) : Prop :=
  m.recorded.length ≤ cfg.noptsMax

/- The packet of a message, but for the Observe option. -/
def context
    (m : CoapMessage)
    (observe : Nat) : CoapPkt where
  hdr := m.encode
  token :=
    if m.token.length = 0 then none else some sizeofCoapHdr
  payload := m.payloadStart
  payloadLen := (m.payload.getD []).length % 2 ^ 16
  optionsLen := m.recorded.length
  options := m.recorded
  observeValue := observe

variable (m : CoapMessage)

theorem encode_eq_cons :
    m.encode = UInt8.ofNat (m.verType * 16 + m.token.length) :: m.code :: m.idHigh :: m.idLow ::
          (m.token ++ (encodeOptions m.options ++ encodePayload m.payload)) :=
  rfl

theorem encode_drop :
    m.encode.drop (sizeofCoapHdr + m.token.length) =
      encodeOptions m.options ++ encodePayload m.payload := by
  rw [← List.drop_drop]
  change (m.token ++ _).drop m.token.length = _
  exact List.drop_left

theorem length_encode :
    m.encode.length = m.payloadStart + (m.payload.getD []).length := by
  have hPayload : (encodePayload m.payload).length =
        (if m.payload.isSome then 1 else 0) + (m.payload.getD []).length := by
    cases m.payload with
    | none => rfl
    | some payload => simp [encodePayload, Nat.add_comm]
  simp only [encode, header, List.length_append, List.length_cons, List.length_nil, hPayload,
    payloadStart, optionsEnd, sizeofCoapHdr]
  omega

theorem payloadStart_le :
    m.payloadStart ≤ m.encode.length := by
  rw [length_encode]
  exact Nat.le_add_right _ _

theorem tokenEnd_le :
    sizeofCoapHdr + m.token.length ≤ m.optionsEnd :=
  Nat.le_add_right _ _

theorem optionsEnd_le :
    m.optionsEnd ≤ m.payloadStart :=
  Nat.le_add_right _ _

/- The payload is the rest of the message. -/
theorem take_payload :
    (m.encode.drop m.payloadStart).take (m.payload.getD []).length = m.payload.getD [] := by
  have hRest : m.encode.drop m.payloadStart = m.payload.getD [] := by
    rw [payloadStart, optionsEnd, ← List.drop_drop, ← List.drop_drop, encode_drop, List.drop_left]
    cases m.payload <;> rfl
  rw [hRest, List.take_length]

/- The token follows the header. -/
theorem take_token
    (observe : Nat) :
    (m.encode.drop ((m.context observe).token.getD 0)).take m.token.length = m.token := by
  by_cases hEmpty : m.token.length = 0
  · rw [hEmpty, List.take_zero]
    exact (List.length_eq_zero_iff.mp hEmpty).symm
  · have hToken : (m.context observe).token = some sizeofCoapHdr := if_neg hEmpty
    rw [hToken, Option.getD_some]
    change (m.token ++ _).take m.token.length = m.token
    exact List.take_left

variable {m} {observe n : Nat}

theorem coapGetTokenLen_context :
    (m.context observe).coapGetTokenLen = some m.token.length := by
  have hToken := m.token_le
  unfold coapTokenLengthMax at hToken
  have hByte :
      (m.context observe).hdr[0]? = some (UInt8.ofNat (m.verType * 16 + m.token.length)) :=
    rfl
  simp only [CoapPkt.coapGetTokenLen, hByte, Option.bind_eq_bind, Option.bind_some,
    UInt8.toNat_ofNat', Option.pure_def, Nat.and_two_pow_sub_one_eq_mod _ 4]
  congr 1
  omega

/- The bytes at an option of the message. -/
theorem drop_of_split
    (hSplit : m.options = os₁ ++ o :: os₂) :
    m.encode.drop (sizeofCoapHdr + m.token.length + (encodeOptions os₁).length) =
      o.encode ++ (encodeOptions os₂ ++ encodePayload m.payload) := by
  have hOptions :
      encodeOptions m.options = encodeOptions os₁ ++ (o.encode ++ encodeOptions os₂) := by
    rw [hSplit]
    simp [encodeOptions]
  rw [← List.drop_drop, encode_drop, hOptions, List.append_assoc, List.drop_left, List.append_assoc]

theorem end_of_split
    (hSplit : m.options = os₁ ++ o :: os₂) :
    sizeofCoapHdr + m.token.length + (encodeOptions os₁).length + o.size ≤ m.optionsEnd := by
  have hOptions :
      encodeOptions m.options = encodeOptions os₁ ++ (o.encode ++ encodeOptions os₂) := by
    rw [hSplit]
    simp [encodeOptions]
  rw [optionsEnd, hOptions, List.length_append, List.length_append, CoapOption.length_encode]
  omega

/- Parsing an option of the message again. -/
theorem parseOption_context
    (hSplit : m.options = os₁ ++ o :: os₂) :
    parseOption (m.context observe)
        (sizeofCoapHdr + m.token.length + (encodeOptions os₁).length) =
      some (some ⟨sizeofCoapHdr + m.token.length + (encodeOptions os₁).length + o.header.length,
          o.delta % 2 ^ 16, o.value.length⟩) := by
  have hDrop := drop_of_split hSplit
  have hEnd := end_of_split hSplit
  have hPayload := m.optionsEnd_le
  rw [CoapOption.encode_eq, List.append_assoc] at hDrop
  refine parseOption_option o.delta_le o.length_le hDrop ?_ ?_
  · change _ + o.header.length ≤ m.payloadStart
    rw [CoapOption.size] at hEnd
    omega
  · exact m.payloadStart_le

/- The marker stands at the end of the options. -/
theorem marker_of_payload
    {payload : List UInt8} (hPayload : m.payload = some payload) :
    m.encode[m.optionsEnd]? = some 0xff := by
  have hDrop : m.encode.drop m.optionsEnd = 0xff :: payload := by
    rw [optionsEnd, ← List.drop_drop, encode_drop, List.drop_left, hPayload]
    rfl
  exact getElem?_of_drop hDrop

theorem parseOption_context_end :
    parseOption (m.context observe) m.optionsEnd = some none := by
  refine parseOption_end ?_
  cases hPayload : m.payload with
  | none =>
    left
    simp [context, payloadStart, hPayload]
  | some payload =>
    right
    refine ⟨?_, marker_of_payload hPayload⟩
    simp [context, payloadStart, hPayload]

variable (m observe n) in
/- A recorded option can be read. -/
theorem coapOptGetUint_total :
    ∃ r, coapOptGetUint (m.context observe) n = some r := by
  unfold coapOptGetUint
  cases hFind : coapFindOption (m.context observe) n with
  | none => exact ⟨_, rfl⟩
  | some q =>
    -- the position is the one of an option, modulo 2^16
    obtain ⟨e, hMem, hOffset⟩ : ∃ e ∈ m.recorded, e.offset = q := by
      unfold coapFindOption at hFind
      rcases Option.map_eq_some_iff.mp hFind with ⟨e, he, hq⟩
      exact ⟨e, List.mem_of_mem_take (List.mem_of_find?_eq_some he), hq⟩
    rcases mem_recordedOptions hMem with ⟨os₁, o, os₂, hSplit, _, hPos⟩
    have hEnd := end_of_split hSplit
    have hOptionsEnd := m.optionsEnd_le
    have hPayload := m.payloadStart_le
    have hSize := o.size_pos
    rw [hOffset] at hPos
    -- at most four bytes after the header are read
    have hRead :
        ∀ p : ParsedOption, parseOption (m.context observe) q = some (some p) → p.optLen ≤ 4 →
          p.pktPos + p.optLen.toNat ≤ m.encode.length := by
      intro p hParse hFour
      by_cases hWrap : sizeofCoapHdr + m.token.length + (encodeOptions os₁).length < 2 ^ 16
      · rw [Nat.mod_eq_of_lt hWrap] at hPos
        rw [hPos, parseOption_context hSplit] at hParse
        simp only [Option.some.injEq] at hParse
        subst hParse
        rw [CoapOption.size] at hEnd
        simp only [Int.toNat_natCast]
        omega
      · rcases parseOption_total (m.context observe) q hPayload with ⟨r, hTotal, _, hBound⟩
        rw [hParse] at hTotal
        have hNear := (hBound p (Option.some.inj hTotal).symm).1
        omega
    rcases parseOption_total (m.context observe) q hPayload with ⟨r, hParse, _, _⟩
    simp only [hParse, Option.bind_eq_bind, Option.bind_some]
    split
    · split
      · exact ⟨_, rfl⟩
      · rename_i hNonneg hFour
        cases r with
        | none => exact ⟨.ok 0, rfl⟩
        | some p =>
          simp only [Option.map_some, Option.getD_some, not_lt] at hFour ⊢
          unfold decodeUint
          split
          · exact ⟨_, rfl⟩
          · have hIn : p.pktPos + p.optLen.toNat ≤ (m.context observe).hdr.length :=
              hRead p hParse hFour
            rw [readBytes, if_pos hIn]
            exact ⟨_, rfl⟩
    · exact ⟨_, rfl⟩

variable (m cfg observe) in
theorem readObserve_context :
    ∃ v, readObserve cfg (m.context observe) = some (m.context v) := by
  unfold readObserve
  by_cases hGcoap : cfg.gcoap
  · rcases coapOptGetUint_total m observe coapOptObserve with ⟨r, hr⟩
    simp only [hGcoap, if_true, hr, Option.bind_eq_bind, Option.bind_some]
    cases r with
    | ok v => exact ⟨v, rfl⟩
    | error e => exact ⟨uint32Max, rfl⟩
  · simp only [hGcoap]
    exact ⟨observe, rfl⟩

end CoapMessage

variable (cfg) in
/- The checks of the header, and then the options. -/
theorem coapParse_cons
    {b code hi lo : UInt8} {rest buf : List UInt8} {tkl : Nat}
    (hBuf : buf = b :: code :: hi :: lo :: rest) (hTkl : b.toNat % 16 = tkl) :
    coapParse cfg buf = if code = 0 ∧ rest ≠ [] then some (.error .ebadmsg)
      else if tkl > coapTokenLengthMax then some (.error .ebadmsg)
      else (scanOptions cfg buf (buf.length + 1) ⟨sizeofCoapHdr + tkl, none, 0, []⟩).bind (fun
            | .error e => some (.error e)
            | .ok s => finishParse cfg buf tkl s) := by
  subst hBuf hTkl
  have hLong : ¬ (b :: code :: hi :: lo :: rest).length < sizeofCoapHdr := by
    simp [sizeofCoapHdr]
  have hCode : code.toNat = 0 ↔ code = 0 := by
    rw [← UInt8.toNat_inj]
    rfl
  have hMask : b.toNat &&& 15 = b.toNat % 16 := Nat.and_two_pow_sub_one_eq_mod _ 4
  have hRest : (b :: code :: hi :: lo :: rest).length > sizeofCoapHdr ↔ rest ≠ [] := by
    rw [← List.length_pos_iff]
    simp [sizeofCoapHdr]
  simp only [coapParse, if_neg hLong, CoapPkt.coapGetCodeRaw, CoapPkt.coapGetTokenLen,
    List.getElem?_cons_succ, List.getElem?_cons_zero, Option.pure_def, Option.bind_eq_bind,
    Option.bind_some, hCode, hRest, hMask] <;> rfl

/- What was encoded is parsed. -/
theorem coapParse_encode
    {m : CoapMessage} (hFits : m.Fits cfg) :
    ∃ v, coapParse cfg m.encode = some (.ok (m.context v)) := by
  have hTokenEnd := m.tokenEnd_le
  have hOptionsEnd := m.optionsEnd_le
  have hPayload := m.payloadStart_le
  have hToken := m.token_le
  let s : OptionScan := ⟨sizeofCoapHdr + m.token.length, none, 0, []⟩
  let s' := s.after 0 m.options m.payload
  have hRecorded : s'.options = m.recorded := List.nil_append _
  have hScan : scanOptions cfg m.encode (m.encode.length + 1) s = some (.ok s') := by
    refine scanOptions_encode m.encode_drop ?_ rfl ?_ ?_
    · change sizeofCoapHdr + m.token.length ≤ m.encode.length
      omega
    · rw [hRecorded]
      exact hFits
    · omega
  -- the packet is filled in with what the message holds
  have hFinish : ∃ v, finishParse cfg m.encode m.token.length s' = some (.ok (m.context v)) := by
    have hIn : ¬ s'.pktPos > m.encode.length := by
      change ¬ m.payloadStart > m.encode.length
      omega
    have hStart : s'.payload.getD s'.pktPos = m.payloadStart := by
      cases hp : m.payload <;>
        simp [s', s, OptionScan.after, CoapMessage.payloadStart, CoapMessage.optionsEnd, hp]
    have hPayloadLen : (s'.payload.map (fun p => (m.encode.length - p) % 2 ^ 16)).getD 0 =
        (m.payload.getD []).length % 2 ^ 16 := by
      have hLength := m.length_encode
      cases hp : m.payload with
      | none => simp [s', s, OptionScan.after, hp]
      | some payload =>
        simp only [s', s, OptionScan.after, CoapMessage.payloadStart, CoapMessage.optionsEnd, hp,
          Option.isSome_some, if_true, Option.map_some, Option.getD_some] at hLength ⊢
        rw [hLength, Nat.add_sub_cancel_left]
    have hCount : m.recorded.length % 2 ^ 16 = m.recorded.length :=
      Nat.mod_eq_of_lt (lt_of_le_of_lt hFits cfg.noptsMax_lt)
    rcases m.readObserve_context cfg 0 with ⟨v, hObserve⟩
    refine ⟨v, ?_⟩
    have hPacket := hObserve
    unfold CoapMessage.context at hPacket
    simp only [finishParse, if_neg hIn, hStart, hPayloadLen, hRecorded, hCount, hPacket,
      Option.bind_eq_bind, Option.bind_some]
    rfl
  rcases hFinish with ⟨v, hFinish⟩
  refine ⟨v, ?_⟩
  have hByte : (UInt8.ofNat (m.verType * 16 + m.token.length)).toNat % 16 = m.token.length := by
    unfold coapTokenLengthMax at hToken
    rw [UInt8.toNat_ofNat']
    omega
  -- an empty message has nothing after its header
  have hEmpty :
      ¬ (m.code = 0 ∧ m.token ++ (encodeOptions m.options ++ encodePayload m.payload) ≠ []) := by
    rintro ⟨hZero, hMore⟩
    rcases m.empty hZero with ⟨hTok, hOpts, hPay⟩
    refine hMore ?_
    rw [hTok, hOpts, hPay]
    rfl
  have hParse := coapParse_cons cfg m.encode_eq_cons hByte
  rw [if_neg hEmpty, if_neg (by omega), hScan] at hParse
  exact hParse.trans hFinish

/- The message of a header, a token and options. -/
theorem message_of_parts
    {b code hi lo : UInt8} {rest buf : List UInt8} {os : List CoapOption}
    {p : Option (List UInt8)} (hBuf : buf = b :: code :: hi :: lo :: rest)
    (hEmpty : ¬ (code = 0 ∧ rest ≠ [])) (hTkl : b.toNat % 16 ≤ coapTokenLengthMax)
    (hDrop : buf.drop (sizeofCoapHdr + b.toNat % 16) = encodeOptions os ++ encodePayload p)
    (hTokenEnd : sizeofCoapHdr + b.toNat % 16 ≤ buf.length) :
    ∃ m, CoapMessage.encode m = buf ∧ m.options = os ∧ m.token.length = b.toNat % 16 := by
  have hb := b.toNat_lt
  subst hBuf
  have hRest : rest.drop (b.toNat % 16) = encodeOptions os ++ encodePayload p := by
    rw [← hDrop, ← List.drop_drop]
    rfl
  have hTokenLength : (rest.take (b.toNat % 16)).length = b.toNat % 16 := by
    simp only [List.length_cons, sizeofCoapHdr] at hTokenEnd
    rw [List.length_take]
    omega
  have hOnly : code = 0 → rest.take (b.toNat % 16) = [] ∧ os = [] ∧ p = none := by
    intro hZero
    have hNil : rest = [] := by
      by_contra hMore
      exact hEmpty ⟨hZero, hMore⟩
    have hParts : encodeOptions os ++ encodePayload p = encodeOptions [] ++ encodePayload none := by
      rw [← hRest, hNil, List.drop_nil]
      rfl
    rw [hNil]
    exact ⟨List.take_nil, encodeOptions_injective hParts⟩
  refine ⟨⟨b.toNat / 16, code, hi, lo, rest.take (b.toNat % 16), os, p, by omega, ?_, hOnly⟩,
    ?_, rfl, hTokenLength⟩
  · rw [hTokenLength]
    exact hTkl
  · have hByte : UInt8.ofNat (b.toNat / 16 * 16 + b.toNat % 16) = b := by
      rw [Nat.div_add_mod', UInt8.ofNat_toNat]
    simp only [CoapMessage.encode, CoapMessage.header,
      hTokenLength, hByte, ← hRest, List.take_append_drop]
    rfl

variable (cfg) in
/- Parsing ends, and only what was encoded is parsed. -/
theorem coapParse_sound
    (buf : List UInt8) :
    ∃ r, coapParse cfg buf = some r ∧
      ∀ pkt, r = .ok pkt → ∃ m v, CoapMessage.encode m = buf ∧ m.Fits cfg ∧ pkt = m.context v := by
  -- an error is no packet
  have hError :
      ∀ e : CoapError, coapParse cfg buf = some (.error e) → ∃ r, coapParse cfg buf = some r ∧
          ∀ pkt, r = .ok pkt →
            ∃ m v, CoapMessage.encode m = buf ∧ m.Fits cfg ∧ pkt = m.context v := by
    intro e he
    refine ⟨_, he, ?_⟩
    intro pkt hEq
    cases hEq
  by_cases hShort : buf.length < sizeofCoapHdr
  · exact hError .ebadmsg (by simp [coapParse, hShort])
  · obtain ⟨b, code, hi, lo, rest, hBuf⟩ :
        ∃ b code hi lo rest, buf = b :: code :: hi :: lo :: rest := by
      unfold sizeofCoapHdr at hShort
      match buf, hShort with
      | b :: code :: hi :: lo :: rest, _ => exact ⟨b, code, hi, lo, rest, rfl⟩
      | [], h => simp at h
      | [_], h => simp at h
      | [_, _], h => simp at h
      | [_, _, _], h => simp at h
    have hParse := coapParse_cons cfg hBuf (Eq.refl (b.toNat % 16))
    by_cases hEmpty : code = 0 ∧ rest ≠ []
    · exact hError .ebadmsg (by rw [hParse, if_pos hEmpty])
    by_cases hTkl : b.toNat % 16 > coapTokenLengthMax
    · exact hError .ebadmsg (by rw [hParse, if_neg hEmpty, if_pos hTkl])
    rw [if_neg hEmpty, if_neg hTkl] at hParse
    let s : OptionScan := ⟨sizeofCoapHdr + b.toNat % 16, none, 0, []⟩
    obtain ⟨r, hScan, hSound⟩ :=
      scanOptions_sound cfg buf s (buf.length + 1) 0 rfl (Nat.zero_le _) (by omega)
    rw [hScan] at hParse
    cases r with
    | error e => exact hError e hParse
    | ok s' =>
      by_cases hIn : s'.pktPos > buf.length
      · exact hError .ebadmsg (hParse.trans (if_pos hIn))
      · rcases hSound s' rfl (by omega) with ⟨os, p, hDrop, hTokenEnd, hAfter, hCount⟩
        rcases message_of_parts hBuf hEmpty (by omega)
            hDrop hTokenEnd with ⟨m, hEncode, hOptions, hToken⟩
        have hFits : m.Fits cfg := by
          rw [hAfter] at hCount
          unfold CoapMessage.Fits CoapMessage.recorded
          rw [hOptions, hToken]
          simpa [OptionScan.after, s] using hCount
        rcases coapParse_encode hFits with ⟨v, hContext⟩
        rw [hEncode] at hContext
        refine ⟨_, hContext, ?_⟩
        intro pkt hEq
        have hEq : m.context v = pkt := by
          simpa using hEq
        exact ⟨m, v, hEncode, hFits, hEq.symm⟩

end Riot
