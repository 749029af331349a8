import Riot.Net.CoapParser

/-
  Going over the options of a parsed message with
  coap_opt_get_next, and finding an option by its number.

  The offset of an option and its number are kept in 16 bits
  each, whatever the message is.
-/

open ByteBuffer

----
-- Iterations
----

namespace Riot

/- An option as an iteration goes over it. -/
structure OptionVisit where
  -- where the call looks for the option
  start : Nat
  value : Nat
  len : Int
  optNum : Nat
deriving DecidableEq, Repr

/- The options that the calls return before -ENOENT. -/
def iterateOptions
    (pkt : CoapPkt) :
    Nat → CoapOptpos → Bool → Option (List OptionVisit)
| 0, _, _ => none
| fuel + 1, opt, initOpt => do
    let start ←
      if initOpt then pkt.coapGetTotalHdrLen
      else some opt.offset
    let next ← coapOptGetNext pkt opt initOpt
    match next with
    | .error _ => some []
    | .ok n => do
        let rest ← iterateOptions pkt fuel n.opt false
        some (⟨start, n.value, n.len, n.opt.optNum⟩ :: rest)

/- The encodings follow each other from one place to another. -/
def Tiled : Nat → List OptionVisit → Nat → Prop
| first, [], last => first = last
| first, v :: vs, last =>
  v.start = first ∧ first < v.value ∧ 0 ≤ v.len ∧ Tiled (v.value + v.len.toNat) vs last

/- The visits of the options from a place on. -/
def visits :
    Nat → Nat → List CoapOption → List OptionVisit
| _, _, [] => []
| nr, pos, o :: os =>
  ⟨pos, pos + o.header.length, o.value.length, (nr + o.delta) % 2 ^ 16⟩ ::
    visits (nr + o.delta) (pos + o.size) os

variable {m : CoapMessage} {observe nr pos fuel last : Nat} {o : CoapOption}
variable {os os₁ os₂ : List CoapOption}

theorem tiled_visits :
    Tiled pos (visits nr pos os) (pos + (encodeOptions os).length) := by
  induction os generalizing nr pos with
  | nil => rfl
  | cons o os ih =>
    have hHeader := o.header_length_pos
    refine ⟨rfl, ?_, ?_, ?_⟩
    · exact Nat.lt_add_of_pos_right hHeader
    · exact Int.natCast_nonneg _
    · rw [encodeOptions_cons, List.length_append, CoapOption.length_encode, ← Nat.add_assoc]
      rw [Int.toNat_natCast, Nat.add_assoc pos]
      exact ih

/- Every value lies between the first and the last place. -/
theorem Tiled.value_mem
    {first : Nat} {vs : List OptionVisit} (hTiled : Tiled first vs last) :
    first ≤ last ∧ ∀ v ∈ vs, first ≤ v.value ∧ v.value + v.len.toNat ≤ last := by
  induction vs generalizing first with
  | nil => exact ⟨hTiled.le, by simp⟩
  | cons v vs ih =>
    rcases hTiled with ⟨_, hValue, _, hRest⟩
    rcases ih hRest with ⟨hLast, hAll⟩
    refine ⟨by omega, ?_⟩
    intro u hu
    rcases List.mem_cons.mp hu with rfl | hu
    · exact ⟨hValue.le, hLast⟩
    · have hBounds := hAll u hu
      exact ⟨by omega, hBounds.2⟩

/- The first call starts after the token. -/
theorem coapOptGetNext_init
    {opt : CoapOptpos} :
    coapOptGetNext (m.context observe) opt true = coapOptGetNext (m.context observe)
        ⟨0, (sizeofCoapHdr + m.token.length) % 2 ^ 16⟩
        false := by
  simp only [coapOptGetNext, CoapPkt.coapGetTotalHdrLen, CoapMessage.coapGetTokenLen_context,
    if_true, Option.bind_eq_bind, Option.bind_some, Option.pure_def]
  rfl

theorem coapOptGetNext_false
    {pkt : CoapPkt} {opt : CoapOptpos} :
    coapOptGetNext pkt opt false = (parseOption pkt opt.offset).bind (fun
        | none => some (.error .enoent)
        | some p => some (.ok ⟨p.optLen, p.pktPos,
              ⟨(opt.optNum + p.delta) % 2 ^ 16, ((p.pktPos + p.optLen) % 2 ^ 16).toNat⟩⟩)) := by
  rfl

/- The options before and after the next option. -/
theorem split_snoc
    (hSplit : m.options = os₁ ++ o :: os₂)
    (hPos : pos = sizeofCoapHdr + m.token.length + (encodeOptions os₁).length) :
    m.options = (os₁ ++ [o]) ++ os₂ ∧
    pos + o.size = sizeofCoapHdr + m.token.length + (encodeOptions (os₁ ++ [o])).length := by
  constructor
  · rw [hSplit, List.append_assoc]
    rfl
  · rw [hPos]
    simp [encodeOptions, Nat.add_assoc]

variable (observe nr) in
/- The call at an option of the message. -/
theorem coapOptGetNext_context
    (hSplit : m.options = os₁ ++ o :: os₂)
    (hPos : pos = sizeofCoapHdr + m.token.length + (encodeOptions os₁).length) :
    coapOptGetNext (m.context observe) ⟨nr % 2 ^ 16, pos⟩ false = some (.ok
        ⟨o.value.length, pos + o.header.length,
          ⟨(nr + o.delta) % 2 ^ 16, (pos + o.size) % 2 ^ 16⟩⟩) := by
  subst hPos
  rw [coapOptGetNext_false, CoapMessage.parseOption_context hSplit]
  simp only [Option.bind_some, Option.some.injEq, Except.ok.injEq, NextOption.mk.injEq,
    CoapOptpos.mk.injEq, true_and, CoapOption.size]
  omega

/-
  While the options stay below 2^16, the iteration goes over
  all of them, by induction on the options ahead.
-/
theorem iterateOptions_context
    (hSplit : m.options = os₁ ++ os₂)
    (hPos : pos = sizeofCoapHdr + m.token.length + (encodeOptions os₁).length)
    (hEnd : m.optionsEnd < 2 ^ 16) (hFuel : os₂.length < fuel) :
    iterateOptions (m.context observe) fuel
        ⟨nr % 2 ^ 16, pos⟩ false = some (visits nr pos os₂) := by
  induction os₂ generalizing os₁ nr pos fuel with
  | nil =>
    obtain ⟨fuel, rfl⟩ : ∃ f, fuel = f + 1 := ⟨fuel - 1, by omega⟩
    have hLast : pos = m.optionsEnd := by
      rw [hPos, CoapMessage.optionsEnd, hSplit, List.append_nil]
    subst hLast
    simp only [iterateOptions, coapOptGetNext_false, CoapMessage.parseOption_context_end]
    rfl
  | cons o os₂ ih =>
    obtain ⟨fuel, rfl⟩ : ∃ f, fuel = f + 1 := ⟨fuel - 1, by omega⟩
    have hBound := CoapMessage.end_of_split hSplit
    have hWrap : (pos + o.size) % 2 ^ 16 = pos + o.size := Nat.mod_eq_of_lt (by omega)
    have hNext := coapOptGetNext_context observe nr hSplit hPos
    rcases split_snoc hSplit hPos with ⟨hSplit, hPos⟩
    have hRest : iterateOptions (m.context observe) fuel
            ⟨(nr + o.delta) % 2 ^ 16, pos + o.size⟩ false =
          some (visits (nr + o.delta) (pos + o.size) os₂) :=
      ih hSplit hPos (by simpa using hFuel)
    simp only [iterateOptions, hNext, Option.bind_eq_bind, Option.bind_some, hWrap, hRest]
    rfl

/- Two bytes before the payload a call finds something. -/
theorem iterateOptions_found
    {opt : CoapOptpos} {vs : List OptionVisit}
    (hOffset : opt.offset + 1 < m.payloadStart)
    (hRun : iterateOptions (m.context observe) fuel opt false = some vs) :
    ∃ fuel' v tail opt', fuel = fuel' + 1 ∧ vs = v :: tail ∧ v.start = opt.offset ∧
      opt'.offset < 2 ^ 16 ∧
      iterateOptions (m.context observe) fuel' opt' false = some tail := by
  cases fuel with
  | zero => cases hRun
  | succ fuel =>
    rcases parseOption_total (m.context observe) opt.offset
        m.payloadStart_le with ⟨r, hParse, hFound, _⟩
    rcases Option.ne_none_iff_exists'.mp (hFound hOffset) with ⟨p, rfl⟩
    simp only [iterateOptions, coapOptGetNext_false, hParse,
      Option.bind_eq_bind, Option.bind_some] at hRun
    rcases Option.bind_eq_some_iff.mp hRun with ⟨tail, hTail, hVisit⟩
    have hVisit := Option.some.inj hVisit
    refine ⟨fuel, _, tail, _, rfl, hVisit.symm, rfl, ?_, hTail⟩
    simp only
    omega

/-
  Where an option ends at 2^16 or later, the next call starts
  at a lower place and finds another option there.
-/
theorem not_tiled_of_le
    {vs : List OptionVisit} (hSplit : m.options = os₁ ++ os₂)
    (hPos : pos = sizeofCoapHdr + m.token.length + (encodeOptions os₁).length)
    (hBelow : pos < 2 ^ 16) (hEnd : 2 ^ 16 ≤ m.optionsEnd)
    (hRun : iterateOptions (m.context observe) fuel ⟨nr % 2 ^ 16, pos⟩ false = some vs) :
    ¬ Tiled pos vs last := by
  induction os₂ generalizing os₁ nr pos fuel vs with
  | nil =>
    have hLast : pos = m.optionsEnd := by
      rw [hPos, CoapMessage.optionsEnd, hSplit, List.append_nil]
    omega
  | cons o os₂ ih =>
    intro hTiled
    cases fuel with
    | zero => cases hRun
    | succ fuel =>
      have hNext := coapOptGetNext_context observe nr hSplit hPos
      have hBound := CoapMessage.end_of_split hSplit
      have hPayload := m.optionsEnd_le
      simp only [iterateOptions, hNext, Option.bind_eq_bind, Option.bind_some] at hRun
      rcases Option.bind_eq_some_iff.mp hRun with ⟨rest, hRest, hVisit⟩
      have hVisit := Option.some.inj hVisit
      subst hVisit
      rcases hTiled with ⟨_, _, _, hTail⟩
      have hTail : Tiled (pos + o.size) rest last := by
        simpa [CoapOption.size, Nat.add_assoc] using hTail
      by_cases hStay : pos + o.size < 2 ^ 16
      · rw [Nat.mod_eq_of_lt hStay] at hRest
        rcases split_snoc hSplit hPos with ⟨hSplit, hPos⟩
        exact ih hSplit hPos hStay hRest hTail
      · -- the next call looks at an earlier place
        rcases iterateOptions_found (by simp only; omega)
            hRest with ⟨_, v, tail, _, _, rfl, hStart, _⟩
        have hFirst := hTail.1
        rw [hStart] at hFirst
        change (pos + o.size) % 2 ^ 16 = pos + o.size at hFirst
        omega

----
-- Bounds
----

/- What a packet points at lies in its buffer. -/
structure InBounds
    (cfg : NanocoapConfig)
    (pkt : CoapPkt) : Prop where
  token : ∀ t, pkt.token = some t → ∃ tkl, pkt.coapGetTokenLen = some tkl ∧ t + tkl ≤ pkt.hdr.length
  options : ∀ e ∈ pkt.options.take pkt.optionsLen, e.offset < pkt.hdr.length
  optionsLen : pkt.optionsLen ≤ cfg.noptsMax
  payload : pkt.payload + pkt.payloadLen ≤ pkt.hdr.length

/-
  Whatever `opt` holds at first, the calls come to an end,
  and the options they return are the bytes between the token
  and the payload marker, or the end of the message.
-/
def IterationTiles
    (pkt : CoapPkt) : Prop :=
  ∀ opt : CoapOptpos, ∃ fuel vs tokenEnd optionsEnd,
      iterateOptions pkt fuel opt true = some vs ∧ pkt.coapGetTotalHdrLen = some tokenEnd ∧
      Tiled tokenEnd vs optionsEnd ∧
      (∀ v ∈ vs, tokenEnd ≤ v.value ∧ v.value + v.len.toNat ≤ pkt.payload) ∧
      ((optionsEnd = pkt.payload ∧ optionsEnd = pkt.hdr.length) ∨
        (optionsEnd + 1 = pkt.payload ∧ pkt.hdr[optionsEnd]? = some 0xff))

/-
  Parsing ends without a read outside of the buffer, and what
  it accepts is in bounds and can be iterated over.
-/
def ParsesInBounds
    (cfg : NanocoapConfig) (buf : List UInt8) : Prop :=
  ∃ r, coapParse cfg buf = some r ∧
    ∀ pkt, r = .ok pkt → pkt.hdr = buf ∧ InBounds cfg pkt ∧ IterationTiles pkt

variable {cfg : NanocoapConfig}

theorem coapGetTotalHdrLen_context :
    (m.context observe).coapGetTotalHdrLen = some (sizeofCoapHdr + m.token.length) := by
  simp [CoapPkt.coapGetTotalHdrLen, CoapMessage.coapGetTokenLen_context]

theorem tokenEnd_lt :
    sizeofCoapHdr + m.token.length < 2 ^ 16 := by
  have hToken := m.token_le
  unfold sizeofCoapHdr
  unfold coapTokenLengthMax at hToken
  omega

/- An iteration starts after the token. -/
theorem iterateOptions_init
    {fuel : Nat} {opt : CoapOptpos} :
    iterateOptions (m.context observe) fuel opt true = iterateOptions (m.context observe) fuel
        ⟨0 % 2 ^ 16, sizeofCoapHdr + m.token.length⟩ false := by
  cases fuel with
  | zero => rfl
  | succ fuel =>
    simp only [iterateOptions, coapOptGetNext_init, coapGetTotalHdrLen_context, if_true,
      Nat.mod_eq_of_lt tokenEnd_lt, Nat.zero_mod, Bool.false_eq_true, if_false]

theorem inBounds_context
    (hFits : m.Fits cfg) :
    InBounds cfg (m.context observe) where
  token := by
    intro t ht
    refine ⟨_, CoapMessage.coapGetTokenLen_context, ?_⟩
    have hTokenEnd := m.tokenEnd_le
    have hOptionsEnd := m.optionsEnd_le
    have hPayload := m.payloadStart_le
    simp only [CoapMessage.context] at ht ⊢
    split at ht
    · cases ht
    · cases ht
      omega
  options := by
    intro e he
    rcases mem_recordedOptions (List.mem_of_mem_take he) with ⟨os₁, o, os₂, hSplit, _, hOffset⟩
    have hEnd := CoapMessage.end_of_split hSplit
    have hSize := o.size_pos
    have hOptionsEnd := m.optionsEnd_le
    have hPayload := m.payloadStart_le
    change e.offset < m.encode.length
    omega
  optionsLen := hFits
  payload := by
    change m.payloadStart + (m.payload.getD []).length % 2 ^ 16 ≤ m.encode.length
    rw [m.length_encode]
    have hMod := Nat.mod_le (m.payload.getD []).length (2 ^ 16)
    omega

theorem iterationTiles_context
    (hEnd : m.optionsEnd < 2 ^ 16) :
    IterationTiles (m.context observe) := by
  intro opt
  let tokenEnd := sizeofCoapHdr + m.token.length
  let vs := visits 0 tokenEnd m.options
  have hRun : iterateOptions (m.context observe) (m.options.length + 1) opt true = some vs := by
    rw [iterateOptions_init]
    exact iterateOptions_context (List.nil_append _).symm rfl hEnd (Nat.lt_succ_self _)
  have hTiled : Tiled tokenEnd vs m.optionsEnd := tiled_visits
  refine ⟨_, vs, tokenEnd, m.optionsEnd, hRun, coapGetTotalHdrLen_context, hTiled, ?_, ?_⟩
  · intro v hv
    have hValue := hTiled.value_mem.2 v hv
    have hPayload := m.optionsEnd_le
    refine ⟨hValue.1, ?_⟩
    change _ ≤ m.payloadStart
    omega
  · cases hPayload : m.payload with
    | none =>
      left
      have hLength := m.length_encode
      simp only [CoapMessage.context, CoapMessage.payloadStart, hPayload] at hLength ⊢
      simpa using hLength.symm
    | some payload =>
      right
      refine ⟨?_, CoapMessage.marker_of_payload hPayload⟩
      simp [CoapMessage.context, CoapMessage.payloadStart, hPayload]

theorem not_iterationTiles_context
    (hEnd : 2 ^ 16 ≤ m.optionsEnd) :
    ¬ IterationTiles (m.context observe) := by
  intro hTiles
  rcases hTiles ⟨0, 0⟩ with ⟨fuel, vs, tokenEnd, optionsEnd, hRun, hTotal, hTiled, _⟩
  rw [coapGetTotalHdrLen_context] at hTotal
  have hTotal := Option.some.inj hTotal
  subst hTotal
  rw [iterateOptions_init] at hRun
  exact not_tiled_of_le (List.nil_append _).symm rfl tokenEnd_lt hEnd hRun hTiled

/-
  The parser and the iteration keep to the message exactly if
  its options end within the first 65535 bytes.
-/
theorem parsesInBounds_iff
    (cfg : NanocoapConfig) (buf : List UInt8) :
    ParsesInBounds cfg buf ↔
      ∀ m : CoapMessage, m.encode = buf → m.Fits cfg → m.optionsEnd < 2 ^ 16 := by
  constructor
  · rintro ⟨r, hParse, hPacket⟩ m hEncode hFits
    by_contra hEnd
    rcases coapParse_encode hFits with ⟨v, hContext⟩
    rw [hEncode, hParse] at hContext
    have hOk := hPacket _ (Option.some.inj hContext)
    exact not_iterationTiles_context (by omega) hOk.2.2
  · intro hShort
    rcases coapParse_sound cfg buf with ⟨r, hParse, hSound⟩
    refine ⟨r, hParse, ?_⟩
    intro pkt hOk
    rcases hSound pkt hOk with ⟨m, v, hEncode, hFits, rfl⟩
    have hEnd := hShort m hEncode hFits
    exact ⟨hEncode, inBounds_context hFits, iterationTiles_context hEnd⟩

/- A message with one option. -/
def oneOption
    (o : CoapOption) : CoapMessage where
  verType := 4
  code := 0x01
  idHigh := 0x00
  idLow := 0x00
  token := []
  options := [o]
  payload := none
  verType_lt := confirmable_lt
  token_le := noToken_le
  empty := by simp

theorem encode_oneOption
    (o : CoapOption) :
    (oneOption o).encode = [0x40, 0x01, 0x00, 0x00] ++ o.encode := by
  rw [CoapMessage.encode_eq_cons]
  simp [oneOption, encodePayload]

theorem fits_oneOption
    (o : CoapOption) (hMax : 1 ≤ cfg.noptsMax) :
    (oneOption o).Fits cfg := by
  simp only [CoapMessage.Fits, CoapMessage.recorded, oneOption, recordedOptions]
  split
  · exact Nat.zero_le _
  · exact hMax

/- With 65536 bytes an iteration starts over in the header. -/
theorem not_parsesInBounds_long_option :
    ¬ ParsesInBounds ⟨16, false, by decide⟩
      ([0x40, 0x01, 0x00, 0x00] ++ ([0x0e, 0xfe, 0xec] ++ List.replicate 65529 0)) := by
  rintro ⟨r, hParse, hPacket⟩
  generalize hValue : List.replicate 65529 (0 : UInt8) = value at hParse hPacket
  have hLength : value.length = 65529 := by
    rw [← hValue, List.length_replicate]
  let o : CoapOption := ⟨0, value, Nat.zero_le _, by rw [hLength]; decide⟩
  have hEncode : o.encode = [0x0e, 0xfe, 0xec] ++ value := by
    simp only [o, CoapOption.encode, CoapOption.header, hLength]
    rfl
  have hEnd : 2 ^ 16 ≤ (oneOption o).optionsEnd := by
    have hSize := o.length_encode
    rw [hEncode, List.length_append, hLength] at hSize
    simp only [CoapMessage.optionsEnd, oneOption, encodeOptions_cons, encodeOptions_nil,
      List.append_nil, CoapOption.length_encode, sizeofCoapHdr]
    simp only [List.length_cons, List.length_nil] at hSize ⊢
    omega
  have hFits : (oneOption o).Fits ⟨16, false, by decide⟩ := fits_oneOption o (by simp)
  rcases coapParse_encode hFits with ⟨v, hContext⟩
  rw [encode_oneOption, hEncode, hParse] at hContext
  have hOk := hPacket _ (Option.some.inj hContext)
  exact not_iterationTiles_context hEnd hOk.2.2

----
-- Option Numbers
----

/-
  An option is found only by a number that an option of the
  message has.
-/
def FindsByNumber
    (cfg : NanocoapConfig) (buf : List UInt8) : Prop :=
  ∀ pkt, coapParse cfg buf = some (.ok pkt) →
    ∀ n, coapFindOption pkt n ≠ none → ∃ m : CoapMessage, m.encode = buf ∧ n ∈ m.numbers

variable {n : Nat}

theorem coapFindOption_context :
    coapFindOption (m.context observe) n = (m.recorded.find? (fun e => e.optNum == n)).map
        CoapOptpos.offset := by
  simp [coapFindOption, CoapMessage.context]

theorem coapFindOption_ne_none_iff :
    coapFindOption (m.context observe) n ≠ none ↔ ∃ e ∈ m.recorded, e.optNum = n := by
  rw [coapFindOption_context]
  simp

variable (pos) in
/- Every option with a new number is recorded. -/
theorem recorded_of_mem_optionNumbers
    (hMem : n ∈ optionNumbers nr os) :
    n = nr ∨ ∃ e ∈ recordedOptions nr pos os, e.optNum = n % 2 ^ 16 := by
  induction os generalizing nr pos with
  | nil => cases hMem
  | cons o os ih =>
    simp only [recordedOptions]
    by_cases hZero : o.delta = 0
    · simp only [hZero, if_true, Nat.add_zero]
      simp only [optionNumbers, hZero, Nat.add_zero, List.mem_cons] at hMem
      rcases hMem with rfl | hMem
      · exact .inl rfl
      · exact ih (pos + o.size) hMem
    · right
      simp only [hZero, if_false]
      rcases List.mem_cons.mp hMem with rfl | hMem
      · exact ⟨_, List.mem_cons_self, rfl⟩
      · rcases ih (pos + o.size) hMem with rfl | ⟨e, he, hNum⟩
        · exact ⟨_, List.mem_cons_self, rfl⟩
        · exact ⟨e, List.mem_cons_of_mem _ he, hNum⟩

variable (nr) in
theorem mem_optionNumbers_of_split
    {os₁ os₂ : List CoapOption} {o : CoapOption} (hSplit : os = os₁ ++ o :: os₂) :
    nr + (os₁.map CoapOption.delta).sum + o.delta ∈ optionNumbers nr os := by
  subst hSplit
  induction os₁ generalizing nr with
  | nil => exact List.mem_cons_self
  | cons o' os₁ ih =>
    rw [List.map_cons, List.sum_cons, ← Nat.add_assoc]
    exact List.mem_cons_of_mem _ (ih _)

/-
  Options are found by their numbers alone exactly if a
  number that does not fit into 16 bits is cut to the number
  of another option.
-/
theorem findsByNumber_iff
    (cfg : NanocoapConfig) (buf : List UInt8) :
    FindsByNumber cfg buf ↔ ∀ m : CoapMessage, m.encode = buf → m.Fits cfg →
        ∀ n ∈ m.numbers, 2 ^ 16 ≤ n → n % 2 ^ 16 ∈ m.numbers := by
  constructor
  · intro hFinds m hEncode hFits n hn hLarge
    rcases coapParse_encode hFits with ⟨v, hContext⟩
    rw [hEncode] at hContext
    rcases recorded_of_mem_optionNumbers _ hn with rfl | hRecorded
    · omega
    · rcases hFinds _ hContext _
          (coapFindOption_ne_none_iff.mpr hRecorded)
        with ⟨m', hEncode', hMem⟩
      have hSame : m' = m := CoapMessage.encode_injective (hEncode'.trans hEncode.symm)
      rwa [hSame] at hMem
  · intro hCut pkt hParse n hFind
    rcases coapParse_sound cfg buf with ⟨r, hResult, hSound⟩
    rw [hParse] at hResult
    rcases hSound pkt (Option.some.inj hResult).symm with ⟨m, v, hEncode, hFits, rfl⟩
    refine ⟨m, hEncode, ?_⟩
    rcases coapFindOption_ne_none_iff.mp hFind with ⟨e, he, rfl⟩
    rcases mem_recordedOptions he with ⟨os₁, o, os₂, hSplit, hNum, _⟩
    have hMem := mem_optionNumbers_of_split 0 hSplit
    rw [hNum]
    by_cases hLarge : 0 + (os₁.map CoapOption.delta).sum + o.delta < 2 ^ 16
    · rw [Nat.mod_eq_of_lt hLarge]
      exact hMem
    · exact hCut m hEncode hFits _ hMem (by omega)

/- The option 65804 is found as the option 268. -/
theorem not_findsByNumber_large_delta :
    ¬ FindsByNumber ⟨16, false, by decide⟩ [0x40, 0x01, 0x00, 0x00, 0xe0, 0xff, 0xff] := by
  intro hFinds
  let o : CoapOption := ⟨65804, [], le_rfl, Nat.zero_le _⟩
  have hFits : (oneOption o).Fits ⟨16, false, by decide⟩ := fits_oneOption o (by simp)
  rcases coapParse_encode hFits with ⟨v, hContext⟩
  have hBytes : (oneOption o).encode = [0x40, 0x01, 0x00, 0x00, 0xe0, 0xff, 0xff] := by
    have hOption : o.encode = [0xe0, 0xff, 0xff] := by
      simp [o, CoapOption.encode, CoapOption.header, optionByte, fieldExtension, fieldNybble, htons]
    rw [encode_oneOption, hOption]
    rfl
  have hRecorded : (oneOption o).recorded = [⟨268, 4⟩] := by
    simp [CoapMessage.recorded, oneOption, recordedOptions, sizeofCoapHdr, o]
  have hFound : coapFindOption ((oneOption o).context v) 268 ≠ none := by
    rw [coapFindOption_ne_none_iff, hRecorded]
    exact ⟨⟨268, 4⟩, List.mem_cons_self, rfl⟩
  rw [hBytes] at hContext
  rcases hFinds _ hContext 268 hFound with ⟨m, hEncode, hMem⟩
  have hSame : m = oneOption o := CoapMessage.encode_injective (hEncode.trans hBytes.symm)
  rw [hSame] at hMem
  simp [CoapMessage.numbers, oneOption, optionNumbers, o] at hMem

end Riot
