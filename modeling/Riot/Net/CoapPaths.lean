import Riot.Net.CoapStringRoundTrip

/-
  Paths that are written as options and read back.
-/

open ByteBuffer Segments

----
-- Paths
----

namespace Riot

/- The strings that stand for paths. -/
structure PathString
    (s : List UInt8) : Prop where
  -- the NUL ends the string
  text : 0 ∉ s
  -- the root, or a first segment that is not empty
  shape : s = [slash] ∨ ∃ c t, s = slash :: c :: t ∧ c ≠ slash
  -- the string and a copy of it have their place in memory
  memory : 2 * (s.length + 1) < 2 ^ 32

/- The segments of a path, which starts with a separator. -/
def segmentsOf
    (s : List UInt8) : List (List UInt8) :=
  s.tail.splitOn slash

/-
  A message where the string was put behind the options of
  `front`, and nothing of its number before and after it.
-/
structure PathWritten
    (front : CoapMessage) (last n : UInt16) (s : List UInt8) (after : List CoapOption)
    (p : Option (List UInt8))
    (message : List UInt8) : Prop where
  noPayload : front.payload = none
  before : ∀ x ∈ front.numbers, x < n.toNat
  lastNumber : front.numbers.getLast?.getD 0 = last.toNat
  put :
    ∃ buf buf' k, buf.take front.encode.length = front.encode ∧
      coapOptPutString buf front.encode.length last n (s ++ [0]) slash = some (buf', k) ∧
      message = buf'.take (front.encode.length + k) ++ (encodeOptions after ++ encodePayload p) ∧
      ∀ x ∈ optionNumbers (if k = 0 then last.toNat else n.toNat) after, x % 2 ^ 16 ≠ n.toNat

/-
  Adding the string to a packet without an option of the
  number writes what putting it writes.
-/
def WritersAgree
    (n : UInt16) (s : List UInt8) : Prop :=
  ∀ (cfg : NanocoapConfig) (pkt pkt' : CoapPkt)
      (last : UInt16) (w : Nat), lastonum pkt = last.toNat →
    (∀ e ∈ pkt.options.take pkt.optionsLen, e.optNum ≠ n.toNat) →
    coapOptAddChars cfg pkt n (s ++ [0]) s.length slash = some (.ok w, pkt') →
    coapOptPutString pkt.hdr pkt.payload last n (s ++ [0]) slash = some (pkt'.hdr, w) ∧
    pkt'.payload = pkt.payload + w

variable {s : List UInt8}

section

variable (hPath : PathString s)

include hPath

theorem PathString.joined_segmentsOf :
    joined slash (segmentsOf s) = s := by
  rw [segmentsOf, joined_splitOn]
  rcases hPath.shape with rfl | ⟨c, t, rfl, _⟩
  · rfl
  · rfl

theorem PathString.segments :
    ∀ seg ∈ segmentsOf s, slash ∉ seg ∧ 0 ∉ seg := by
  intro seg hSeg
  refine ⟨notMem_of_mem_splitOn hSeg, ?_⟩
  intro hZero
  have hIn : 0 ∈ joined slash (segmentsOf s) :=
    List.mem_flatMap.mpr ⟨_, hSeg, List.mem_cons_of_mem _ hZero⟩
  rw [hPath.joined_segmentsOf] at hIn
  exact hPath.text hIn

theorem PathString.length_pos :
    0 < s.length := by
  rcases hPath.shape with rfl | ⟨c, t, rfl, _⟩
  · exact Nat.one_pos
  · exact Nat.succ_pos _

theorem PathString.length_lt :
    s.length + 1 < 2 ^ 32 := by
  have hMemory := hPath.memory
  omega

/- But for the root, the first segment is not empty. -/
theorem PathString.first_segment
    (hRoot : s ≠ [slash]) :
    ∃ seg segs, segmentsOf s = seg :: segs ∧ seg ≠ [] := by
  rcases hPath.shape with hEq | ⟨c, t, hEq, hc⟩
  · exact absurd hEq hRoot
  cases hSplit : segmentsOf s with
  | nil => exact absurd hSplit (List.splitOn_ne_nil _ _)
  | cons seg segs =>
    refine ⟨seg, segs, rfl, ?_⟩
    rintro rfl
    have hJoined := hPath.joined_segmentsOf
    rw [hSplit, hEq, joined_cons, List.nil_append, List.cons.injEq] at hJoined
    cases segs with
    | nil => cases hJoined.2
    | cons seg' segs =>
      rw [joined_cons, List.cons.injEq] at hJoined
      exact hc hJoined.2.1.symm

end

----
-- Options of Segments
----

/- The options that hold the segments, after `last`. -/
inductive SegmentOptions
    (n : Nat) :
    Nat → List (List UInt8) → List CoapOption → Prop
| nil {last : Nat} :
    SegmentOptions n last [] []
| cons
    {last : Nat} {o : CoapOption} {segs : List (List UInt8)} {os : List CoapOption} :
    o.delta = n - last → SegmentOptions n n segs os →
    SegmentOptions n last (o.value :: segs) (o :: os)

variable {n last nr pos : Nat} {segs : List (List UInt8)}
variable {os os₁ os₂ after : List CoapOption}

theorem exists_segmentOptions
    (hDelta : n - last ≤ maxField) (hShort : ∀ seg ∈ segs, seg.length ≤ maxField) :
    ∃ os, SegmentOptions n last segs os := by
  induction segs generalizing last with
  | nil => exact ⟨[], .nil⟩
  | cons seg segs ih =>
    have hNext : n - n ≤ maxField := by
      rw [Nat.sub_self]
      exact Nat.zero_le _
    rcases ih hNext (fun t ht => hShort t (List.mem_cons_of_mem _ ht)) with ⟨os, hOs⟩
    let o : CoapOption := ⟨n - last, seg, hDelta, hShort seg List.mem_cons_self⟩
    have hCons : SegmentOptions n last (o.value :: segs) (o :: os) := .cons rfl hOs
    exact ⟨o :: os, hCons⟩

namespace SegmentOptions

/- Their bytes are what the writers write. -/
theorem encode_eq
    (hOs : SegmentOptions n last segs os) :
    encodeOptions os = segmentBytes n last segs := by
  induction hOs with
  | nil => rfl
  | cons hDelta hRest ih =>
    rw [encodeOptions_cons, CoapOption.encode_eq, hDelta, ih, segmentBytes, List.append_assoc]

/- The options after the first one repeat its number. -/
theorem delta_eq_zero
    (hOs : SegmentOptions n last segs os) (hLast : last = n) :
    ∀ o ∈ os, o.delta = 0 := by
  induction hOs with
  | nil => simp
  | cons hDelta hRest ih =>
    intro o ho
    rcases List.mem_cons.mp ho with rfl | ho
    · rw [hDelta, hLast, Nat.sub_self]
    · exact ih rfl o ho

/- The text goes on up to the options after them. -/
theorem text
    {first : Bool} (hOs : SegmentOptions n last segs os)
    (hRun : first = true ∨ last = n) (hSome : os ≠ [] ∨ first = false)
    (hAfter : stringRun false after = []) :
    textOf slash (stringRun first (os ++ after)) = joined slash segs := by
  induction hOs generalizing first with
  | nil =>
    have hFirst : first = false := hSome.resolve_left (fun h => h rfl)
    rw [List.nil_append, hFirst, hAfter]
    rfl
  | @cons last o segs os hDelta hRest ih =>
    have hNext : first = true ∨ o.delta % 2 ^ 16 = 0 := by
      rcases hRun with hFirst | hLast
      · exact .inl hFirst
      · right
        rw [hDelta, hLast, Nat.sub_self, Nat.zero_mod]
    rw [List.cons_append, stringRun, if_pos hNext, textOf_cons,
      ih (.inr rfl) (.inr rfl), joined_cons]

end SegmentOptions

theorem recordedOptions_append :
    recordedOptions nr pos (os₁ ++ os₂) = recordedOptions nr pos os₁ ++ recordedOptions
          (nr + (os₁.map CoapOption.delta).sum)
          (pos + (encodeOptions os₁).length) os₂ := by
  induction os₁ generalizing nr pos with
  | nil => rfl
  | cons o os₁ ih =>
    simp only [List.cons_append, recordedOptions, ih, encodeOptions_cons, List.length_append,
      CoapOption.length_encode, List.map_cons, List.sum_cons, Nat.add_assoc]
    by_cases hZero : o.delta = 0
    · rw [if_pos hZero, if_pos hZero]
    · rw [if_neg hZero, if_neg hZero, List.cons_append]

/- What is recorded has the number of an option. -/
theorem optNum_of_mem_recordedOptions
    {e : CoapOptpos} (hMem : e ∈ recordedOptions nr pos os) :
    ∃ x ∈ optionNumbers nr os, e.optNum = x % 2 ^ 16 := by
  rcases mem_recordedOptions hMem with ⟨os₁, o, os₂, hSplit, hNum, _⟩
  exact ⟨_, mem_optionNumbers_of_split nr hSplit, hNum⟩

/- Options that repeat a number are not recorded. -/
theorem recordedOptions_eq_nil
    (hZero : ∀ o ∈ os, o.delta = 0) :
    recordedOptions nr pos os = [] := by
  induction os generalizing nr pos with
  | nil => rfl
  | cons o os ih =>
    rw [recordedOptions, if_pos (hZero o List.mem_cons_self)]
    exact ih (fun o' ho' =>
      hZero o' (List.mem_cons_of_mem _ ho'))

/- The last number is the sum of the distances. -/
theorem getLast?_optionNumbers :
    (optionNumbers nr os).getLast?.getD nr = nr + (os.map CoapOption.delta).sum := by
  induction os generalizing nr with
  | nil => rfl
  | cons o os ih =>
    have hRest := @ih (nr + o.delta)
    rw [optionNumbers, List.map_cons, List.sum_cons, ← Nat.add_assoc, ← hRest, List.getLast?_cons,
      Option.getD_some]

/- The run ends before another number. -/
theorem stringRun_after
    (hAfter : ∀ x ∈ optionNumbers nr after, x % 2 ^ 16 ≠ n)
    (hNumber : nr % 2 ^ 16 = n) :
    stringRun false after = [] := by
  cases after with
  | nil => rfl
  | cons o after =>
    have hFirst := hAfter (nr + o.delta) List.mem_cons_self
    have hOther : ¬ (false = true ∨ o.delta % 2 ^ 16 = 0) := by
      rintro (hFalse | hSame)
      · cases hFalse
      · omega
    rw [stringRun, if_neg hOther]

----
-- Messages with a Path
----

variable {cfg : NanocoapConfig} {front m : CoapMessage} {pkt : CoapPkt}
variable {last n : UInt16} {s message : List UInt8} {os after : List CoapOption}
variable {p : Option (List UInt8)}

/- The options of a message are known from its bytes. -/
theorem CoapMessage.options_of_encode
    (hEncode : m.encode = front.header ++ (front.token ++ (encodeOptions os ++ encodePayload p))) :
    m.options = os ∧ m.payload = p ∧ m.token.length = front.token.length := by
  have hToken := m.token_le
  have hFront := front.token_le
  unfold coapTokenLengthMax at hToken hFront
  simp only [encode, header, List.cons_append, List.nil_append, List.cons.injEq] at hEncode
  rcases hEncode with ⟨hByte, _, _, _, hTail⟩
  have hByte := congrArg UInt8.toNat hByte
  simp only [UInt8.toNat_ofNat'] at hByte
  have hLength : m.token.length = front.token.length := by
    omega
  rcases List.append_inj hTail hLength with ⟨_, hTail⟩
  rcases encodeOptions_injective hTail with ⟨hOptions, hPayload⟩
  exact ⟨hOptions, hPayload, hLength⟩

/- The packet of a message that holds further options. -/
theorem context_of_parse
    (hNone : front.payload = none)
    (hMessage : message = front.encode ++ (encodeOptions os ++ encodePayload p))
    (hParse : coapParse cfg message = some (.ok pkt)) :
    ∃ (m : CoapMessage) (observe : Nat), pkt = m.context observe ∧
      m.options = front.options ++ os ∧ sizeofCoapHdr + m.token.length +
          (encodeOptions front.options).length = front.encode.length := by
  rcases coapParse_sound cfg message with ⟨r, hResult, hSound⟩
  rw [hParse, Option.some.injEq] at hResult
  rcases hSound pkt hResult.symm with ⟨m, v, hEncode, _, hPkt⟩
  have hParts : m.encode = front.header ++
          (front.token ++ (encodeOptions (front.options ++ os) ++ encodePayload p)) := by
    rw [hEncode, hMessage, CoapMessage.encode, hNone, encodePayload, encodeOptions_append]
    simp only [List.append_assoc, List.nil_append]
  rcases CoapMessage.options_of_encode hParts with ⟨hOptions, _, hToken⟩
  refine ⟨m, v, hPkt, hOptions, ?_⟩
  rw [hToken, CoapMessage.encode, hNone, encodePayload, List.append_nil, List.length_append,
    List.length_append, Nat.add_assoc]
  rfl

namespace PathWritten

variable (hWritten : PathWritten front last n s after p message)

include hWritten in
theorem sum_deltas :
    (front.options.map CoapOption.delta).sum = last.toNat := by
  have hLast : front.numbers.getLast?.getD 0 = _ := getLast?_optionNumbers
  rw [hWritten.lastNumber, Nat.zero_add] at hLast
  exact hLast.symm

include hWritten in
theorem last_lt
    (hn : n.toNat ≠ 0) :
    last.toNat < n.toNat := by
  have hLast := hWritten.lastNumber
  cases hNumbers : front.numbers.getLast? with
  | none =>
    rw [hNumbers, Option.getD_none] at hLast
    omega
  | some x =>
    rw [hNumbers, Option.getD_some] at hLast
    rw [← hLast]
    exact hWritten.before x (List.mem_of_getLast? hNumbers)

include hWritten in
/- Nothing comes before the number zero. -/
theorem front_eq_nil
    (hn : n.toNat = 0) :
    front.options = [] := by
  cases hOptions : front.options with
  | nil => rfl
  | cons o os =>
    have hMem : 0 + o.delta ∈ front.numbers := by
      rw [CoapMessage.numbers, hOptions]
      exact List.mem_cons_self
    have hLess := hWritten.before _ hMem
    omega

include hWritten in
/- For the root, nothing was written. -/
theorem root
    (hRoot : s = [slash]) (hn : n.toNat ≠ 0) :
    message = front.encode ++ (encodeOptions after ++ encodePayload p) ∧
    ∀ x ∈ optionNumbers last.toNat after, x % 2 ^ 16 ≠ n.toNat := by
  have hLess := hWritten.last_lt hn
  rcases hWritten.put with ⟨buf, buf', k, hFront, hPut, hMessage, hAfter⟩
  have hNew : last ≠ n := by
    rintro rfl
    omega
  rw [hRoot, coapOptPutString_root hNew, Option.some.injEq, Prod.mk.injEq] at hPut
  rcases hPut with ⟨rfl, rfl⟩
  rw [Nat.add_zero, hFront] at hMessage
  rw [if_pos rfl] at hAfter
  exact ⟨hMessage, hAfter⟩

include hWritten in
/- Of another path the segments were written. -/
theorem path
    (hPath : PathString s) (hRoot : s ≠ [slash]) :
    message = front.encode ++ (segmentBytes n.toNat last.toNat (segmentsOf s) ++
            (encodeOptions after ++ encodePayload p)) ∧
    ∀ x ∈ optionNumbers n.toNat after, x % 2 ^ 16 ≠ n.toNat := by
  rcases hWritten.put with ⟨buf, buf', k, hFront, hPut, hMessage, hAfter⟩
  rcases hPath.first_segment hRoot with ⟨seg, segs, hSegments, hFirst⟩
  have hEmit : last = n ∨ ∀ t ∈ (segmentsOf s).head?, t ≠ [] := by
    right
    intro t ht
    rw [hSegments, List.head?_cons, Option.mem_some_iff] at ht
    rw [← ht]
    exact hFirst
  have hJoined := hPath.joined_segmentsOf
  rw [← hJoined] at hPut
  rcases coapOptPutString_joined hPath.segments hEmit hPut with ⟨hCount, hTake⟩
  have hSome : ¬ k = 0 := by
    have hHeader := fieldHeader_length_pos
        (d := n.toNat - last.toNat) (l := seg.length)
    rw [hCount, hSegments, segmentBytes, List.length_append]
    omega
  rw [if_neg hSome] at hAfter
  rw [hTake, hFront, List.append_assoc] at hMessage
  exact ⟨hMessage, hAfter⟩

include hWritten in
/- No earlier option is recorded under the number. -/
theorem front_ne
    {pos : Nat} {e : CoapOptpos} (hMem : e ∈ recordedOptions 0 pos front.options) :
    e.optNum ≠ n.toNat := by
  rcases optNum_of_mem_recordedOptions hMem with ⟨x, hx, hNum⟩
  have hLess := hWritten.before x hx
  omega

include hWritten in
/- The string is found where it was put. -/
theorem found
    (hPath : PathString s) (hRoot : s ≠ [slash]) (hn : n.toNat ≠ 0)
    (hNear : front.encode.length < 2 ^ 16)
    (hShort : ∀ seg ∈ segmentsOf s, seg.length ≤ maxField)
    (hParse : coapParse cfg message = some (.ok pkt)) :
    StringReadsBack pkt n s := by
  have hLess := hWritten.last_lt hn
  have hBound := n.toNat_lt
  rcases hWritten.path hPath hRoot with ⟨hMessage, hAfter⟩
  have hDelta : n.toNat - last.toNat ≤ maxField := by
    unfold maxField
    omega
  rcases exists_segmentOptions hDelta hShort with ⟨os, hOs⟩
  rw [← hOs.encode_eq, ← List.append_assoc (encodeOptions os), ← encodeOptions_append] at hMessage
  rcases context_of_parse hWritten.noPayload hMessage hParse
    with ⟨m, observe, rfl, hOptions, hStart⟩
  rcases hPath.first_segment hRoot with ⟨seg, segs, hSegments, _⟩
  rw [hSegments] at hOs
  -- the first of the options is recorded
  have hFind : coapFindOption (m.context observe) n.toNat = some front.encode.length := by
    rw [coapFindOption_context, CoapMessage.recorded, hOptions,
      recordedOptions_append, List.find?_append]
    have hNone : (recordedOptions 0 (sizeofCoapHdr + m.token.length) front.options).find?
          (fun e => e.optNum == n.toNat) = none := by
      rw [List.find?_eq_none]
      intro e he hEq
      exact hWritten.front_ne he (eq_of_beq hEq)
    rw [hNone, Option.none_or, hWritten.sum_deltas, hStart]
    cases hOs with
    | @cons _ o _ os hFirst hRest =>
      have hNumber : 0 + last.toNat + o.delta = n.toNat := by
        omega
      have hNonzero : ¬ o.delta = 0 := by
        omega
      rw [List.cons_append, recordedOptions, if_neg hNonzero, List.find?_cons_of_pos, hNumber,
        Nat.mod_eq_of_lt hNear]
      · rfl
      · rw [hNumber, Nat.mod_eq_of_lt hBound]
        exact beq_self_eq_true _
  have hEnd : stringRun false after = [] := stringRun_after hAfter (Nat.mod_eq_of_lt hBound)
  have hSome : os ≠ [] ∨ true = false := by
    left
    rintro rfl
    cases hOs
  refine (readsBack_found_iff hPath.text hPath.length_pos hPath.length_lt hFind hOptions
      hStart.symm).mpr ?_
  rw [hOs.text (.inl rfl) hSome hEnd, ← hSegments]
  exact hPath.joined_segmentsOf

include hWritten in
/- The root is read where no option was written. -/
theorem root_readsBack
    (hPath : PathString s) (hRoot : s = [slash]) (hn : n.toNat ≠ 0)
    (hParse : coapParse cfg message = some (.ok pkt)) :
    StringReadsBack pkt n s := by
  rcases hWritten.root hRoot hn with ⟨hMessage, hAfter⟩
  rcases context_of_parse hWritten.noPayload hMessage hParse
    with ⟨m, observe, rfl, hOptions, hStart⟩
  have hFind : coapFindOption (m.context observe) n.toNat = none := by
    by_contra hSome
    rcases coapFindOption_ne_none_iff.mp hSome with ⟨e, he, hNum⟩
    rw [CoapMessage.recorded, hOptions, recordedOptions_append,
      List.mem_append, hWritten.sum_deltas, Nat.zero_add] at he
    rcases he with hFront | hBehind
    · exact hWritten.front_ne hFront hNum
    · rcases optNum_of_mem_recordedOptions hBehind with ⟨x, hx, hx'⟩
      exact hAfter x hx (hx'.symm.trans hNum)
  exact (readsBack_none_iff hPath.text hPath.length_pos hPath.length_lt hFind).mpr hRoot

include hWritten in
/- Options of the number zero are not found. -/
theorem not_readsBack_zero
    (hPath : PathString s) (hRoot : s ≠ [slash]) (hn : n.toNat = 0)
    (hShort : ∀ seg ∈ segmentsOf s, seg.length ≤ maxField)
    (hParse : coapParse cfg message = some (.ok pkt)) :
    ¬ StringReadsBack pkt n s := by
  rcases hWritten.path hPath hRoot with ⟨hMessage, hAfter⟩
  have hFront := hWritten.front_eq_nil hn
  have hLast : last.toNat = 0 := by
    rw [← hWritten.sum_deltas, hFront]
    rfl
  have hSame : last.toNat = n.toNat := hLast.trans hn.symm
  have hDelta : n.toNat - last.toNat ≤ maxField := by
    rw [hSame, Nat.sub_self]
    exact Nat.zero_le _
  rcases exists_segmentOptions hDelta hShort with ⟨os, hOs⟩
  rw [← hOs.encode_eq, ← List.append_assoc (encodeOptions os), ← encodeOptions_append] at hMessage
  rcases context_of_parse hWritten.noPayload hMessage hParse
    with ⟨m, observe, rfl, hOptions, hStart⟩
  have hZero := hOs.delta_eq_zero hSame
  have hSum : (os.map CoapOption.delta).sum = 0 := by
    rw [List.sum_eq_zero_iff_forall_eq_nat]
    intro d hd
    rcases List.mem_map.mp hd with ⟨o, ho, rfl⟩
    exact hZero o ho
  have hFind : coapFindOption (m.context observe) n.toNat = none := by
    by_contra hSome
    rcases coapFindOption_ne_none_iff.mp hSome with ⟨e, he, hNum⟩
    rw [CoapMessage.recorded, hOptions, hFront, List.nil_append, recordedOptions_append,
      recordedOptions_eq_nil hZero, List.nil_append, hSum, Nat.add_zero] at he
    rcases optNum_of_mem_recordedOptions he with ⟨x, hx, hx'⟩
    rw [hn] at hAfter hNum
    exact hAfter x hx (hx'.symm.trans hNum)
  rw [readsBack_none_iff hPath.text hPath.length_pos hPath.length_lt hFind]
  exact hRoot

end PathWritten

----
-- Round Trips of Paths
----

variable {front : CoapMessage} {pkt : CoapPkt} {last n : UInt16}
variable {s message : List UInt8} {after : List CoapOption} {p : Option (List UInt8)}

theorem agrees_of_ne_zero
    (hPath : PathString s) (hn : n.toNat ≠ 0) :
    WritersAgree n s := by
  intro cfg pkt pkt' last w hLast hNone hAdd
  have hNew : last ≠ n := by
    rintro rfl
    -- the last option, or zero without one
    rw [lastonum] at hLast
    cases hOption : (pkt.options.take pkt.optionsLen).getLast? with
    | none =>
      rw [hOption, Option.map_none, Option.getD_none] at hLast
      exact hn hLast.symm
    | some e =>
      rw [hOption, Option.map_some, Option.getD_some] at hLast
      exact hNone e (List.mem_of_getLast? hOption) hLast
  exact coapOptAddChars_put hPath.text hLast hNew hAdd

/- Putting the root with the number zero writes an option. -/
theorem not_agrees_zero :
    ¬ WritersAgree 0 [slash] := by
  intro hAgrees
  have hPut := (hAgrees ⟨16, false, by decide⟩
      (coapPktInit [0x40, 0x01, 0, 0, 0] 4)
      (coapPktInit [0x40, 0x01, 0, 0, 0] 4) 0 0 rfl
      (by simp [coapPktInit]) rfl).1
  revert hPut
  decide

/-
  A path that starts within the first 2^16 bytes is read back,
  and both writers agree on it, exactly if its number is not
  zero and no segment is too long for an option.
-/
theorem pathStrings_iff
    (cfg : NanocoapConfig) (hPath : PathString s)
    (hWritten : PathWritten front last n s after p message)
    (hNear : s = [slash] ∨ front.encode.length < 2 ^ 16)
    (hParse : coapParse cfg message = some (.ok pkt)) :
    (StringReadsBack pkt n s ∧ WritersAgree n s) ↔ n.toNat ≠ 0 ∧
      ∀ seg ∈ segmentsOf s, seg.length ≤ maxField := by
  constructor
  · rintro ⟨hBack, hAgrees⟩
    have hShort : ∀ seg ∈ segmentsOf s, seg.length ≤ maxField := by
      rw [← hPath.joined_segmentsOf] at hBack
      refine short_of_readsBack hPath.segments (List.splitOn_ne_nil _ _) ?_ hBack
      rw [hPath.joined_segmentsOf]
      exact hPath.memory
    refine ⟨?_, hShort⟩
    intro hn
    by_cases hRoot : s = [slash]
    · have hZero : n = 0 := UInt16.toNat_inj.mp hn
      rw [hRoot, hZero] at hAgrees
      exact not_agrees_zero hAgrees
    · exact hWritten.not_readsBack_zero hPath hRoot hn hShort hParse hBack
  · rintro ⟨hn, hShort⟩
    refine ⟨?_, agrees_of_ne_zero hPath hn⟩
    by_cases hRoot : s = [slash]
    · exact hWritten.root_readsBack hPath hRoot hn hParse
    · exact hWritten.found hPath hRoot hn (hNear.resolve_left hRoot) hShort hParse

/- The header of a message without a token. -/
def sampleFront : CoapMessage where
  verType := 4
  code := 0x01
  idHigh := 0
  idLow := 0
  token := []
  options := []
  payload := none
  verType_lt := confirmable_lt
  token_le := noToken_le
  empty := by decide

/- The path "/a/b". -/
def samplePath : List UInt8 := [0x2f, 0x61, 0x2f, 0x62]

theorem pathString_sample :
    PathString samplePath where
  text := by decide
  shape := .inr ⟨0x61, [0x2f, 0x62], rfl, by decide⟩
  memory := by decide

theorem pathWritten_sample :
    PathWritten sampleFront 0 11 samplePath [] none
      [0x40, 0x01, 0, 0, 0xb1, 0x61, 0x01, 0x62] where
  noPayload := rfl
  before := by
    intro x hx
    cases hx
  lastNumber := rfl
  put := ⟨[0x40, 0x01, 0, 0, 0, 0, 0, 0], [0x40, 0x01, 0, 0, 0xb1, 0x61, 0x01, 0x62], 4,
      by decide, by decide, by decide, by
        intro x hx
        cases hx⟩

theorem pathStrings_iff_sample :
    ∃ pkt,
      coapParse ⟨16, false, by decide⟩ [0x40, 0x01, 0, 0, 0xb1, 0x61, 0x01, 0x62] = some (.ok pkt) ∧
      StringReadsBack pkt 11 samplePath ∧ WritersAgree 11 samplePath := by
  refine ⟨⟨[0x40, 0x01, 0, 0, 0xb1, 0x61, 0x01, 0x62], none, 8, 0, 1, [⟨11, 4⟩], 0⟩, by decide, ?_⟩
  exact
    (pathStrings_iff ⟨16, false, by decide⟩
      pathString_sample pathWritten_sample
      (.inr (by decide)) (by decide)).mpr
      ⟨by decide, by decide⟩

/- A path of the number zero is not found again. -/
theorem not_readsBack_number_zero :
    PathString [0x2f, 0x61] ∧
    PathWritten sampleFront 0 0 [0x2f, 0x61] [] none [0x40, 0x01, 0, 0, 0x01, 0x61] ∧ ∃ pkt,
      coapParse ⟨16, false, by decide⟩ [0x40, 0x01, 0, 0, 0x01, 0x61] = some (.ok pkt) ∧
      ¬ StringReadsBack pkt 0 [0x2f, 0x61] := by
  refine ⟨⟨by decide, ?_, by decide⟩,
    ⟨rfl, by simp [sampleFront, CoapMessage.numbers, optionNumbers], rfl, ?_⟩,
    ⟨[0x40, 0x01, 0, 0, 0x01, 0x61], none, 6, 0, 0, [], 0⟩,
    by decide, ?_⟩
  · exact .inr ⟨0x61, [], rfl, by decide⟩
  · exact
      ⟨[0x40, 0x01, 0, 0, 0, 0], [0x40, 0x01, 0, 0, 0x01, 0x61], 2,
        by decide, by decide, by decide, by simp [optionNumbers]⟩
  · intro hBack
    rcases hBack [0, 0, 0] 3 (by decide) (by decide) (by decide) with ⟨target', hRead, _⟩
    have hRoot :
        coapOptGetString
            ⟨[0x40, 0x01, 0, 0, 0x01, 0x61], none, 6, 0, 0, [], 0⟩ 0 [0, 0, 0] 3 slash =
          some (.ok 2, [0x2f, 0, 0]) := by
      decide
    rw [hRoot, Option.some.injEq, Prod.mk.injEq] at hRead
    exact absurd (Except.ok.inj hRead.1) (by decide)

end Riot
