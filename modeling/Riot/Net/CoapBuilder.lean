import Riot.Net.CoapIteration

/-
  Building a message and parsing it again.
-/

open ByteBuffer

----
-- Writing Options
----

namespace Riot

variable {buf buf' pre old post bs : List UInt8} {v pos offset shift : Nat}

/- The nybble of a field and the bytes that follow. -/
theorem putDeltaOptlen_eq :
    putDeltaOptlen buf pos offset shift v = buf[pos]?.bind (fun b =>
        (writeBytes buf pos [b ||| UInt8.ofNat (fieldNybble v <<< shift)]).bind (fun buf =>
            (if v < 13 then some buf else writeBytes buf (pos + offset) (fieldExtension v)).bind
              (fun buf =>
                some (buf, offset + (fieldExtension v).length)))) := by
  unfold putDeltaOptlen fieldNybble fieldExtension
  by_cases h13 : v < 13
  · simp [h13]
  · by_cases h269 : v < 269
    · simp [h13, h269]
    · simp [h13, h269, htons]

theorem putDeltaOptlen_append
    {b : UInt8} {mid : List UInt8} (hPos : pos = pre.length)
    (hOffset : offset = 1 + mid.length)
    (hLen : old.length = (fieldExtension v).length) :
    putDeltaOptlen (pre ++ (b :: (mid ++ (old ++ post)))) pos offset shift v = some (pre ++
        ((b ||| UInt8.ofNat (fieldNybble v <<< shift)) :: (mid ++ (fieldExtension v ++ post))),
        offset + (fieldExtension v).length) := by
  have hByte : (pre ++ (b :: (mid ++ (old ++ post))))[pos]? = some b := by
    rw [hPos, List.getElem?_append_right le_rfl, Nat.sub_self]
    rfl
  generalize hNybble : b ||| UInt8.ofNat (fieldNybble v <<< shift) = c
  have hFirst : writeBytes (pre ++ ([b] ++ (mid ++ (old ++ post)))) pos [c] =
        some (pre ++ ([c] ++ (mid ++ (old ++ post)))) :=
    writeBytes_append hPos rfl
  have hSecond : writeBytes ((pre ++ (c :: mid)) ++ (old ++ post))
          (pos + offset) (fieldExtension v) =
        some ((pre ++ (c :: mid)) ++ (fieldExtension v ++ post)) := by
    refine writeBytes_append ?_ hLen
    rw [hPos, hOffset, List.length_append, List.length_cons]
    omega
  simp only [List.singleton_append] at hFirst
  simp only [List.append_assoc, List.cons_append] at hSecond
  rw [putDeltaOptlen_eq, hByte, Option.bind_some, hNybble, hFirst, Option.bind_some, hSecond]
  by_cases h13 : v < 13
  · have hExt : fieldExtension v = [] := if_pos h13
    rw [hExt] at hLen ⊢
    have hNil : old = [] := List.length_eq_zero_iff.mp hLen
    simp [h13, hNil]
  · simp [h13]

variable (buf pos offset shift v) in
/- A dry run moves the offset just as far. -/
theorem putDeltaOptlen_offset
    (hFits : pos + offset + (fieldExtension v).length ≤ buf.length)
    (hPos : pos < buf.length) :
    ∃ buf', putDeltaOptlen buf pos offset shift v =
        some (buf', offset + (fieldExtension v).length) ∧ buf'.length = buf.length := by
  obtain ⟨b, hByte⟩ : ∃ b, buf[pos]? = some b := ⟨_, List.getElem?_eq_getElem hPos⟩
  obtain ⟨buf₁, hFirst, hLen⟩ :=
    length_writeBytes buf [b ||| UInt8.ofNat (fieldNybble v <<< shift)] pos hPos
  rw [putDeltaOptlen_eq, hByte, Option.bind_some, hFirst, Option.bind_some]
  by_cases h13 : v < 13
  · exact ⟨buf₁, by simp [h13], hLen⟩
  · obtain ⟨buf₂, hSecond, hLen₂⟩ :=
      length_writeBytes buf₁ (fieldExtension v) (pos + offset) (by omega)
    exact ⟨buf₂, by simp [h13, hSecond], hLen₂.trans hLen⟩

/- The two nybbles make the byte of the option. -/
theorem or_fieldNybbles
    {d l : Nat} :
    ((0 : UInt8) ||| UInt8.ofNat (fieldNybble d <<< 4)) |||
        UInt8.ofNat (fieldNybble l <<< 0) = optionByte d l := by
  have hAll : ∀ x < 15, ∀ y < 15, ((0 : UInt8) ||| UInt8.ofNat (x <<< 4)) |||
            UInt8.ofNat (y <<< 0) = UInt8.ofNat (x * 16 + y) := by
    decide
  exact hAll _ fieldNybble_lt _ fieldNybble_lt

/-
  Writing an option over as many bytes, whatever the length of
  its value.
-/
theorem coapPutOption_bytes
    {value : List UInt8} {lastonum onum : Nat} (hLe : lastonum ≤ onum)
    (hPos : pos = pre.length)
    (hLen : old.length = (fieldHeader (onum - lastonum) value.length).length + value.length) :
    coapPutOption (pre ++ (old ++ post)) pos lastonum onum
        value = some (pre ++ (fieldHeader (onum - lastonum) value.length ++ (value ++ post)),
        (fieldHeader (onum - lastonum) value.length).length + value.length) := by
  -- the parts that the old bytes are cut into
  obtain ⟨b, oldDelta, oldLength, oldValue, rfl, hOldDelta, hOldLength, hOldValue⟩ :
      ∃ b oldDelta oldLength oldValue, old = b :: (oldDelta ++ (oldLength ++ oldValue)) ∧
        oldDelta.length = (fieldExtension (onum - lastonum)).length ∧
        oldLength.length = (fieldExtension value.length).length ∧
        oldValue.length = value.length := by
    simp only [fieldHeader, List.length_cons, List.length_append] at hLen
    generalize (fieldExtension (onum - lastonum)).length = n at hLen
    generalize (fieldExtension value.length).length = k at hLen
    obtain ⟨b, rest, rfl⟩ : ∃ b rest, old = b :: rest := List.exists_cons_of_length_pos (by omega)
    rw [List.length_cons] at hLen
    refine ⟨b, rest.take n, (rest.drop n).take k, (rest.drop n).drop k, ?_, ?_, ?_, ?_⟩
    · rw [List.take_append_drop, List.take_append_drop]
    · rw [List.length_take]
      omega
    · rw [List.length_take, List.length_drop]
      omega
    · rw [List.length_drop, List.length_drop]
      omega
  have hZero : writeBytes
          (pre ++ (b :: (oldDelta ++ (oldLength ++ oldValue)) ++ post)) pos [0] =
        some (pre ++ ([0] ++ (oldDelta ++ (oldLength ++ (oldValue ++ post))))) := by
    have hCell : pre ++ (b :: (oldDelta ++ (oldLength ++ oldValue)) ++ post) =
          pre ++ ([b] ++ (oldDelta ++ (oldLength ++ (oldValue ++ post)))) := by
      simp
    rw [hCell]
    exact writeBytes_append hPos rfl
  have hPutDelta : putDeltaOptlen
          (pre ++ (0 :: ([] ++ (oldDelta ++ (oldLength ++ (oldValue ++ post)))))) pos 1 4
          (onum - lastonum) = _ :=
    putDeltaOptlen_append hPos rfl hOldDelta
  have hPutLength : putDeltaOptlen
          (pre ++ (((0 : UInt8) ||| UInt8.ofNat (fieldNybble (onum - lastonum) <<< 4)) ::
              (fieldExtension (onum - lastonum) ++ (oldLength ++ (oldValue ++ post))))) pos
          (1 + (fieldExtension (onum - lastonum)).length) 0
          value.length = _ :=
    putDeltaOptlen_append hPos rfl hOldLength
  rw [or_fieldNybbles] at hPutLength
  -- what is written before the value is its header
  have hHeader :
      1 + (fieldExtension (onum - lastonum)).length + (fieldExtension value.length).length =
        (fieldHeader (onum - lastonum) value.length).length := by
    simp only [fieldHeader, List.length_cons, List.length_append]
    omega
  rw [hHeader] at hPutLength
  have hValue : ∀ n, n = (fieldHeader (onum - lastonum) value.length).length → writeBytes
            ((pre ++ fieldHeader (onum - lastonum) value.length) ++ (oldValue ++ post))
            (pos + n) value =
          some ((pre ++ fieldHeader (onum - lastonum) value.length) ++ (value ++ post)) := by
    intro n hn
    refine writeBytes_append ?_ hOldValue
    rw [hPos, hn, List.length_append]
  simp only [fieldHeader, List.append_assoc, List.cons_append] at hValue
  simp only [coapPutOption, if_neg (Nat.not_lt.mpr hLe), hZero, Option.bind_eq_bind,
    Option.bind_some, List.singleton_append]
  rw [List.nil_append] at hPutDelta
  rw [hPutDelta, Option.bind_some]
  simp only [List.nil_append]
  rw [hPutLength]
  simp only [Option.bind_some]
  by_cases hEmpty : value.length = 0
  · have hNil : value = [] := List.length_eq_zero_iff.mp hEmpty
    have hOldNil : oldValue = [] := by
      rw [← List.length_eq_zero_iff, hOldValue, hEmpty]
    simp [fieldHeader, hNil, hOldNil]
  · rw [if_neg hEmpty, hValue (fieldHeader (onum - lastonum) value.length).length rfl]
    simp [fieldHeader]

theorem coapPutOption_spec
    {o : CoapOption} {lastonum onum : Nat} (hLe : lastonum ≤ onum)
    (hDelta : o.delta = onum - lastonum) (hPos : pos = pre.length)
    (hLen : old.length = o.size) :
    coapPutOption (pre ++ (old ++ post)) pos lastonum onum
        o.value = some (pre ++ (o.encode ++ post), o.size) := by
  have hHeader : fieldHeader (onum - lastonum) o.value.length = o.header := by
    rw [← hDelta]
    rfl
  have hOld :
      old.length = (fieldHeader (onum - lastonum) o.value.length).length + o.value.length := by
    rw [hHeader]
    exact hLen
  rw [coapPutOption_bytes hLe hPos hOld, hHeader, CoapOption.encode, List.append_assoc]
  rfl

/- What is written lies in the buffer. -/
theorem putDeltaOptlen_eq_some
    {offset' : Nat}
    (hPut : putDeltaOptlen buf pos offset shift v = some (buf', offset'))
    (hIn : pos + offset ≤ buf.length) :
    buf'.length = buf.length ∧ offset' = offset + (fieldExtension v).length ∧
    pos + offset' ≤ buf.length := by
  rw [putDeltaOptlen_eq] at hPut
  rcases Option.bind_eq_some_iff.mp hPut with ⟨b, _, hPut⟩
  rcases Option.bind_eq_some_iff.mp hPut with ⟨buf₁, hFirst, hPut⟩
  rcases Option.bind_eq_some_iff.mp hPut with ⟨buf₂, hSecond, hResult⟩
  simp only [Option.some.injEq, Prod.mk.injEq] at hResult
  rcases hResult with ⟨rfl, rfl⟩
  have hLen := length_of_writeBytes hFirst
  by_cases hSmall : v < 13
  · rw [if_pos hSmall, Option.some.injEq] at hSecond
    have hExt : fieldExtension v = [] := if_pos hSmall
    rw [← hSecond, hExt]
    exact ⟨hLen, rfl, hIn⟩
  · rw [if_neg hSmall] at hSecond
    have hFits := (writeBytes_eq_some hSecond).1
    refine ⟨(length_of_writeBytes hSecond).trans hLen, rfl, ?_⟩
    omega

/- An option that was written had its place in the buffer. -/
theorem coapPutOption_eq_some
    {value : List UInt8} {lastonum onum n : Nat}
    (hPut : coapPutOption buf pos lastonum onum value = some (buf', n)) :
    lastonum ≤ onum ∧ n = (fieldHeader (onum - lastonum) value.length).length + value.length ∧
    ∃ pre old post, buf = pre ++ (old ++ post) ∧ pre.length = pos ∧ old.length = n ∧
      buf' = pre ++ (fieldHeader (onum - lastonum) value.length ++ (value ++ post)) := by
  have hOrder : ¬ onum < lastonum := by
    intro hLess
    simp [coapPutOption, hLess] at hPut
  have hWritten := hPut
  unfold coapPutOption at hPut
  rw [if_neg hOrder] at hPut
  rcases Option.bind_eq_some_iff.mp hPut with ⟨buf₀, hZero, hPut⟩
  rcases Option.bind_eq_some_iff.mp hPut with ⟨⟨buf₁, n₁⟩, hFirst, hPut⟩
  rcases Option.bind_eq_some_iff.mp hPut with ⟨⟨buf₂, n₂⟩, hSecond, hPut⟩
  have hLen₀ := length_of_writeBytes hZero
  have hIn₀ := (writeBytes_eq_some hZero).1
  rw [List.length_singleton] at hIn₀
  rcases putDeltaOptlen_eq_some hFirst (by omega) with ⟨hLen₁, hn₁, hIn₁⟩
  rcases putDeltaOptlen_eq_some hSecond (by omega) with ⟨hLen₂, hn₂, hIn₂⟩
  have hHeader : (fieldHeader (onum - lastonum) value.length).length = n₂ := by
    simp only [fieldHeader, List.length_cons, List.length_append]
    omega
  have hFits : pos + (n₂ + value.length) ≤ buf.length := by
    dsimp only at hPut
    by_cases hEmpty : value.length = 0
    · omega
    · rw [if_neg hEmpty] at hPut
      rcases Option.bind_eq_some_iff.mp hPut with ⟨buf₃, hThird, _⟩
      have hIn₃ := (writeBytes_eq_some hThird).1
      omega
  have hBuf : buf = buf.take pos ++
        ((buf.drop pos).take (n₂ + value.length) ++ (buf.drop pos).drop (n₂ + value.length)) := by
    rw [List.take_append_drop, List.take_append_drop]
  have hPre : (buf.take pos).length = pos := by
    rw [List.length_take]
    omega
  have hOld : ((buf.drop pos).take (n₂ + value.length)).length = n₂ + value.length := by
    rw [List.length_take, List.length_drop]
    omega
  rw [hBuf, coapPutOption_bytes (Nat.not_lt.mp hOrder)
    hPre.symm (by rw [hOld, hHeader]), hHeader] at hWritten
  simp only [Option.some.injEq, Prod.mk.injEq] at hWritten
  rcases hWritten with ⟨hBuf', rfl⟩
  exact ⟨Nat.not_lt.mp hOrder, by rw [hHeader], _, _, _, hBuf, hPre, hOld, hBuf'.symm⟩

----
-- Packets under Construction
----

/-
  The packet holds the bytes, and the last option in them has
  the number `last`.
-/
structure Built
    (cfg : NanocoapConfig) (pkt : CoapPkt) (bytes : List UInt8)
    (last : Nat) : Prop where
  holds : ∃ post, pkt.hdr = bytes ++ post
  payload : pkt.payload = bytes.length
  room : pkt.payload + pkt.payloadLen ≤ pkt.hdr.length
  payloadLen_lt : pkt.payloadLen < 2 ^ 16
  stored : pkt.options.length = pkt.optionsLen
  count : pkt.optionsLen ≤ cfg.noptsMax
  last : lastonum pkt = last

variable {cfg : NanocoapConfig} {pkt pkt' : CoapPkt} {bytes val : List UInt8}
variable {last optnum n : Nat}

/- The bytes that a write goes over. -/
theorem Built.split
    (hBuilt : Built cfg pkt bytes last) (hn : n ≤ pkt.payloadLen) :
    ∃ old post, pkt.hdr = bytes ++ (old ++ post) ∧ old.length = n := by
  rcases hBuilt.holds with ⟨post, hPost⟩
  have hRoom := hBuilt.room
  rw [hBuilt.payload, hPost, List.length_append] at hRoom
  refine ⟨post.take n, post.drop n, ?_, ?_⟩
  · rw [List.take_append_drop, hPost]
  · rw [List.length_take]
    omega

/- The length of an option is predicted as it is written. -/
theorem optlen_eq
    (d l : Nat) :
    ∃ dummy dummy',
      putDeltaOptlen [0, 0, 0] 0 1 4 d = some (dummy, 1 + (fieldExtension d).length) ∧
      putDeltaOptlen dummy 0 0 0 l = some (dummy', 0 + (fieldExtension l).length) := by
  have hd := length_fieldExtension_le (v := d)
  have hl := length_fieldExtension_le (v := l)
  rcases putDeltaOptlen_offset [0, 0, 0] d 0 1 4
      (by simp only [List.length_cons, List.length_nil]; omega)
      (by simp) with ⟨dummy, hFirst, hLen⟩
  simp only [List.length_cons, List.length_nil] at hLen
  rcases putDeltaOptlen_offset dummy l 0 0 0 (by omega) (by omega) with ⟨dummy', hSecond, _⟩
  exact ⟨dummy, dummy', hFirst, hSecond⟩

/- An option that was added was written. -/
theorem addOptPkt_eq_some
    (hAdd : addOptPkt cfg pkt optnum val = some (.ok (n, pkt'))) :
    coapPutOption pkt.hdr pkt.payload (lastonum pkt) optnum val = some (pkt'.hdr, n) ∧
    pkt'.payload = pkt.payload + n ∧ lastonum pkt' = optnum := by
  unfold addOptPkt at hAdd
  by_cases hFull : pkt.optionsLen ≥ cfg.noptsMax
  · simp [hFull] at hAdd
  by_cases hLess : optnum < lastonum pkt
  · simp [hFull, hLess] at hAdd
  rcases optlen_eq (optnum - lastonum pkt) val.length with ⟨dummy, dummy', hFirst, hSecond⟩
  simp only [if_neg hFull, if_neg hLess, hFirst, hSecond,
    Option.bind_eq_bind, Option.bind_some, Nat.zero_add] at hAdd
  generalize hOptlen : 1 + (fieldExtension (optnum - lastonum pkt)).length +
      (fieldExtension val.length).length + val.length = optlen at hAdd
  by_cases hRoom : pkt.payloadLen < optlen
  · simp [hRoom] at hAdd
  rw [if_neg hRoom] at hAdd
  rcases Option.bind_eq_some_iff.mp hAdd with ⟨⟨buf, k⟩, hPut, hResult⟩
  simp only [Option.some.injEq, Except.ok.injEq, Prod.mk.injEq] at hResult
  rcases hResult with ⟨rfl, rfl⟩
  have hCount : k = optlen := by
    rw [(coapPutOption_eq_some hPut).2.1, ← hOptlen]
    simp only [fieldHeader, List.length_cons, List.length_append]
    omega
  refine ⟨by rw [hPut, hCount], rfl, ?_⟩
  have hTake : ∀ e : CoapOptpos, (pkt.options.take pkt.optionsLen ++ [e]).take
            (pkt.optionsLen + 1) = pkt.options.take pkt.optionsLen ++ [e] := by
    intro e
    refine List.take_of_length_le ?_
    rw [List.length_append, List.length_take, List.length_singleton]
    omega
  simp [lastonum, hTake]

/- An option that was added follows the bytes so far. -/
theorem addOptPkt_spec
    (hBuilt : Built cfg pkt bytes last) (hNum : optnum < 2 ^ 16)
    (hAdd : addOptPkt cfg pkt optnum val = some (.ok (n, pkt'))) :
    ∃ o : CoapOption, last ≤ optnum ∧ o.delta = optnum - last ∧ o.value = val ∧
      Built cfg pkt' (bytes ++ o.encode) optnum ∧ pkt'.optionsLen = pkt.optionsLen + 1 := by
  unfold addOptPkt at hAdd
  rw [hBuilt.last] at hAdd
  by_cases hFull : pkt.optionsLen ≥ cfg.noptsMax
  · simp [hFull] at hAdd
  by_cases hLess : optnum < last
  · simp [hFull, hLess] at hAdd
  have hLe : last ≤ optnum := Nat.not_lt.mp hLess
  rcases optlen_eq (optnum - last) val.length with ⟨dummy, dummy', hFirst, hSecond⟩
  simp only [if_neg hFull, if_neg hLess, hFirst, hSecond,
    Option.bind_eq_bind, Option.bind_some, Nat.zero_add] at hAdd
  generalize hOptlen :
    1 + (fieldExtension (optnum - last)).length + (fieldExtension val.length).length + val.length =
    optlen at hAdd
  by_cases hRoom : pkt.payloadLen < optlen
  · simp [hRoom] at hAdd
  rw [if_neg hRoom] at hAdd
  have hRoomLt := hBuilt.payloadLen_lt
  let o : CoapOption := ⟨optnum - last, val, by unfold maxField; omega, by unfold maxField; omega⟩
  have hSize : o.size = optlen := by
    rw [← hOptlen]
    simp only [CoapOption.size, CoapOption.header, o, List.length_cons, List.length_append]
    omega
  rcases hBuilt.split (Nat.not_lt.mp hRoom) with ⟨old, post, hHdr, hOld⟩
  have hPut : coapPutOption pkt.hdr pkt.payload last optnum val =
        some (bytes ++ (o.encode ++ post), o.size) := by
    rw [hHdr]
    exact coapPutOption_spec (o := o) hLe rfl hBuilt.payload (hOld.trans hSize.symm)
  simp only [hPut, Option.bind_some, Option.some.injEq, Except.ok.injEq, Prod.mk.injEq] at hAdd
  rcases hAdd with ⟨_, rfl⟩
  have hPayload := hBuilt.payload
  have hBefore := hBuilt.room
  have hStored := hBuilt.stored
  rw [hHdr] at hBefore
  simp only [List.length_append] at hBefore
  have hEncode := o.length_encode
  refine ⟨o, hLe, rfl, rfl, ?_, rfl⟩
  exact
    { holds := ⟨post, (List.append_assoc _ _ _).symm⟩
      payload := by
        rw [List.length_append, hEncode, hSize, ← hPayload]
      room := by
        simp only [List.length_append, hEncode]
        omega
      payloadLen_lt := by
        change pkt.payloadLen - optlen < 2 ^ 16
        omega
      stored := by
        simp [hStored]
      count := by
        change pkt.optionsLen + 1 ≤ cfg.noptsMax
        omega
      last := by
        have hTake : pkt.options.take pkt.optionsLen = pkt.options :=
          List.take_of_length_le hStored.le
        have hNext :
            ∀ e : CoapOptpos, (pkt.options ++ [e]).take (pkt.optionsLen + 1) = pkt.options ++ [e] :=
          fun e => List.take_of_length_le (by simp [hStored])
        simp [lastonum, hTake, hNext] }

/- A new packet holds the header. -/
theorem built_coapPktInit
    {hdr post : List UInt8} (hHdr : hdr = bytes ++ post) :
    Built cfg (coapPktInit hdr bytes.length) bytes 0 where
  holds := ⟨post, hHdr⟩
  payload := rfl
  room := by
    simp only [coapPktInit, hHdr, List.length_append]
    omega
  payloadLen_lt := by
    simp only [coapPktInit]
    omega
  stored := rfl
  count := Nat.zero_le _
  last := rfl

end Riot
