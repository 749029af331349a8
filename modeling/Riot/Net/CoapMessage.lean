import Riot.Net.Nanocoap

/-
  CoAP messages as a format: a message is a header, a token,
  a list of options and perhaps a payload, and its encoding
  is the only byte string for it.
-/

open ByteBuffer

----
-- Fields of Option Headers
----

namespace Riot

/- The largest value of a field. -/
def maxField : Nat := 65535 + 269

/- The nybble of a value. -/
def fieldNybble
    (v : Nat) : Nat :=
  if v < 13 then v
  else if v < 269 then 13
  else 14

/- The bytes that follow for a value. -/
def fieldExtension
    (v : Nat) : List UInt8 :=
  if v < 13 then []
  else if v < 269 then [UInt8.ofNat (v - 13)]
  else htons (v - 269)

variable {buf rest rest' : List UInt8} {v w pos pktEnd : Nat}

theorem fieldNybble_lt :
    fieldNybble v < 15 := by
  unfold fieldNybble
  split
  · omega
  · split <;> omega

theorem length_fieldExtension_le :
    (fieldExtension v).length ≤ 2 := by
  unfold fieldExtension htons
  split
  · simp
  · split <;> simp

/- What was encoded is decoded. -/
theorem decodeValue_extension
    (hv : v ≤ maxField) (hDrop : buf.drop pos = fieldExtension v ++ rest)
    (hEnd : pos + (fieldExtension v).length ≤ pktEnd)
    (hIn : pos + (fieldExtension v).length ≤ buf.length) :
    decodeValue buf (fieldNybble v) pos pktEnd =
      some ((v : Int), pos + (fieldExtension v).length) := by
  unfold maxField at hv
  unfold fieldNybble
  unfold fieldExtension at hDrop hEnd hIn ⊢
  by_cases h13 : v < 13
  · simp only [h13, if_true] at hDrop hEnd ⊢
    unfold decodeValue
    split <;> first | omega | rfl
  · by_cases h269 : v < 269
    · simp only [h13, h269, if_false, if_true, List.length_singleton] at hDrop hEnd ⊢
      have hByte := getElem?_of_drop hDrop
      have hLeft : ¬ pktEnd - pos < 1 := by
        omega
      simp only [decodeValue, hLeft, if_false, hByte, Option.bind_eq_bind, Option.bind_some,
        UInt8.toNat_ofNat']
      have hMod : (v - 13) % 2 ^ 8 = v - 13 := by
        omega
      simp only [hMod, Option.some.injEq, Prod.mk.injEq, and_true]
      omega
    · simp only [h13, h269, if_false] at hDrop hEnd hIn ⊢
      have hTwo : (htons (v - 269)).length = 2 := rfl
      have hRead := readBytes_of_drop hDrop hIn
      rw [hTwo] at hRead hEnd ⊢
      have hLeft : ¬ pktEnd - pos < 2 := by
        omega
      simp only [decodeValue, hLeft, if_false, hRead, Option.bind_eq_bind, Option.bind_some]
      rw [fromNetwork_htons (by omega)]
      simp only [Option.some.injEq, Prod.mk.injEq, and_true]
      omega

/- Nothing else is decoded. -/
theorem decodeValue_cases
    {val : Nat} (hVal : val < 16) (hPos : pos ≤ pktEnd)
    (hLen : pktEnd ≤ buf.length) :
    (∃ r : Int, decodeValue buf val pos pktEnd = some (r, pos) ∧ r < 0) ∨
    (∃ (v : Nat) (rest : List UInt8),
      decodeValue buf val pos pktEnd = some ((v : Int), pos + (fieldExtension v).length) ∧
      v ≤ maxField ∧ val = fieldNybble v ∧ buf.drop pos = fieldExtension v ++ rest ∧
      pos + (fieldExtension v).length ≤ pktEnd) := by
  -- every nybble but the reserved one stands for a value
  have hOf :
      ∀ v rest, v ≤ maxField → val = fieldNybble v → buf.drop pos = fieldExtension v ++ rest →
        pos + (fieldExtension v).length ≤ pktEnd → ∃ (v : Nat) (rest : List UInt8),
          decodeValue buf val pos pktEnd = some ((v : Int), pos + (fieldExtension v).length) ∧
          v ≤ maxField ∧ val = fieldNybble v ∧ buf.drop pos = fieldExtension v ++ rest ∧
          pos + (fieldExtension v).length ≤ pktEnd := by
    intro v rest hv hNybble hDrop hEnd
    refine ⟨v, rest, ?_, hv, hNybble, hDrop, hEnd⟩
    rw [hNybble]
    exact decodeValue_extension hv hDrop hEnd (by omega)
  rcases Nat.lt_or_ge val 13 with hSmall | hLarge
  · right
    have hExt : fieldExtension val = [] := if_pos hSmall
    have hMax : val ≤ maxField := by
      unfold maxField
      omega
    refine hOf val (buf.drop pos) hMax ?_ ?_ ?_
    · exact (if_pos hSmall).symm
    · rw [hExt, List.nil_append]
    · rw [hExt]
      exact hPos
  · have hThree : val = 13 ∨ val = 14 ∨ val = 15 := by
      omega
    rcases hThree with rfl | rfl | rfl
    · by_cases hLeft : pktEnd - pos < 1
      · left
        refine ⟨-28, ?_, by omega⟩
        simp only [decodeValue, hLeft, if_true]
        rfl
      · right
        obtain ⟨b, rest, hDrop⟩ : ∃ b rest, buf.drop pos = b :: rest := by
          refine List.exists_cons_of_length_pos ?_
          rw [List.length_drop]
          omega
        have hb := b.toNat_lt
        have hExt : fieldExtension (b.toNat + 13) = [b] := by
          unfold fieldExtension
          rw [if_neg (by omega), if_pos (by omega)]
          simp
        refine hOf (b.toNat + 13) rest ?_ ?_ ?_ ?_
        · unfold maxField
          omega
        · unfold fieldNybble
          rw [if_neg (by omega), if_pos (by omega)]
        · rw [hExt, hDrop, List.singleton_append]
        · rw [hExt, List.length_singleton]
          omega
    · by_cases hLeft : pktEnd - pos < 2
      · left
        refine ⟨-28, ?_, by omega⟩
        simp only [decodeValue, hLeft, if_true]
        rfl
      · right
        have hDropLen : 2 ≤ (buf.drop pos).length := by
          rw [List.length_drop]
          omega
        obtain ⟨b, c, rest, hDrop⟩ : ∃ b c rest, buf.drop pos = b :: c :: rest := by
          match hd : buf.drop pos, hDropLen with
          | b :: c :: rest, _ => exact ⟨b, c, rest, rfl⟩
        have hb := b.toNat_lt
        have hc := c.toNat_lt
        have hVal : fromNetwork [b, c] = b.toNat * 256 + c.toNat := by
          simp [fromNetwork]
        have hExt : fieldExtension (fromNetwork [b, c] + 269) = [b, c] := by
          unfold fieldExtension
          rw [if_neg (by omega), if_neg (by omega), Nat.add_sub_cancel, htons_fromNetwork]
        refine hOf (fromNetwork [b, c] + 269) rest ?_ ?_ ?_ ?_
        · unfold maxField
          omega
        · unfold fieldNybble
          rw [if_neg (by omega), if_neg (by omega)]
        · rw [hExt, hDrop]
          rfl
        · rw [hExt]
          simp only [List.length_cons, List.length_nil]
          omega
    · left
      exact ⟨-77, rfl, by omega⟩

/- A value is known from its nybble and its bytes. -/
theorem field_injective
    (hv : v ≤ maxField) (hw : w ≤ maxField)
    (hNybble : fieldNybble v = fieldNybble w)
    (hExt : fieldExtension v ++ rest = fieldExtension w ++ rest') :
    v = w ∧ rest = rest' := by
  -- both are what the decoder finds at the start
  have hOf : ∀ u tail, u ≤ maxField → decodeValue (fieldExtension u ++ tail) (fieldNybble u) 0
            (fieldExtension u ++ tail).length =
          some ((u : Int), 0 + (fieldExtension u).length) := by
    intro u tail hu
    have hIn : 0 + (fieldExtension u).length ≤ (fieldExtension u ++ tail).length := by
      rw [List.length_append]
      omega
    exact decodeValue_extension hu List.drop_zero hIn hIn
  have hDecode := hOf v rest hv
  rw [hExt, hNybble, hOf w rest' hw] at hDecode
  simp only [Option.some.injEq, Prod.mk.injEq] at hDecode
  have hEq : v = w := by
    omega
  subst hEq
  exact ⟨rfl, List.append_cancel_left hExt⟩

----
-- Options
----

/- The first byte of an option. -/
def optionByte
    (delta len : Nat) : UInt8 :=
  UInt8.ofNat (fieldNybble delta * 16 + fieldNybble len)

/- An option, with its distance to the one before it. -/
structure CoapOption where
  delta : Nat
  value : List UInt8
  delta_le : delta ≤ maxField
  length_le : value.length ≤ maxField

namespace CoapOption

/- The bytes before the value. -/
def header
    (o : CoapOption) : List UInt8 :=
  optionByte o.delta o.value.length :: (fieldExtension o.delta ++ fieldExtension o.value.length)

def encode
    (o : CoapOption) : List UInt8 :=
  o.header ++ o.value

def size
    (o : CoapOption) : Nat :=
  o.header.length + o.value.length

@[simp]
theorem length_encode
    (o : CoapOption) :
    o.encode.length = o.size :=
  List.length_append

theorem header_length_pos
    (o : CoapOption) :
    0 < o.header.length := by
  simp [header]

theorem size_pos
    (o : CoapOption) :
    0 < o.size := by
  have hHeader := o.header_length_pos
  unfold size
  omega

end CoapOption

variable {d l : Nat}

theorem toNat_optionByte :
    (optionByte d l).toNat = fieldNybble d * 16 + fieldNybble l := by
  have hd := fieldNybble_lt (v := d)
  have hl := fieldNybble_lt (v := l)
  rw [optionByte, UInt8.toNat_ofNat']
  omega

theorem optionByte_shiftRight :
    (optionByte d l).toNat >>> 4 = fieldNybble d := by
  have hl := fieldNybble_lt (v := l)
  rw [toNat_optionByte, Nat.shiftRight_eq_div_pow]
  omega

theorem optionByte_and :
    (optionByte d l).toNat &&& 0xf = fieldNybble l := by
  have hl := fieldNybble_lt (v := l)
  rw [toNat_optionByte]
  rw [Nat.and_two_pow_sub_one_eq_mod _ 4]
  omega

/- No option starts with the payload marker. -/
theorem optionByte_ne_marker :
    optionByte d l ≠ 0xff := by
  intro hEq
  have hl := fieldNybble_lt (v := l)
  have hNat := congrArg UInt8.toNat hEq
  rw [toNat_optionByte] at hNat
  change _ = 255 at hNat
  omega

theorem eq_optionByte
    {b : UInt8} (hDelta : b.toNat >>> 4 = fieldNybble d)
    (hLen : b.toNat &&& 0xf = fieldNybble l) :
    b = optionByte d l := by
  rw [Nat.and_two_pow_sub_one_eq_mod _ 4] at hLen
  rw [Nat.shiftRight_eq_div_pow] at hDelta
  rw [← UInt8.toNat_inj, toNat_optionByte]
  omega

/- The bytes of a list of options. -/
def encodeOptions
    (os : List CoapOption) : List UInt8 :=
  os.flatMap CoapOption.encode

@[simp]
theorem encodeOptions_nil :
    encodeOptions [] = [] :=
  rfl

@[simp]
theorem encodeOptions_cons
    (o : CoapOption) (os : List CoapOption) :
    encodeOptions (o :: os) = o.encode ++ encodeOptions os :=
  List.flatMap_cons

theorem encodeOptions_append
    (os os' : List CoapOption) :
    encodeOptions (os ++ os') = encodeOptions os ++ encodeOptions os' :=
  List.flatMap_append

/- The numbers of the options: the sums of the deltas. -/
def optionNumbers : Nat → List CoapOption → List Nat
| _, [] => []
| nr, o :: os => (nr + o.delta) :: optionNumbers (nr + o.delta) os

----
-- Messages
----

/- The marker and the payload, if there is one. -/
def encodePayload : Option (List UInt8) → List UInt8
| none => []
| some payload => 0xff :: payload

/- The type of a confirmable message, in version one. -/
theorem confirmable_lt : 4 < 16 := by decide

theorem noToken_le :
    ([] : List UInt8).length ≤ coapTokenLengthMax :=
  Nat.zero_le _

/- A message that is well-formed. -/
structure CoapMessage where
  -- the version and the type
  verType : Nat
  code : UInt8
  idHigh : UInt8
  idLow : UInt8
  token : List UInt8
  options : List CoapOption
  payload : Option (List UInt8)
  verType_lt : verType < 16
  token_le : token.length ≤ coapTokenLengthMax
  -- an empty message is its header only
  empty : code = 0 → token = [] ∧ options = [] ∧ payload = none

namespace CoapMessage

/- The header without the token. -/
def header
    (m : CoapMessage) : List UInt8 :=
  [UInt8.ofNat (m.verType * 16 + m.token.length), m.code, m.idHigh, m.idLow]

def encode
    (m : CoapMessage) : List UInt8 :=
  m.header ++ (m.token ++ (encodeOptions m.options ++ encodePayload m.payload))

/- Where the options end. -/
def optionsEnd
    (m : CoapMessage) : Nat :=
  sizeofCoapHdr + m.token.length + (encodeOptions m.options).length

/- The numbers of the options of the message. -/
def numbers
    (m : CoapMessage) : List Nat :=
  optionNumbers 0 m.options

end CoapMessage

variable {o o' : CoapOption} {os os' : List CoapOption}
variable {p p' : Option (List UInt8)}

theorem CoapOption.encode_injective
    (hEq : o.encode ++ rest = o'.encode ++ rest') :
    o = o' ∧ rest = rest' := by
  rcases o with ⟨d, v, hd, hv⟩
  rcases o' with ⟨d', v', hd', hv'⟩
  simp only [encode, header, List.cons_append, List.append_assoc, List.cons.injEq] at hEq
  rcases hEq with ⟨hByte, hTail⟩
  have hNybble : fieldNybble d = fieldNybble d' := by
    rw [← optionByte_shiftRight (d := d) (l := v.length),
      ← optionByte_shiftRight (d := d') (l := v'.length), hByte]
  have hNybbleLen : fieldNybble v.length = fieldNybble v'.length := by
    rw [← optionByte_and (d := d) (l := v.length),
      ← optionByte_and (d := d') (l := v'.length), hByte]
  rcases field_injective hd hd' hNybble hTail with ⟨hDelta, hTail⟩
  rcases field_injective hv hv' hNybbleLen hTail with ⟨hLength, hTail⟩
  rcases List.append_inj hTail hLength with ⟨hValue, hRest⟩
  subst hDelta hValue
  exact ⟨rfl, hRest⟩

/- Options end at the marker or with the message. -/
theorem encodeOptions_injective
    (hEq : encodeOptions os ++ encodePayload p = encodeOptions os' ++ encodePayload p') :
    os = os' ∧ p = p' := by
  -- an option does not start as what follows the options
  have hStart : ∀ (o : CoapOption) (tail : List UInt8)
        (q : Option (List UInt8)), o.encode ++ tail ≠ encodePayload q := by
    intro o tail q hBytes
    cases q with
    | none => simp [CoapOption.encode, CoapOption.header, encodePayload] at hBytes
    | some q =>
      simp only [CoapOption.encode, CoapOption.header, List.cons_append, encodePayload,
        List.cons.injEq] at hBytes
      exact optionByte_ne_marker hBytes.1
  induction os generalizing os' with
  | nil =>
    cases os' with
    | nil =>
      simp only [encodeOptions_nil, List.nil_append] at hEq
      cases p <;> cases p' <;> simp_all [encodePayload]
    | cons o' os' =>
      rw [encodeOptions_cons, List.append_assoc] at hEq
      exact absurd hEq.symm (hStart _ _ _)
  | cons o os ih =>
    cases os' with
    | nil =>
      rw [encodeOptions_cons, List.append_assoc] at hEq
      exact absurd hEq (hStart _ _ _)
    | cons o' os' =>
      simp only [encodeOptions_cons, List.append_assoc] at hEq
      rcases CoapOption.encode_injective hEq with ⟨hOption, hRest⟩
      rcases ih hRest with ⟨hOptions, hPayload⟩
      exact ⟨by rw [hOption, hOptions], hPayload⟩

/- A byte string is the encoding of one message at most. -/
theorem CoapMessage.encode_injective
    {m m' : CoapMessage} (hEq : m.encode = m'.encode) :
    m = m' := by
  rcases m with ⟨vt, c, hi, lo, tok, os, p, hvt, htok, hEmpty⟩
  rcases m' with ⟨vt', c', hi', lo', tok', os', p', hvt', htok', hEmpty'⟩
  simp only [encode, header, List.cons_append, List.nil_append, List.cons.injEq] at hEq
  rcases hEq with ⟨hByte, hCode, hHigh, hLow, hTail⟩
  have hByte := congrArg UInt8.toNat hByte
  simp only [UInt8.toNat_ofNat'] at hByte
  unfold coapTokenLengthMax at htok htok'
  have hVer : vt = vt' := by
    omega
  have hLength : tok.length = tok'.length := by
    omega
  rcases List.append_inj hTail hLength with ⟨hToken, hTail⟩
  rcases encodeOptions_injective hTail with ⟨hOptions, hPayload⟩
  subst hVer hCode hHigh hLow hToken hOptions hPayload
  rfl

end Riot
