import Mathlib.Tactic.IntervalCases
import Riot.Sys.Base64

/-
  Base64 text is read back, and the decoder stays inside the
  size that was announced.
-/

open ByteBuffer

----
-- Symbols
----

namespace Riot

/- The characters of both alphabets. -/
def isSymbol
    (c : UInt8) : Bool :=
  (0x41 ≤ c ∧ c ≤ 0x5a) ∨ (0x61 ≤ c ∧ c ≤ 0x7a) ∨
    (0x30 ≤ c ∧ c ≤ 0x39) ∨ c = 0x2b ∨ c = 0x2d ∨ c = 0x2f ∨ c = 0x5f

/- The codes of the symbols, in their order. -/
def symbolCodes
    (text : List UInt8) : List UInt8 :=
  (text.filter isSymbol).map getcode

variable {c : UInt8} {text text' : List UInt8}

theorem forall_byte
    {P : UInt8 → Prop} (hAll : ∀ n < 256, P (UInt8.ofNat n)) :
    P c := by
  have hByte := hAll c.toNat c.toNat_lt
  rwa [UInt8.ofNat_toNat] at hByte

theorem getcode_skip_iff :
    (getcode c = 0xff ∨ getcode c = 0xfe) ↔ isSymbol c = false := by
  apply forall_byte (P := fun c =>
    (getcode c = 0xff ∨ getcode c = 0xfe) ↔ isSymbol c = false)
  decide +kernel

/- A symbol that was written for a code. -/
theorem getcode_getsymbol
    {base64url urlsafe : Bool} {code : UInt8} (hCode : code < 64) :
    isSymbol (getsymbol base64url code urlsafe) = true ∧
      getcode (getsymbol base64url code urlsafe) = code := by
  have hAll : ∀ b u : Bool, ∀ n < 64, isSymbol (getsymbol b (UInt8.ofNat n) u) = true ∧
          getcode (getsymbol b (UInt8.ofNat n) u) = UInt8.ofNat n := by
    decide +kernel
  have hByte := hAll base64url urlsafe code.toNat (UInt8.lt_iff_toNat_lt.mp hCode)
  rwa [UInt8.ofNat_toNat] at hByte

@[simp]
theorem symbolCodes_append :
    symbolCodes (text ++ text') = symbolCodes text ++ symbolCodes text' := by
  rw [symbolCodes, List.filter_append, List.map_append]
  rfl

theorem symbolCodes_cons_skip
    (hSkip : isSymbol c = false) :
    symbolCodes (c :: text) = symbolCodes text := by
  rw [symbolCodes, List.filter_cons_of_neg (by rw [hSkip]; decide)]
  rfl

theorem symbolCodes_cons
    (hSymbol : isSymbol c = true) :
    symbolCodes (c :: text) = getcode c :: symbolCodes text := by
  rw [symbolCodes, List.filter_cons_of_pos hSymbol]
  rfl

theorem length_symbolCodes_le :
    (symbolCodes text).length ≤ text.length := by
  rw [symbolCodes, List.length_map]
  exact List.length_filter_le isSymbol text

----
-- Decoding
----

/- All bytes that are written for the codes. -/
def decodedGroups : List UInt8 → List UInt8
| c₁ :: c₂ :: c₃ :: c₄ :: cs => decodeFourCodes [c₁, c₂, c₃, c₄] ++ decodedGroups cs
| [c₁, c₂, c₃] => decodeFourCodes [c₁, c₂, c₃, 0]
| [c₁, c₂] => decodeFourCodes [c₁, c₂, 0, 0]
| _ => []

/- What the decoder returns, by the number of the codes. -/
def decodeRet
    (n : Nat) : Base64Ret :=
  if n % 4 = 1 then .errorDataInSize else .success

variable {codes text pre rest : List UInt8} {out : Nat}

theorem length_decodedGroups :
    (decodedGroups codes).length = (codes.length + 2) / 4 * 3 := by
  induction codes using decodedGroups.induct with
  | case1 c₁ c₂ c₃ c₄ cs ih =>
    rw [decodedGroups, List.length_append, ih]
    simp only [decodeFourCodes, List.length_cons, List.length_nil]
    omega
  | case2 c₁ c₂ c₃ => simp [decodedGroups, decodeFourCodes]
  | case3 c₁ c₂ => simp [decodedGroups, decodeFourCodes]
  | case4 cs h₁ h₂ h₃ =>
    match cs, h₁, h₂, h₃ with
    | [], _, _, _ => simp [decodedGroups]
    | [c], _, _, _ => simp [decodedGroups]
    | [c₁, c₂], _, _, h₃ => exact absurd rfl (h₃ c₁ c₂)
    | [c₁, c₂, c₃], _, h₂, _ => exact absurd rfl (h₂ c₁ c₂ c₃)
    | c₁ :: c₂ :: c₃ :: c₄ :: cs, h₁, _, _ => exact absurd rfl (h₁ c₁ c₂ c₃ c₄ cs)

@[simp]
theorem length_decodeFourCodes :
    (decodeFourCodes codes).length = 3 :=
  rfl

/- Four codes are a group. -/
theorem decodedGroups_append
    {four : List UInt8} (hFour : four.length = 4) :
    decodedGroups (four ++ codes) = decodeFourCodes four ++ decodedGroups codes := by
  match four, hFour with
  | [c₁, c₂, c₃, c₄], _ => rfl

theorem decodeRet_four
    {four : List UInt8} (hFour : four.length = 4) :
    decodeRet (four ++ codes).length = decodeRet codes.length := by
  rw [List.length_append, hFour, decodeRet, Nat.add_mod_left]
  rfl

/- Three bytes are written over what was there. -/
theorem writeBytes_front
    {bs : List UInt8} (hPos : out = pre.length) (hFits : bs.length ≤ rest.length) :
    writeBytes (pre ++ rest) out bs = some (pre ++ (bs ++ rest.drop bs.length)) := by
  have hWrite :=
    @writeBytes_append _ _ (rest.drop bs.length) _ _ hPos (List.length_take_of_le hFits)
  rwa [List.take_append_drop] at hWrite

/-
  From any state of the decode buffer, what is written is what
  the codes stand for, one group after the other.
-/
theorem decodeLoop_spec
    (hCodes : codes.length < 4) (hPos : out = pre.length)
    (hFits : (decodedGroups (codes ++ symbolCodes text)).length ≤ rest.length) :
    decodeLoop text codes (pre ++ rest) out = some
        (decodeRet (codes ++ symbolCodes text).length, pre ++
            (decodedGroups (codes ++ symbolCodes text) ++
              rest.drop (decodedGroups (codes ++ symbolCodes text)).length),
          out + 6 * (codes ++ symbolCodes text).length / 8) := by
  induction text generalizing codes pre rest out with
  | nil =>
    rw [show symbolCodes [] = [] from rfl, List.append_nil] at hFits ⊢
    match codes, hCodes with
    | [], _ => rfl
    | [c], _ => simp [decodeLoop, decodeEnd, decodedGroups, decodeRet]
    | [c₁, c₂], _ =>
      rw [decodedGroups] at hFits ⊢
      have hWrite := writeBytes_front hPos hFits
      simp [decodeLoop, decodeEnd, decodeRet, hWrite]
    | [c₁, c₂, c₃], _ =>
      rw [decodedGroups] at hFits ⊢
      have hWrite := writeBytes_front hPos hFits
      simp [decodeLoop, decodeEnd, decodeRet, hWrite]
  | cons c text ih =>
    rw [decodeLoop]
    by_cases hSymbol : isSymbol c = true
    · have hCode : ¬ (getcode c = 0xff ∨ getcode c = 0xfe) := by
        rw [getcode_skip_iff, hSymbol]
        decide
      have hNext :
          codes ++ symbolCodes (c :: text) = (codes ++ [getcode c]) ++ symbolCodes text := by
        rw [symbolCodes_cons hSymbol, List.append_assoc]
        rfl
      rw [hNext] at hFits ⊢
      dsimp only
      rw [if_neg hCode]
      by_cases hFill : (codes ++ [getcode c]).length < 4
      · rw [if_pos hFill]
        exact ih hFill hPos hFits
      · have hFour : (codes ++ [getcode c]).length = 4 := by
          rw [List.length_append] at hFill ⊢
          change ¬ codes.length + 1 < 4 at hFill
          change codes.length + 1 = 4
          omega
        rw [if_neg hFill]
        generalize codes ++ [getcode c] = four at hFour hFits ⊢
        rw [decodedGroups_append hFour, List.length_append, length_decodeFourCodes] at hFits
        have hWrite := @writeBytes_front _ rest _ (decodeFourCodes four) hPos
            (by rw [length_decodeFourCodes]; omega)
        have hRest := @ih [] (pre ++ decodeFourCodes four) _ (out + 3)
            (by decide)
            (by rw [List.length_append, hPos, length_decodeFourCodes])
            (by
              rw [List.length_drop]
              exact Nat.le_sub_of_add_le' hFits)
        rw [hWrite, Option.bind_eq_bind, Option.bind_some, length_decodeFourCodes,
          ← List.append_assoc, hRest, decodedGroups_append hFour, List.nil_append, List.drop_drop,
          decodeRet_four hFour, List.length_append, List.length_append, hFour,
          length_decodeFourCodes, List.append_assoc, List.append_assoc]
        congr 3
        omega
    · have hSkip := eq_false_of_ne_true hSymbol
      rw [symbolCodes_cons_skip hSkip] at hFits ⊢
      dsimp only
      rw [if_pos (getcode_skip_iff.mpr hSkip)]
      exact ih hCodes hPos hFits

----
-- Encoding
----

/- The codes that bytes are written as. -/
def codesOf : List UInt8 → List UInt8
| b₁ :: b₂ :: b₃ :: bs => threeByteCodes b₁ b₂ b₃ ++ codesOf bs
| [b₁, b₂] => (threeByteCodes b₁ b₂ 0).take 3
| [b₁] => (threeByteCodes b₁ 0 0).take 2
| [] => []

variable {b u : Bool} {bytes codes pre rest : List UInt8} {out : Nat}

variable (b u bytes) in
/- The symbols of the codes, and the padding. -/
def encodedText : List UInt8 :=
  (codesOf bytes).map (fun code => getsymbol b code u) ++
    List.replicate ((3 - bytes.length % 3) % 3) 0x3d

theorem length_codesOf :
    (codesOf bytes).length = (4 * bytes.length + 2) / 3 := by
  induction bytes using codesOf.induct with
  | case1 b₁ b₂ b₃ bs ih =>
    rw [codesOf, List.length_append, ih]
    simp only [threeByteCodes, List.length_cons, List.length_nil]
    omega
  | case2 b₁ b₂ => simp [codesOf, threeByteCodes]
  | case3 b₁ => simp [codesOf, threeByteCodes]
  | case4 => rfl

theorem length_encodedText :
    (encodedText b u bytes).length = base64EstimateEncodeSize bytes.length := by
  rw [encodedText, List.length_append, List.length_map, List.length_replicate, length_codesOf,
    base64EstimateEncodeSize]
  omega

theorem encodedText_cons
    {b₁ b₂ b₃ : UInt8} :
    encodedText b u (b₁ :: b₂ :: b₃ :: bytes) =
      encodeThreeBytes b b₁ b₂ b₃ u ++ encodedText b u bytes := by
  have hLen : (b₁ :: b₂ :: b₃ :: bytes).length % 3 = bytes.length % 3 :=
    Nat.add_mod_right bytes.length 3
  rw [encodedText, codesOf, List.map_append, List.append_assoc, encodedText, encodeThreeBytes, hLen]

/- What is written is the text, from any position on. -/
theorem encodeLoop_spec
    (hPos : out = pre.length)
    (hFits : (encodedText b u bytes).length ≤ rest.length) :
    encodeLoop b u bytes (pre ++ rest) out =
      some (pre ++ (encodedText b u bytes ++ rest.drop (encodedText b u bytes).length)) := by
  induction bytes using codesOf.induct generalizing pre rest out with
  | case1 b₁ b₂ b₃ bs ih =>
    have hFour : (encodeThreeBytes b b₁ b₂ b₃ u).length = 4 := rfl
    rw [encodedText_cons, List.length_append, hFour] at hFits
    have hWrite := @writeBytes_front _ rest _ _ hPos (by rw [hFour]; omega)
    have hRest := @ih (pre ++ encodeThreeBytes b b₁ b₂ b₃ u) _ (out + 4)
        (by rw [List.length_append, hPos, hFour])
        (by
          rw [List.length_drop]
          exact Nat.le_sub_of_add_le' hFits)
    rw [encodeLoop, hWrite, Option.bind_eq_bind, Option.bind_some, hFour, ← List.append_assoc,
      hRest, encodedText_cons, List.length_append, hFour, List.drop_drop, List.append_assoc,
      List.append_assoc]
  | case2 b₁ b₂ =>
    have hFour : 4 ≤ rest.length := by
      rw [length_encodedText, base64EstimateEncodeSize] at hFits
      simpa using hFits
    have hWrite := @writeBytes_front _ _ _ (encodeThreeBytes b b₁ b₂ 0 u) hPos hFour
    have hPad := @writeBytes_append
        (pre ++ (encodeThreeBytes b b₁ b₂ 0 u).take 3)
        ((encodeThreeBytes b b₁ b₂ 0 u).drop 3)
        (rest.drop 4) [0x3d] (out + 3)
        (by rw [List.length_append, hPos]; rfl) rfl
    rw [List.append_assoc, List.append_assoc, ← List.append_assoc (List.take _ _) (List.drop _ _),
      List.take_append_drop] at hPad
    rw [encodeLoop, hWrite, Option.bind_eq_bind, Option.bind_some]
    exact hPad
  | case3 b₁ =>
    have hFour : 4 ≤ rest.length := by
      rw [length_encodedText, base64EstimateEncodeSize] at hFits
      simpa using hFits
    have hWrite := @writeBytes_front _ _ _ (encodeThreeBytes b b₁ 0 0 u) hPos hFour
    have hPad := @writeBytes_append
        (pre ++ (encodeThreeBytes b b₁ 0 0 u).take 2)
        ((encodeThreeBytes b b₁ 0 0 u).drop 2)
        (rest.drop 4) [0x3d, 0x3d] (out + 2)
        (by rw [List.length_append, hPos]; rfl) rfl
    rw [List.append_assoc, List.append_assoc, ← List.append_assoc (List.take _ _) (List.drop _ _),
      List.take_append_drop] at hPad
    rw [encodeLoop, hWrite, Option.bind_eq_bind, Option.bind_some]
    exact hPad
  | case4 => rfl

----
-- Codes and Bytes
----

variable {b u : Bool} {bytes codes : List UInt8}

theorem threeByteCodes_lt
    (b₁ b₂ b₃ : UInt8) :
    ∀ c ∈ threeByteCodes b₁ b₂ b₃, c < 64 := by
  have hRight (x s : UInt8) (hs : 1 < s.toNat % 8) : x >>> s < 64 := by
    have hx := x.toNat_lt
    have hFour : 2 ^ 2 ≤ 2 ^ (s.toNat % 8) := Nat.pow_le_pow_right two_pos hs
    rw [UInt8.lt_iff_toNat_lt, UInt8.toNat_shiftRight, Nat.shiftRight_eq_div_pow]
    exact Nat.div_lt_of_lt_mul (by
      change x.toNat < _ * 64
      omega)
  have hMask (x : UInt8) : x &&& 0x3f < 64 := by
    rw [UInt8.lt_iff_toNat_lt, UInt8.toNat_and]
    exact Nat.and_lt_two_pow x.toNat (n := 6) (by decide)
  have hOr {x y : UInt8} (hx : x < 64) (hy : y < 64) : x ||| y < 64 := by
    rw [UInt8.lt_iff_toNat_lt] at hx hy ⊢
    rw [UInt8.toNat_or]
    exact Nat.or_lt_two_pow (n := 6) hx hy
  have hLeft (x k s : UInt8) (hFits : k.toNat <<< (s.toNat % 8) < 64) : (x &&& k) <<< s < 64 := by
    have hAnd : x.toNat &&& k.toNat ≤ k.toNat := Nat.and_le_right
    rw [Nat.shiftLeft_eq] at hFits
    rw [UInt8.lt_iff_toNat_lt, UInt8.toNat_shiftLeft, UInt8.toNat_and, Nat.shiftLeft_eq]
    exact lt_of_le_of_lt (Nat.mod_le _ _) (lt_of_le_of_lt (Nat.mul_le_mul_right _ hAnd) hFits)
  intro c hc
  simp only [threeByteCodes, List.mem_cons, List.not_mem_nil, or_false] at hc
  rcases hc with rfl | rfl | rfl | rfl
  · exact hRight b₁ 2 (by decide)
  · exact hOr (hLeft b₁ 0x03 4 (by decide)) (hRight b₂ 4 (by decide))
  · exact hOr (hLeft b₂ 0x0f 2 (by decide)) (hRight b₃ 6 (by decide))
  · exact hMask b₃

/- Bytes with the same bits. -/
theorem eq_of_bits
    {x y : UInt8} (hBits : ∀ i (hi : i < 8), x.toBitVec[i] = y.toBitVec[i]) :
    x = y :=
  UInt8.eq_of_toBitVec_eq (BitVec.eq_of_getElem_eq hBits)

theorem decodeFourCodes_threeByteCodes
    (b₁ b₂ b₃ : UInt8) :
    decodeFourCodes (threeByteCodes b₁ b₂ b₃) = [b₁, b₂, b₃] := by
  simp only [decodeFourCodes, threeByteCodes, List.getD_cons_zero, List.getD_cons_succ,
    List.cons.injEq, and_true]
  -- Every bit of the bytes is in one of the codes.
  refine ⟨?_, ?_, ?_⟩ <;> apply eq_of_bits <;> intro i hi <;> interval_cases i <;> simp

/- The symbols of the text, as codes. -/
theorem symbolCodes_getsymbol
    (hCodes : ∀ c ∈ codes, c < 64) :
    symbolCodes (codes.map (fun code => getsymbol b code u)) = codes := by
  induction codes with
  | nil => rfl
  | cons c cs ih =>
    rcases @getcode_getsymbol b u c (hCodes c List.mem_cons_self) with ⟨hSymbol, hCode⟩
    rw [List.map_cons, symbolCodes_cons hSymbol, hCode,
      ih (fun d hd => hCodes d (List.mem_cons_of_mem c hd))]

theorem codesOf_lt :
    ∀ c ∈ codesOf bytes, c < 64 := by
  induction bytes using codesOf.induct with
  | case1 b₁ b₂ b₃ bs ih =>
    intro c hc
    rcases List.mem_append.mp hc with hc | hc
    · exact threeByteCodes_lt b₁ b₂ b₃ c hc
    · exact ih c hc
  | case2 b₁ b₂ =>
    intro c hc
    exact threeByteCodes_lt b₁ b₂ 0 c (List.mem_of_mem_take hc)
  | case3 b₁ =>
    intro c hc
    exact threeByteCodes_lt b₁ 0 0 c (List.mem_of_mem_take hc)
  | case4 =>
    intro c hc
    exact absurd hc List.not_mem_nil

theorem symbolCodes_encodedText :
    symbolCodes (encodedText b u bytes) = codesOf bytes := by
  have hPad {n : Nat} : symbolCodes (List.replicate n 0x3d) = [] := by
    rw [symbolCodes, List.filter_replicate]
    rfl
  rw [encodedText, symbolCodes_append, symbolCodes_getsymbol codesOf_lt, hPad, List.append_nil]

/- The bytes come back, with zeros behind them. -/
theorem decodedGroups_codesOf :
    ∃ zeros, decodedGroups (codesOf bytes) = bytes ++ zeros := by
  induction bytes using codesOf.induct with
  | case1 b₁ b₂ b₃ bs ih =>
    rcases ih with ⟨zeros, ih⟩
    refine ⟨zeros, ?_⟩
    rw [codesOf, decodedGroups_append rfl, decodeFourCodes_threeByteCodes, ih]
    rfl
  | case2 b₁ b₂ => exact ⟨[0], decodeFourCodes_threeByteCodes b₁ b₂ 0⟩
  | case3 b₁ => exact ⟨[0, 0], decodeFourCodes_threeByteCodes b₁ 0 0⟩
  | case4 => exact ⟨[], rfl⟩

----
-- The Functions
----

variable {text text' data buf : List UInt8}

theorem length_decodedGroups_symbolCodes :
    (decodedGroups (symbolCodes text)).length ≤ base64EstimateDecodeSize text.length := by
  have hSymbols := @length_symbolCodes_le text
  rw [length_decodedGroups, base64EstimateDecodeSize]
  omega

/- A call with enough room for the announced size. -/
theorem base64Decode_eq
    (hFits : base64EstimateDecodeSize text.length ≤ buf.length) :
    base64Decode (some text) (some buf) buf.length = some
        ⟨decodeRet (symbolCodes text).length, some (decodedGroups (symbolCodes text) ++
              buf.drop (decodedGroups (symbolCodes text)).length),
          if (symbolCodes text).length % 4 = 1 then buf.length
          else 6 * (symbolCodes text).length / 8⟩ := by
  have hLoop :=
    @decodeLoop_spec [] _ [] _ 0 (by decide) rfl (le_trans length_decodedGroups_symbolCodes hFits)
  rw [List.nil_append, List.nil_append, List.nil_append, Nat.zero_add] at hLoop
  rw [base64Decode]
  dsimp only
  rw [if_neg (Nat.not_lt.mpr hFits), hLoop, Option.bind_eq_bind, Option.bind_some, decodeRet]
  dsimp only
  by_cases hOne : (symbolCodes text).length % 4 = 1
  · rw [if_pos hOne, if_pos hOne, if_neg (by decide)]
  · rw [if_neg hOne, if_neg hOne, if_pos rfl]

/-
  The decoder writes only below the estimated size, and the
  number of the symbols decides what it returns. A call with
  less room is refused, and nothing is written.
-/
theorem base64Decode_spec
    (text buf : List UInt8) :
    (buf.length < base64EstimateDecodeSize text.length →
      base64Decode (some text) (some buf) buf.length =
        some ⟨.errorBufferOutSize, some buf, base64EstimateDecodeSize text.length⟩) ∧
    (base64EstimateDecodeSize text.length ≤ buf.length → ∃ ret out outSize,
        base64Decode (some text) (some buf) buf.length = some ⟨ret, some out, outSize⟩ ∧
        out.length = buf.length ∧ out.drop (base64EstimateDecodeSize text.length) =
          buf.drop (base64EstimateDecodeSize text.length) ∧
        (ret = .errorDataInSize ↔ (text.filter isSymbol).length % 4 = 1) ∧
        (ret ≠ .errorDataInSize →
          ret = .success ∧ outSize = 6 * (text.filter isSymbol).length / 8)) := by
  constructor
  · intro hSmall
    rw [base64Decode]
    exact if_pos hSmall
  · intro hFits
    have hLen := @length_decodedGroups_symbolCodes text
    have hCount : (symbolCodes text).length = (text.filter isSymbol).length := List.length_map _
    refine ⟨_, _, _, base64Decode_eq hFits, ?_, ?_, ?_, ?_⟩
    · rw [List.length_append, List.length_drop]
      omega
    · rw [List.drop_append, List.drop_eq_nil_of_le hLen,
        List.nil_append, List.drop_drop, Nat.add_sub_cancel' hLen]
    · rw [hCount, decodeRet]
      by_cases hOne : (text.filter isSymbol).length % 4 = 1
      · rw [if_pos hOne]
        exact iff_of_true rfl hOne
      · rw [if_neg hOne]
        exact iff_of_false (by decide) hOne
    · rw [hCount, decodeRet]
      intro hRet
      have hOne : ¬ (text.filter isSymbol).length % 4 = 1 := fun hOne => hRet (if_pos hOne)
      rw [if_neg hOne, if_neg hOne]
      exact ⟨rfl, rfl⟩

/-
  The same symbols in the same order: only characters outside
  both alphabets were inserted or dropped, the padding too.
-/
def SameSymbols
    (text text' : List UInt8) : Prop :=
  text.filter isSymbol = text'.filter isSymbol

/-
  What the function writes is decoded to the data, from any
  text with the same symbols.
-/
def Base64RoundTrip
    (encode : Option (List UInt8) → Option (List UInt8) → Nat → Option Base64Result)
    (data : List UInt8) : Prop :=
  ∀ buf : List UInt8, base64EstimateEncodeSize data.length ≤ buf.length → ∃ text,
        encode (some data) (some buf) buf.length =
          some ⟨.success, some (text ++ buf.drop text.length), text.length⟩ ∧
        text.length = base64EstimateEncodeSize data.length ∧ ∀ text' buf' : List UInt8,
          SameSymbols text text' → base64EstimateDecodeSize text'.length ≤ buf'.length → ∃ rest,
              base64Decode (some text') (some buf')
                  buf'.length = some ⟨.success, some (data ++ rest), data.length⟩

theorem base64Encode_spec
    {b u : Bool} (hFits : base64EstimateEncodeSize data.length ≤ buf.length) :
    base64EncodeBase b (some data) (some buf) buf.length u = some
        ⟨.success, some (encodedText b u data ++ buf.drop (encodedText b u data).length),
          (encodedText b u data).length⟩ := by
  have hLen := @length_encodedText b u data
  have hLoop := @encodeLoop_spec b u _ [] buf 0 rfl (by rw [hLen]; exact hFits)
  rw [base64EncodeBase]
  by_cases hEmpty : data.length = 0
  · rw [if_pos hEmpty, List.length_eq_zero_iff.mp hEmpty]
    rfl
  · rw [if_neg hEmpty, if_neg (Nat.not_lt.mpr hFits)]
    rw [List.nil_append, List.nil_append] at hLoop
    rw [hLoop, Option.bind_eq_bind, Option.bind_some, hLen]

theorem base64RoundTrip_base
    (b u : Bool) :
    Base64RoundTrip (fun dataIn out n => base64EncodeBase b dataIn out n u) data := by
  intro buf hBuf
  refine ⟨encodedText b u data, base64Encode_spec hBuf, length_encodedText, ?_⟩
  intro text' buf' hSame hBuf'
  have hCodes : symbolCodes text' = codesOf data := by
    rw [symbolCodes, ← hSame, ← symbolCodes, symbolCodes_encodedText]
  have hDecode := base64Decode_eq hBuf'
  rcases decodedGroups_codesOf with ⟨zeros, hData⟩
  have hLen := @length_codesOf data
  have hOne : ¬ (codesOf data).length % 4 = 1 := by omega
  have hSize : 6 * (codesOf data).length / 8 = data.length := by
    omega
  rw [hCodes, decodeRet, if_neg hOne, if_neg hOne, hSize, hData, List.append_assoc] at hDecode
  exact ⟨_, hDecode⟩

/- Both encoders can be read back. -/
theorem base64_round_trip
    (data : List UInt8) :
    (∀ b, Base64RoundTrip (base64Encode b) data) ∧ Base64RoundTrip base64urlEncode data :=
  ⟨fun b => base64RoundTrip_base b false, base64RoundTrip_base true true⟩

end Riot
