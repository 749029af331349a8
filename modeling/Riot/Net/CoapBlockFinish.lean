import Riot.Net.CoapBlock
import Riot.Net.CoapRoundTrip
import Mathlib.Data.Nat.Bitwise

/-
  Rewriting a block option after the content of the message
  is known.
-/

open ByteBuffer

----
-- Numbers in Block Options
----

namespace Riot

/- The slicer of a block of 2^(szx+4) bytes. -/
structure BlockSlicer.Holds
    (slicer : BlockSlicer)
    (num szx : Nat) : Prop where
  szx_le : szx ≤ 6
  start_lt : num * 2 ^ (szx + 4) < 2 ^ 32
  start : slicer.start = num * 2 ^ (szx + 4)
  endOffset : slicer.endOffset = (num * 2 ^ (szx + 4) + 2 ^ (szx + 4)) % 2 ^ 32

/- The number of a block option. -/
def blockNumber
    (num szx : Nat) (more : Bool) : Nat :=
  num * 16 + szx + (if more then 8 else 0)

variable {slicer : BlockSlicer} {num szx blksize fuel j n : Nat} {more : Bool}

theorem holds_init
    (slicer : BlockSlicer) (blknum : Nat) (hSzx : szx ≤ 6) :
    (coapBlockSlicerInit slicer blknum (2 ^ (szx + 4))).Holds (blknum % 2 ^ (28 - szx)) szx := by
  have hSplit : 2 ^ 32 = 2 ^ (28 - szx) * 2 ^ (szx + 4) := by
    rw [← Nat.pow_add]
    congr 1
    omega
  have hStart : blknum * 2 ^ (szx + 4) % 2 ^ 32 = blknum % 2 ^ (28 - szx) * 2 ^ (szx + 4) := by
    rw [hSplit, Nat.mul_mod_mul_right]
  constructor
  · exact hSzx
  · rw [← hStart]
    exact Nat.mod_lt _ (Nat.two_pow_pos 32)
  · exact hStart
  · simp only [coapBlockSlicerInit, hStart]

/- The block size is small. -/
theorem blksize_bounds
    (hSzx : szx ≤ 6) :
    16 ≤ 2 ^ (szx + 4) ∧ 2 ^ (szx + 4) ≤ 1024 := by
  have hLow : 2 ^ 4 ≤ 2 ^ (szx + 4) := Nat.pow_le_pow_right Nat.two_pos (by omega)
  have hHigh : 2 ^ (szx + 4) ≤ 2 ^ 10 := Nat.pow_le_pow_right Nat.two_pos (by omega)
  omega

/- The loop counts the blocks, by induction on their number. -/
theorem blocksBefore_eq
    (hSize : 0 < blksize) (hStart : j * blksize < 2 ^ 32) (hCount : n + j < 2 ^ 32)
    (hFuel : j < fuel) :
    blocksBefore blksize fuel (j * blksize) n = some (n + j) := by
  induction j generalizing n fuel with
  | zero =>
    obtain ⟨fuel, rfl⟩ : ∃ f, fuel = f + 1 := ⟨fuel - 1, by omega⟩
    simp [blocksBefore]
  | succ j ih =>
    obtain ⟨fuel, rfl⟩ : ∃ f, fuel = f + 1 := ⟨fuel - 1, by omega⟩
    rw [Nat.succ_mul] at hStart ⊢
    have hNext : (j * blksize + blksize + 2 ^ 32 - blksize) % 2 ^ 32 = j * blksize := by
      omega
    have hNum : (n + 1) % 2 ^ 32 = n + 1 := by
      omega
    have hMore : j * blksize + blksize > 0 := by
      omega
    rw [blocksBefore, if_pos hMore, hNext, hNum, ih (by omega) (by omega) (by omega)]
    congr 1
    omega

variable (build : LsbBuild)

theorem size2szx_eq
    (hSzx : szx ≤ 6) :
    size2szx build (2 ^ (szx + 4)) = some szx := by
  have hBounds := blksize_bounds hSzx
  have hTwoPow : BitVec.ofNat 32 (2 ^ (szx + 4)) = BitVec.twoPow 32 (szx + 4) := by
    rw [BitVec.twoPow_eq, ← BitVec.toNat_inj]
    simp [BitVec.toNat_shiftLeft, Nat.shiftLeft_eq]
  have hLow : IsLowestBit (BitVec.ofNat 32 (2 ^ (szx + 4))) (szx + 4) := by
    rw [hTwoPow]
    constructor
    · rw [BitVec.getLsbD_twoPow]
      simp
      omega
    · intro i hi
      rw [BitVec.getLsbD_twoPow]
      simp
      omega
  have hFour : ¬ szx + 4 < 4 := by
    omega
  rw [size2szx, if_neg (by omega), bitarithmLsb_spec build hLow, Option.bind_eq_bind,
    Option.bind_some, if_neg hFour, Nat.add_sub_cancel]

/- The three fields do not overlap. -/
theorem or_fields
    (hSzx : szx < 8) :
    (num <<< 4) ||| szx ||| (if more then 0x8 else 0) = blockNumber num szx more := by
  have hLow : szx ||| (if more then 0x8 else 0) = szx + (if more then 8 else 0) := by
    have hAll : ∀ s < 8, s ||| 8 = s + 8 := by
      decide
    cases more with
    | false => simp
    | true => exact hAll szx hSzx
  have hLt : szx + (if more then 8 else 0) < 2 ^ 4 := by
    split <;> omega
  rw [Nat.or_assoc, hLow, ← Nat.shiftLeft_add_eq_or_of_lt hLt,
    Nat.shiftLeft_eq, blockNumber, Nat.add_assoc]

theorem slicer2blkopt_spec
    (hHolds : slicer.Holds num szx) (more : Bool) :
    slicer2blkopt build slicer more = some (UInt32.ofNat (blockNumber num szx more)) := by
  have hBounds := blksize_bounds hHolds.szx_le
  have hStart := hHolds.start_lt
  have hCount : num < 2 ^ 32 := by
    have hLe : num ≤ num * 2 ^ (szx + 4) := Nat.le_mul_of_pos_right _ (Nat.two_pow_pos _)
    omega
  have hSize :
      ((num * 2 ^ (szx + 4) + 2 ^ (szx + 4)) % 2 ^ 32 + 2 ^ 32 - num * 2 ^ (szx + 4)) % 2 ^ 32 =
        2 ^ (szx + 4) := by
    omega
  have hBlocks :
      blocksBefore (2 ^ (szx + 4)) (2 ^ 32 + 1) (num * 2 ^ (szx + 4)) 0 = some (0 + num) :=
    blocksBefore_eq (Nat.two_pow_pos (szx + 4)) hStart (by omega) (by omega)
  have hSzx : szx < 8 := by
    have hLe := hHolds.szx_le
    omega
  simp only [slicer2blkopt, hHolds.start, hHolds.endOffset, hSize, hBlocks,
    size2szx_eq build hHolds.szx_le, Option.bind_eq_bind, Option.bind_some, Nat.zero_add,
    or_fields hSzx]

----
-- Block Options
----

variable {num szx : Nat} {more : Bool} {v : UInt32}

theorem length_encodeUint_le
    (v : UInt32) :
    (encodeUint v).length ≤ 4 := by
  rw [length_encodeUint, usedBytes_eq _ v.toNat_lt]
  repeat' split
  all_goals omega

/- An option that holds a number. -/
def uintOption
    (delta : UInt16)
    (v : UInt32) : CoapOption where
  delta := delta.toNat
  value := encodeUint v
  delta_le := by
    have hLt := delta.toNat_lt
    unfold maxField
    omega
  length_le := by
    have hLe := length_encodeUint_le v
    unfold maxField
    omega

/- The block option for a block. -/
def blockOption
    (delta : UInt16) (num szx : Nat) (more : Bool) : CoapOption :=
  uintOption delta (UInt32.ofNat (blockNumber num szx more))

/- Whether more blocks are announced. -/
def CoapOption.CarriesMore
    (o : CoapOption) : Prop :=
  fromNetwork o.value &&& 0x8 ≠ 0

theorem toNat_blockNumber
    (hLt : blockNumber num szx more < 2 ^ 32) :
    (UInt32.ofNat (blockNumber num szx more)).toNat = blockNumber num szx more :=
  UInt32.toNat_ofNat_of_lt' hLt

theorem blockNumber_lt
    (more : Bool) (hSzx : szx ≤ 6) (hStart : num * 2 ^ (szx + 4) < 2 ^ 32) :
    blockNumber num szx more < 2 ^ 32 := by
  have hBounds := blksize_bounds hSzx
  have hLe : num * 16 ≤ num * 2 ^ (szx + 4) := Nat.mul_le_mul_left _ hBounds.1
  unfold blockNumber
  split <;> omega

theorem carriesMore_blockOption
    (delta : UInt16) (more : Bool) (hSzx : szx ≤ 6)
    (hStart : num * 2 ^ (szx + 4) < 2 ^ 32) :
    (blockOption delta num szx more).CarriesMore ↔ more = true := by
  have hLt := blockNumber_lt more hSzx hStart
  have hBit :
      blockNumber num szx more &&& 2 ^ 3 = ((blockNumber num szx more).testBit 3).toNat * 2 ^ 3 :=
    Nat.and_two_pow _ _
  have hTest : (blockNumber num szx more).testBit 3 = more := by
    rw [Nat.testBit_eq_decide_div_mod_eq, blockNumber]
    cases more with
    | false =>
      simp only [Bool.false_eq_true, if_false, decide_eq_false_iff_not]
      omega
    | true =>
      simp only [if_true, decide_eq_true_eq]
      omega
  rw [hTest] at hBit
  have hEight : (0x8 : Nat) = 2 ^ 3 := rfl
  rw [CoapOption.CarriesMore, blockOption, uintOption,
    fromNetwork_encodeUint, toNat_blockNumber hLt, hEight, hBit]
  cases more <;> simp

/-
  Setting the flag later needs no other number of bytes than
  setting it first, unless nothing else is in the number.
-/
theorem size_blockOption
    (delta : UInt16) (hSzx : szx ≤ 6) (hStart : num * 2 ^ (szx + 4) < 2 ^ 32)
    (hSome : num ≠ 0 ∨ szx ≠ 0 ∨ more = true) :
    (blockOption delta num szx more).size = (blockOption delta num szx true).size := by
  have hLt := blockNumber_lt more hSzx hStart
  have hLtTrue := blockNumber_lt true hSzx hStart
  have hBytes :
      usedBytes 4 (blockNumber num szx more) = usedBytes 4 (blockNumber num szx true) := by
    cases more with
    | true => rfl
    | false =>
      rw [usedBytes_eq _ hLt, usedBytes_eq _ hLtTrue]
      have hPos : num * 16 + szx ≠ 0 := by
        simp only [Bool.false_eq_true, or_false] at hSome
        omega
      simp only [blockNumber, Bool.false_eq_true, if_false, if_true]
      repeat' split
      all_goals omega
  have hLen : (encodeUint (UInt32.ofNat (blockNumber num szx more))).length =
        (encodeUint (UInt32.ofNat (blockNumber num szx true))).length := by
    rw [length_encodeUint, length_encodeUint,
      toNat_blockNumber hLt, toNat_blockNumber hLtTrue, hBytes]
  simp only [CoapOption.size, CoapOption.header, blockOption,
    uintOption, hLen, List.length_cons, List.length_append]

/- The number that is zero needs no byte. -/
theorem size_blockOption_zero
    (delta : UInt16) :
    (blockOption delta 0 0 false).size + 1 = (blockOption delta 0 0 true).size := by
  have hZero : encodeUint (UInt32.ofNat (blockNumber 0 0 false)) = [] := rfl
  have hEight : encodeUint (UInt32.ofNat (blockNumber 0 0 true)) = [8] := rfl
  simp only [CoapOption.size, CoapOption.header, blockOption, uintOption, hZero, hEight,
    List.length_cons, List.length_append, List.length_nil]
  rfl

----
-- Writing and Rewriting
----

variable {build : LsbBuild} {slicer : BlockSlicer} {num szx : Nat}
variable {delta option : UInt16} {pre tail : List UInt8}

/-
  The option is written again from its first byte on, and with
  the same delta.
-/
theorem coapBlockFinish_spec
    (build : LsbBuild) (tail : List UInt8) (hHolds : slicer.Holds num szx)
    (hOpt : slicer.opt = some pre.length) (hDelta : delta ≤ option) :
    let o := blockOption delta num szx true
    let o' := blockOption delta num szx (decide (slicer.cur > slicer.endOffset))
    o'.size ≤ o.size →
    coapBlockFinish build (pre ++ (o.encode ++ tail)) slicer
        option = some (pre ++ (o'.encode ++ (o.encode ++ tail).drop o'.size)) := by
  intro o o' hLe
  have hDrop :
      (pre ++ (o.encode ++ tail)).drop pre.length = optionByte delta.toNat o.value.length ::
          (fieldExtension delta.toNat ++ (fieldExtension o.value.length ++ (o.value ++ tail))) := by
    rw [List.drop_left, CoapOption.encode, CoapOption.header]
    simp only [List.cons_append, List.append_assoc]
    rfl
  have hByte := getElem?_of_drop hDrop
  have hRest := drop_succ_of_drop hDrop
  have hSizeEq : o.size = 1 + (fieldExtension delta.toNat).length +
        (fieldExtension o.value.length).length + o.value.length := by
    have hField : o.delta = delta.toNat := rfl
    simp only [CoapOption.size, CoapOption.header, hField, List.length_cons, List.length_append]
    omega
  have hLength : (pre ++ (o.encode ++ tail)).length = pre.length + (o.size + tail.length) := by
    rw [List.length_append, List.length_append, CoapOption.length_encode]
  have hExt := length_fieldExtension_le (v := delta.toNat)
  have hDecode : decodeValue (pre ++ (o.encode ++ tail))
          (fieldNybble delta.toNat) (pre.length + 1)
          (pre.length + 3) = _ :=
    decodeValue_extension o.delta_le hRest (by omega) (by omega)
  have hOrder : delta.toNat ≤ option.toNat := UInt16.le_iff_toNat_le.mp hDelta
  have hDeltaLt := delta.toNat_lt
  have hOptionLt := option.toNat_lt
  have hLast : (((option.toNat : Int) - (delta.toNat : Int) % 2 ^ 16) %
          2 ^ 16).toNat = option.toNat - delta.toNat := by
    omega
  -- the bytes that the option is written over
  have hBuf : pre ++ (o.encode ++ tail) =
        pre ++ ((o.encode ++ tail).take o'.size ++ (o.encode ++ tail).drop o'.size) := by
    rw [List.take_append_drop]
  have hOld : ((o.encode ++ tail).take o'.size).length = o'.size := by
    rw [List.length_take, List.length_append, CoapOption.length_encode]
    omega
  have hPut : coapPutOption (pre ++ (o.encode ++ tail)) pre.length
          (option.toNat - delta.toNat) option.toNat o'.value =
        some (pre ++ (o'.encode ++ (o.encode ++ tail).drop o'.size), o'.size) := by
    rw [hBuf]
    refine coapPutOption_spec (Nat.sub_le _ _) ?_ rfl hOld
    change delta.toNat = _
    omega
  have hValue : encodeUint (UInt32.ofNat (blockNumber num szx
        (decide (slicer.cur > slicer.endOffset)))) = o'.value :=
    rfl
  simp only [coapBlockFinish, hOpt, hByte, optionByte_shiftRight, hDecode,
    slicer2blkopt_spec build hHolds, hLast, hValue, hPut, Option.bind_eq_bind, Option.bind_some]

----
-- Messages with Block Options
----

/-
  A block option with the flag set was written at `pos`, into
  a buffer or at the end of a packet, and `buf` is the buffer
  after it.
-/
inductive BlockWritten
    (build : LsbBuild) (slicer : BlockSlicer) (option : UInt16) :
    (lastonum pos : Nat) → (buf : List UInt8) → (n : Nat) → (slicer' : BlockSlicer) → Prop
| put {buf buf' pos lastonum n slicer'}
    (hPut : coapOptPutBlock build buf pos lastonum slicer true option = some (buf', n, slicer')) :
    BlockWritten build slicer option lastonum.toNat pos buf' n slicer'
| add {cfg pkt pkt' n slicer'}
    (hAdd : coapOptAddBlock pkt build cfg slicer true option = some (.ok (n, pkt'), slicer')) :
    BlockWritten build slicer option (lastonum pkt) pkt.payload pkt'.hdr n slicer'

/-
  Where the byte string was a message with an option at `pos`,
  it still is one, with the new option in its place and the
  same options and payload behind it at the same positions.
-/
def ParsesAlike
    (pos : Nat) (o : CoapOption) (later finished : List UInt8) : Prop :=
  ∀ (m : CoapMessage) (before : List CoapOption)
    (written : CoapOption) (after : List CoapOption), m.encode = later →
    m.options = before ++ written :: after →
    sizeofCoapHdr + m.token.length + (encodeOptions before).length = pos → ∃ m' : CoapMessage,
      m'.encode = finished ∧ m'.options = before ++ o :: after ∧
      m'.numbers = m.numbers ∧ m'.payload = m.payload ∧
      ∀ cfg pkt, coapParse cfg later = some (.ok pkt) →
        ∃ pkt', coapParse cfg finished = some (.ok pkt') ∧ pkt'.token = pkt.token ∧
          pkt'.options = pkt.options ∧ pkt'.payload = pkt.payload ∧
          pkt'.payloadLen = pkt.payloadLen

/-
  The `n` bytes of the option at `pos` were replaced by an
  option with as many bytes and the same delta, whose flag
  tells whether there is more, and nothing else changed.
-/
def RewrittenInPlace
    (pos n delta : Nat) (beyond : Prop) (later finished : List UInt8) : Prop :=
  ∃ o : CoapOption, o.delta = delta ∧ o.size = n ∧ (o.CarriesMore ↔ beyond) ∧
    finished = later.take pos ++ (o.encode ++ later.drop (pos + n)) ∧
    ParsesAlike pos o later finished

variable {build : LsbBuild} {slicer slicer' : BlockSlicer}
variable {cfg : NanocoapConfig} {pkt pkt' : CoapPkt} {val buf : List UInt8}
variable {option : UInt16} {optnum pos n num szx last : Nat}

/- Both writers put the block option where they were told. -/
theorem BlockWritten.spec
    (hWritten : BlockWritten build slicer option last pos buf n slicer')
    (hHolds : slicer.Holds num szx) :
    ∃ delta pre post, delta.toNat = option.toNat - last ∧ delta ≤ option ∧ pre.length = pos ∧
      n = (blockOption delta num szx true).size ∧
      buf = pre ++ ((blockOption delta num szx true).encode ++ post) ∧
      slicer' = { slicer with opt := some pos } := by
  -- in either way the option is put at the position
  have hOf : ∀ old new k, coapPutOption old pos last option.toNat
            (encodeUint (UInt32.ofNat (blockNumber num szx true))) = some (new, k) →
        ∃ delta : UInt16, ∃ pre post, delta.toNat = option.toNat - last ∧ delta ≤ option ∧
          pre.length = pos ∧ k = (blockOption delta num szx true).size ∧
          new = pre ++ ((blockOption delta num szx true).encode ++ post) := by
    intro old new k hPut
    have hLt := option.toNat_lt
    let delta := UInt16.ofNat (option.toNat - last)
    have hSmall : option.toNat - last < 2 ^ 16 := by
      omega
    have hDelta : delta.toNat = option.toNat - last := UInt16.toNat_ofNat_of_lt' hSmall
    have hEncode : (blockOption delta num szx true).encode = fieldHeader (option.toNat - last)
              (encodeUint (UInt32.ofNat (blockNumber num szx true))).length ++
            encodeUint (UInt32.ofNat (blockNumber num szx true)) := by
      rw [← hDelta]
      rfl
    rcases coapPutOption_eq_some hPut with ⟨_, hk, pre, _, post, _, hPre, _, hNew⟩
    refine ⟨delta, pre, post, hDelta, ?_, hPre, ?_, ?_⟩
    · rw [UInt16.le_iff_toNat_le, hDelta]
      omega
    · rw [hk, ← CoapOption.length_encode, hEncode, List.length_append]
    · rw [hNew, hEncode, List.append_assoc]
  have hPlaced : ∀ p, BlockSlicer.Holds { slicer with opt := some p } num szx :=
    fun p => ⟨hHolds.1, hHolds.2, hHolds.3, hHolds.4⟩
  cases hWritten with
  | put hPut =>
    have hValue := slicer2blkopt_spec build (hPlaced pos) true
    simp only [coapOptPutBlock, coapOptPutUint, hValue,
      Option.bind_eq_bind, Option.bind_some] at hPut
    rcases Option.bind_eq_some_iff.mp hPut with ⟨⟨new, k⟩, hPlace, hResult⟩
    simp only [Option.some.injEq, Prod.mk.injEq] at hResult
    rcases hResult with ⟨rfl, rfl, rfl⟩
    rcases hOf _ _ _ hPlace with ⟨delta, pre, post, hDelta, hLe, hPre, hk, hNew⟩
    exact ⟨delta, pre, post, hDelta, hLe, hPre, hk, hNew, rfl⟩
  | @add cfg pkt pkt' _ _ hAdd =>
    have hValue := slicer2blkopt_spec build (hPlaced pkt.payload) true
    simp only [coapOptAddBlock, coapOptAddUint, hValue,
      Option.bind_eq_bind, Option.bind_some] at hAdd
    rcases Option.bind_eq_some_iff.mp hAdd with ⟨r, hAdded, hResult⟩
    simp only [Option.some.injEq, Prod.mk.injEq] at hResult
    rcases hResult with ⟨rfl, rfl⟩
    rcases hOf _ _ _ (addOptPkt_eq_some hAdded).1
      with ⟨delta, pre, post, hDelta, hLe, hPre, hk, hNew⟩
    exact ⟨delta, pre, post, hDelta, hLe, hPre, hk, hNew, rfl⟩

----
-- When the Option Is Rewritten in Place
----

variable {o o' : CoapOption} {before after : List CoapOption}
variable {pre tail later finished : List UInt8} {nr pos : Nat}

/- Positions and numbers do not depend on the values. -/
theorem recordedOptions_replace
    (hDelta : o.delta = o'.delta) (hSize : o.size = o'.size) :
    recordedOptions nr pos (before ++ o :: after) =
      recordedOptions nr pos (before ++ o' :: after) := by
  induction before generalizing nr pos with
  | nil => simp [recordedOptions, hDelta, hSize]
  | cons b before ih => simp [recordedOptions, ih]

theorem optionNumbers_replace
    (hDelta : o.delta = o'.delta) :
    optionNumbers nr (before ++ o :: after) = optionNumbers nr (before ++ o' :: after) := by
  induction before generalizing nr with
  | nil => simp [optionNumbers, hDelta]
  | cons b before ih => simp [optionNumbers, ih]

/- An option with as many bytes takes the place of another. -/
theorem parsesAlike_of_size
    (hDelta : o.delta = o'.delta) (hSize : o.size = o'.size)
    (hLater : later = pre ++ (o.encode ++ tail))
    (hFinished : finished = pre ++ (o'.encode ++ tail)) :
    ParsesAlike pre.length o' later finished := by
  intro m before written after hEncode hOptions hPos
  have hAt := CoapMessage.drop_of_split hOptions
  rw [hPos, hEncode, hLater, List.drop_left] at hAt
  rcases CoapOption.encode_injective hAt with ⟨rfl, hTail⟩
  have hCode : m.code ≠ 0 := by
    intro hZero
    have hNone := (m.empty hZero).2.1
    rw [hOptions] at hNone
    simp at hNone
  let m' : CoapMessage := { m with
      options := before ++ o' :: after
      empty := fun hZero => absurd hZero hCode }
  have hHeader : m'.header = m.header := rfl
  have hToken : m'.token = m.token := rfl
  have hPayload : m'.payload = m.payload := rfl
  have hPre : pre = m.header ++ (m.token ++ encodeOptions before) := by
    have hAll : m.encode = pre ++ (o.encode ++ tail) := hEncode.trans hLater
    have hLen : pre.length = (m.header ++ (m.token ++ encodeOptions before)).length := by
      rw [← hPos, List.length_append, List.length_append, ← Nat.add_assoc]
      rfl
    rw [CoapMessage.encode, hOptions, encodeOptions_append, List.append_assoc,
      ← List.append_assoc m.token, ← List.append_assoc m.header] at hAll
    exact (List.append_inj hAll hLen.symm).1.symm
  have hEncode' : m'.encode = finished := by
    rw [CoapMessage.encode, hHeader, hToken, hPayload, hFinished, hTail, hPre]
    simp only [m', encodeOptions_append, encodeOptions_cons, List.append_assoc]
  have hRecorded : m'.recorded = m.recorded := by
    rw [CoapMessage.recorded, CoapMessage.recorded, hOptions, recordedOptions_replace hDelta hSize]
  have hEnd : m'.payloadStart = m.payloadStart := by
    rw [CoapMessage.payloadStart, CoapMessage.payloadStart, CoapMessage.optionsEnd,
      CoapMessage.optionsEnd, hOptions, hPayload, hToken]
    simp only [m', encodeOptions_append, encodeOptions_cons,
      List.length_append, CoapOption.length_encode, hSize]
  refine ⟨m', hEncode', rfl, ?_, hPayload, ?_⟩
  · rw [CoapMessage.numbers, CoapMessage.numbers, hOptions, optionNumbers_replace hDelta]
  · intro cfg pkt hParse
    rcases coapParse_sound cfg later with ⟨r, hRun, hSound⟩
    rw [hParse, Option.some.injEq] at hRun
    rcases hSound pkt hRun.symm with ⟨m₂, v, hSame, hFits, rfl⟩
    have hEq : m₂ = m := CoapMessage.encode_injective (hSame.trans hEncode.symm)
    subst hEq
    have hFits' : m'.Fits cfg := by
      rw [CoapMessage.Fits, hRecorded]
      exact hFits
    rcases coapParse_encode hFits' with ⟨v', hContext⟩
    rw [hEncode'] at hContext
    exact ⟨_, hContext, rfl, hRecorded, hEnd, rfl⟩

variable {build : LsbBuild} {slicer slicer' : BlockSlicer} {option : UInt16}
variable {buf : List UInt8} {blknum blksize szx last n len : Nat}

/- The new number has its bytes if it is not zero. -/
theorem sameBytes_iff
    (hSzx : szx ≤ 6) :
    (blknum % 2 ^ (28 - szx) ≠ 0 ∨ szx ≠ 0 ∨ len > (blknum + 1) * 2 ^ (szx + 4) % 2 ^ 32) ↔
      (blknum * 2 ^ (szx + 4) % 2 ^ 32 = 0 → 2 ^ (szx + 4) = 16 → 16 < len) := by
  have hHolds := holds_init ⟨0, 0, 0, none⟩ blknum hSzx
  have hStart := hHolds.start
  simp only [coapBlockSlicerInit] at hStart
  have hUnit := Nat.two_pow_pos (szx + 4)
  have hNum : blknum * 2 ^ (szx + 4) % 2 ^ 32 = 0 ↔ blknum % 2 ^ (28 - szx) = 0 := by
    rw [hStart, Nat.mul_eq_zero]
    omega
  have hSixteen : 2 ^ (szx + 4) = 16 ↔ szx = 0 := by
    have hPow : 2 ^ (szx + 4) = 16 ↔ szx + 4 = 4 :=
      Nat.pow_right_injective (le_refl 2) |>.eq_iff (b := 4)
    omega
  rw [Nat.succ_mul]
  generalize 2 ^ (szx + 4) = size at *
  generalize blknum * size = first at *
  omega

/- The flag is right if the end of the block does not wrap. -/
theorem flag_iff
    {endNat : Nat} (hLen : len < 2 ^ 32) :
    ((len > endNat % 2 ^ 32) ↔ endNat < len) ↔ (endNat < 2 ^ 32 ∨ len ≤ endNat % 2 ^ 32) := by
  omega

theorem delta_blockOption
    {delta : UInt16} {num : Nat} {more : Bool} :
    (blockOption delta num szx more).delta = delta.toNat :=
  rfl

/- The number with the flag is never shorter than without. -/
theorem size_blockOption_iff
    (delta : UInt16) (more : Bool) {num : Nat} (hSzx : szx ≤ 6)
    (hStart : num * 2 ^ (szx + 4) < 2 ^ 32) :
    (blockOption delta num szx more).size ≤ (blockOption delta num szx true).size ∧
    ((blockOption delta num szx more).size = (blockOption delta num szx true).size ↔
      (num ≠ 0 ∨ szx ≠ 0 ∨ more = true)) := by
  by_cases hSome : num ≠ 0 ∨ szx ≠ 0 ∨ more = true
  · have hSize := size_blockOption delta hSzx hStart hSome
    exact ⟨hSize.le, iff_of_true hSize hSome⟩
  · have hZero : num = 0 ∧ szx = 0 ∧ more = false := by
      refine ⟨by omega, by omega, ?_⟩
      rw [← Bool.not_eq_true]
      exact fun h => hSome (.inr (.inr h))
    rcases hZero with ⟨rfl, rfl, rfl⟩
    have hLess := size_blockOption_zero delta
    exact ⟨by omega, iff_of_false (by omega) hSome⟩

/- What the rewriting of an option in the buffer does. -/
theorem rewrittenInPlace_iff
    (build : LsbBuild) (delta option : UInt16) (beyond : Prop) (pre tail : List UInt8)
    {num : Nat} (hHolds : slicer.Holds num szx)
    (hOpt : slicer.opt = some pre.length) (hOrder : delta ≤ option)
    (hLater : later = pre ++ ((blockOption delta num szx true).encode ++ tail)) :
    ∃ finished, coapBlockFinish build later slicer option = some finished ∧
      (RewrittenInPlace pre.length (blockOption delta num szx true).size delta.toNat
          beyond later finished ↔ (num ≠ 0 ∨ szx ≠ 0 ∨ slicer.cur > slicer.endOffset) ∧
        (slicer.cur > slicer.endOffset ↔ beyond)) := by
  have hStart := hHolds.start_lt
  have hSizes :=
    size_blockOption_iff delta (decide (slicer.cur > slicer.endOffset)) hHolds.szx_le hStart
  have hFinish := coapBlockFinish_spec build tail hHolds hOpt hOrder hSizes.1
  have hMore :=
    carriesMore_blockOption delta (decide (slicer.cur > slicer.endOffset)) hHolds.szx_le hStart
  have hSame := hSizes.2
  rw [decide_eq_true_iff] at hMore hSame
  -- the new option and the old one
  generalize hNew : blockOption delta num szx (decide (slicer.cur > slicer.endOffset)) = o' at *
  generalize hOld : blockOption delta num szx true = o at *
  have hDelta' : o'.delta = delta.toNat := by
    rw [← hNew, delta_blockOption]
  have hDelta : o.delta = delta.toNat := by
    rw [← hOld, delta_blockOption]
  have hTake : later.take pre.length = pre := by
    rw [hLater, List.take_left]
  have hDrop : later.drop (pre.length + o.size) = tail := by
    rw [hLater, ← List.drop_drop, List.drop_left, ← CoapOption.length_encode, List.drop_left]
  refine ⟨_, hLater ▸ hFinish, ?_⟩
  rw [← hSame, ← hMore]
  constructor
  · rintro ⟨p, _, hSize, hFlag, hResult, _⟩
    rw [hTake, hDrop] at hResult
    rcases CoapOption.encode_injective (List.append_cancel_left hResult) with ⟨rfl, _⟩
    exact ⟨hSize, hFlag⟩
  · rintro ⟨hSize, hFlag⟩
    have hTail : (o.encode ++ tail).drop o'.size = tail := by
      rw [hSize, ← CoapOption.length_encode, List.drop_left]
    rw [hTail]
    refine ⟨o', hDelta', hSize, hFlag, ?_, ?_⟩
    · rw [hTake, hDrop]
    · exact parsesAlike_of_size (hDelta.trans hDelta'.symm) hSize.symm hLater rfl

/-
  A block option was written, `len` bytes of content were made
  and whatever came behind the option was added. The option is
  then rewritten in place, with the flag that belongs to the
  length, exactly if its number does not become zero and the
  end of the block does not wrap where that matters.
-/
theorem coapBlockFinish_iff
    (hSize : ∃ szx ≤ 6, blksize = 2 ^ (szx + 4))
    (hWritten :
      BlockWritten build (coapBlockSlicerInit slicer blknum blksize) option last pos buf n slicer')
    (hLater : later.take (pos + n) = buf.take (pos + n))
    (hLen : len < 2 ^ 32) :
    ∃ finished, coapBlockFinish build later { slicer' with cur := len } option = some finished ∧
      (RewrittenInPlace pos n (option.toNat - last)
          ((blknum + 1) * blksize < len) later finished ↔
        (blknum * blksize % 2 ^ 32 = 0 → blksize = 16 → 16 < len) ∧
        ((blknum + 1) * blksize < 2 ^ 32 ∨ len ≤ (blknum + 1) * blksize % 2 ^ 32)) := by
  rcases hSize with ⟨szx, hSzx, rfl⟩
  have hHolds := holds_init slicer blknum hSzx
  rcases hWritten.spec hHolds with ⟨delta, pre, post, hDelta, hOrder, rfl, rfl, hBuf, rfl⟩
  have hNow :
      BlockSlicer.Holds
        { coapBlockSlicerInit slicer blknum (2 ^ (szx + 4)) with
          opt := some pre.length
          cur := len }
        (blknum % 2 ^ (28 - szx)) szx :=
    ⟨hHolds.1, hHolds.2, hHolds.3, hHolds.4⟩
  have hEnd :
      (coapBlockSlicerInit slicer blknum
          (2 ^ (szx + 4))).endOffset = (blknum + 1) * 2 ^ (szx + 4) % 2 ^ 32 := by
    simp only [coapBlockSlicerInit, Nat.succ_mul, Nat.mod_add_mod]
  have hCut :
      later = pre ++
        ((blockOption delta (blknum % 2 ^ (28 - szx)) szx
            true).encode ++ later.drop (pre.length +
            (blockOption delta (blknum % 2 ^ (28 - szx)) szx true).size)) := by
    generalize blockOption delta (blknum % 2 ^ (28 - szx)) szx true = o at *
    have hLength : (pre ++ o.encode).length = pre.length + o.size := by
      rw [List.length_append, CoapOption.length_encode]
    have hTake : later.take (pre.length + o.size) = pre ++ o.encode := by
      rw [hLater, hBuf, ← List.append_assoc, ← hLength, List.take_left]
    rw [← List.append_assoc, ← hTake, List.take_append_drop]
  rw [← sameBytes_iff hSzx, ← flag_iff hLen, ← hEnd, ← hDelta]
  exact rewrittenInPlace_iff _ _ _ _ _ _ hNow rfl hOrder hCut

/- The slicer of the first block. -/
def firstBlock
    (blksize : Nat) : BlockSlicer :=
  coapBlockSlicerInit ⟨0, 0, 0, none⟩ 0 blksize

/- A header and an option. -/
def replyStart
    (option : List UInt8) : List UInt8 :=
  [0x40, 0x45, 0, 0] ++ option

/- A marker and five bytes of content. -/
def replyContent : List UInt8 :=
  [0xff, 0x68, 0x65, 0x6c, 0x6c, 0x6f]

theorem blockWritten_first
    {blksize : Nat} {v : UInt8}
    (hPut : coapOptPutBlock .builtin (replyStart [0, 0, 0]) 4 0 (firstBlock blksize) true 23 =
        some (replyStart [0xd1, 0x0a, v], 3, { firstBlock blksize with opt := some 4 })) :
    BlockWritten .builtin (firstBlock blksize) 23 0 4 (replyStart [0xd1, 0x0a, v]) 3
      { firstBlock blksize with opt := some 4 } :=
  .put hPut

/- The first block of 32 bytes, which is not filled. -/
theorem coapBlockFinish_iff_sample :
    ∃ finished,
      coapBlockFinish .builtin
        (replyStart [0xd1, 0x0a, 0x09] ++ replyContent)
        { firstBlock 32 with opt := some 4, cur := 5 } 23 = some finished ∧
      RewrittenInPlace 4 3 23 ((0 + 1) * 32 < 5)
        (replyStart [0xd1, 0x0a, 0x09] ++ replyContent)
        finished := by
  have hWritten :
      BlockWritten .builtin (firstBlock 32) 23 0 4
        (replyStart [0xd1, 0x0a, 0x09]) 3
        { firstBlock 32 with opt := some 4 } :=
    blockWritten_first rfl
  have hLater :
      (replyStart [0xd1, 0x0a, 0x09] ++ replyContent).take
          (4 + 3) = (replyStart [0xd1, 0x0a, 0x09]).take (4 + 3) := by
    rfl
  have hLen : 5 < 2 ^ 32 := by
    decide
  rcases coapBlockFinish_iff ⟨1, by decide, rfl⟩ hWritten hLater hLen with ⟨finished, hFinish, hIff⟩
  refine ⟨finished, hFinish, hIff.mpr ⟨?_, .inl (by decide)⟩⟩
  intro _ hSixteen
  cases hSixteen

/-
  The first block of 16 bytes, which is not filled either: the
  option loses its byte, and the message cannot be parsed any
  more.
-/
theorem coapBlockFinish_shrinks :
    ∃ finished,
      BlockWritten .builtin (firstBlock 16) 23 0 4
        (replyStart [0xd1, 0x0a, 0x08]) 3
        { firstBlock 16 with opt := some 4 } ∧
      coapBlockFinish .builtin
        (replyStart [0xd1, 0x0a, 0x08] ++ replyContent)
        { firstBlock 16 with opt := some 4, cur := 5 } 23 = some finished ∧
      ¬ RewrittenInPlace 4 3 23 ((0 + 1) * 16 < 5)
        (replyStart [0xd1, 0x0a, 0x08] ++ replyContent)
        finished ∧ (∃ pkt,
        coapParse ⟨16, false, by decide⟩
          (replyStart [0xd1, 0x0a, 0x08] ++ replyContent) = some (.ok pkt)) ∧
      coapParse ⟨16, false, by decide⟩ finished = some (.error .ebadmsg) := by
  have hHolds :
      BlockSlicer.Holds
        { firstBlock 16 with opt := some 4, cur := 5 } 0 0 :=
    ⟨by decide, by decide, rfl, rfl⟩
  rcases rewrittenInPlace_iff .builtin 23 23
      ((0 + 1) * 16 < 5) [0x40, 0x45, 0, 0] replyContent
      hHolds rfl (by decide) rfl with ⟨finished, hFinish, hIff⟩
  have hRun :
      coapBlockFinish .builtin
        (replyStart [0xd1, 0x0a, 0x08] ++ replyContent)
        { firstBlock 16 with opt := some 4, cur := 5 } 23 =
          some (replyStart [0xd0, 0x0a, 0x08] ++ replyContent) := by
    rfl
  refine ⟨_, blockWritten_first rfl, hRun, ?_, ⟨_, rfl⟩, rfl⟩
  intro hInPlace
  have hFinished :
      finished = replyStart [0xd0, 0x0a, 0x08] ++ replyContent :=
    Option.some.inj (hFinish.symm.trans hRun)
  have hSame := (hIff.mp (hFinished ▸ hInPlace)).1
  revert hSame
  decide

end Riot
