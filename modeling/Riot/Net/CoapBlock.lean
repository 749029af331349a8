import Riot.Core.Bitarithm
import Riot.Net.Nanocoap

/-
  Block-wise transfers of the nanocoap module, with 32-bit
  `size_t` and `unsigned`.

  The result `none` says that the code reads or writes outside
  of the message's buffer, runs into a failed assertion, or
  does not come to an end.
-/

open ByteBuffer

----
-- Block Options
----

namespace Riot

def coapOptBlock2 : UInt16 := 23

def coapBlockwiseNumOff : Nat := 4

def coapBlockwiseSzxMask : Nat := 0x07

/- A received block. -/
structure CoapBlock1 where
  offset : Nat
  blknum : Nat
  szx : Nat
  -- -1 for no option, 0 for the last block, 1 for others
  more : Int
deriving DecidableEq, Repr

/- The window of the generated content that is sent. -/
structure BlockSlicer where
  start : Nat
  endOffset : Nat
  cur : Nat
  -- where the option was placed
  opt : Option Nat
deriving DecidableEq, Repr

variable (pkt : CoapPkt)

/-
  The block number and the size exponent of a block option.
  The result is negative without an option that can be read,
  and then the two are either zero or left as they were.
-/
def coapGetBlockopt
    (option : UInt16) (blknum szx : Nat) : Option (Int × Nat × Nat) :=
  match coapFindOption pkt option.toNat with
  | none => some (-1, 0, 0)
  | some optpos => do
      let parsed ← parseOption pkt optpos
      match parsed with
      | none => some (-1, blknum, szx)
      | some p =>
        if p.optLen > 4 then
          some (-1, blknum, szx)
        else if p.optLen < 0 then
          -- as a number of bytes it fails the assertion
          none
        else do
          let blkopt ← decodeUint pkt.hdr p.pktPos p.optLen.toNat
          some
            (if blkopt &&& 0x8 ≠ 0 then 1 else 0, blkopt >>> coapBlockwiseNumOff,
              blkopt &&& coapBlockwiseSzxMask)

/- Fill in the block and tell whether there is one. -/
def coapGetBlock
    (block : CoapBlock1) (option : UInt16) : Option (Bool × CoapBlock1) := do
  let (more, blknum, szx) ← coapGetBlockopt pkt option block.blknum block.szx
  let offset :=
    if more ≥ 0 then (blknum <<< (szx + 4)) % 2 ^ 32 else 0
  some (decide (more ≥ 0), ⟨offset, blknum, szx, more⟩)

----
-- Slicers
----

def coapSzx2size
    (szx : Nat) : Nat :=
  1 <<< (szx + 4)

def coapBlockSlicerInit
    (slicer : BlockSlicer) (blknum blksize : Nat) : BlockSlicer :=
  let start := (blknum * blksize) % 2 ^ 32
  { slicer with start := start, endOffset := (start + blksize) % 2 ^ 32, cur := 0 }

/-
  The size exponent that is used for a requested one. The
  configured bound `expMax` is that of the block size.
-/
def block2Szx
    (expMax szx : Nat) : Nat :=
  let szxMax := (expMax + 2 ^ 32 - 4) % 2 ^ 32
  if szxMax < szx then szxMax else szx

/- The slicer for the block that a request asks for. -/
def coapBlock2Init
    (expMax : Nat)
    (slicer : BlockSlicer) : Option BlockSlicer := do
  let (more, blknum, szx) ← coapGetBlockopt pkt coapOptBlock2 0 0
  let szx := if more ≥ 0 then block2Szx expMax szx else szx
  some (coapBlockSlicerInit slicer blknum (coapSzx2size szx))

----
-- Writing Block Options
----

variable (build : LsbBuild)

def size2szx
    (size : Nat) : Option Nat :=
  if size > 1024 then
    none
  else do
    let szx ← bitarithmLsb build (BitVec.ofNat 32 size)
    if szx < 4 then none else some (szx - 4)

/-
  The loop that counts the blocks before a position. It ends
  within 2^32 turns or not at all.
-/
def blocksBefore
    (blksize : Nat) : Nat → Nat → Nat → Option Nat
| 0, _, _ => none
| fuel + 1, start, blknum =>
  if start > 0 then
    blocksBefore blksize fuel ((start + 2 ^ 32 - blksize) % 2 ^ 32) ((blknum + 1) % 2 ^ 32)
  else
    some blknum

/- The value of the block option for a slicer. -/
def slicer2blkopt
    (slicer : BlockSlicer)
    (more : Bool) : Option UInt32 := do
  let blksize := (slicer.endOffset + 2 ^ 32 - slicer.start) % 2 ^ 32
  let blknum ← blocksBefore blksize (2 ^ 32 + 1) slicer.start 0
  let szx ← size2szx build blksize
  some (UInt32.ofNat ((blknum <<< 4) ||| szx ||| (if more then 0x8 else 0)))

def coapOptPutUint
    (buf : List UInt8) (pos : Nat) (lastonum onum : UInt16)
    (value : UInt32) : Option (List UInt8 × Nat) :=
  coapPutOption buf pos lastonum.toNat onum.toNat (encodeUint value)

/- Write the block option of a slicer into a buffer. -/
def coapOptPutBlock
    (buf : List UInt8) (pos : Nat) (lastonum : UInt16) (slicer : BlockSlicer) (more : Bool)
    (option : UInt16) :
    Option (List UInt8 × Nat × BlockSlicer) := do
  let slicer := { slicer with opt := some pos }
  let blkopt ← slicer2blkopt build slicer more
  let (buf, n) ← coapOptPutUint buf pos lastonum option blkopt
  some (buf, n, slicer)

/- Add the block option of a slicer to a packet. -/
def coapOptAddBlock
    (cfg : NanocoapConfig) (slicer : BlockSlicer) (more : Bool) (option : UInt16) :
    Option (Except CoapError (Nat × CoapPkt) × BlockSlicer) := do
  let slicer := { slicer with opt := some pkt.payload }
  let blkopt ← slicer2blkopt build slicer more
  let r ← coapOptAddUint cfg pkt option blkopt
  some (r, slicer)

/-
  Rewrite the block option when the content is known. The end
  of the option is not known, so two bytes after its first one
  are taken to belong to it.
-/
def coapBlockFinish
    (buf : List UInt8) (slicer : BlockSlicer) (option : UInt16) : Option (List UInt8) := do
  let opt ← slicer.opt
  let b ← buf[opt]?
  let (delta, _) ← decodeValue buf (b.toNat >>> 4) (opt + 1) (opt + 3)
  let lastonum := (option.toNat - delta % 2 ^ 16) % 2 ^ 16
  let blkopt ← slicer2blkopt build slicer (decide (slicer.cur > slicer.endOffset))
  let (buf, _) ← coapPutOption buf opt lastonum.toNat option.toNat (encodeUint blkopt)
  some buf

----
-- Generating Content
----

def coapBlockwisePutChar
    (slicer : BlockSlicer) (buf : List UInt8) (bufpos : Nat)
    (c : UInt8) : Option (Nat × List UInt8 × BlockSlicer) :=
  let next := { slicer with cur := (slicer.cur + 1) % 2 ^ 32 }
  -- only a character within the window is copied
  if slicer.start ≤ slicer.cur ∧
      slicer.cur < slicer.endOffset then do
    let buf ← writeBytes buf bufpos [c]
    some (1, buf, next)
  else
    some (0, buf, next)

def coapBlockwisePutBytes
    (slicer : BlockSlicer) (buf : List UInt8) (bufpos : Nat)
    (c : List UInt8) : Option (Nat × List UInt8 × BlockSlicer) :=
  let len := c.length
  let strOffset :=
    if slicer.start > slicer.cur then slicer.start - slicer.cur
    else 0
  let next := { slicer with cur := (slicer.cur + len) % 2 ^ 32 }
  -- a string before or beyond the window
  if slicer.cur ≥ slicer.endOffset ∨ strOffset > len then
    some (0, buf, next)
  else
    let strLen :=
      -- a string over the end of the window
      if (slicer.cur + len) % 2 ^ 32 ≥ slicer.endOffset then
        (slicer.endOffset + 2 ^ 32 - (slicer.cur + strOffset) % 2 ^ 32) % 2 ^ 32
      else
        len - strOffset
    do
      let str ← readBytes c strOffset strLen
      let buf ← writeBytes buf bufpos str
      some (strLen, buf, next)

----
-- Offsets
----

variable {pkt : CoapPkt} {option : UInt16}
variable {expMax v k blknum szx blknum₀ szx₀ : Nat} {more : Int}

/- A block option is read, or there is none. -/
theorem coapGetBlockopt_cases
    (hGet : coapGetBlockopt pkt option blknum₀ szx₀ = some (more, blknum, szx)) :
    (more ≥ 0 ∧
      ∃ v, coapOptGetUint pkt option.toNat = some (.ok v) ∧ blknum = v / 16 ∧ szx = v % 8) ∨
    (more < 0 ∧ (blknum = 0 ∨ blknum = blknum₀)) := by
  unfold coapGetBlockopt at hGet
  unfold coapOptGetUint
  cases hFind : coapFindOption pkt option.toNat with
  | none =>
    right
    simp only [hFind, Option.some.injEq, Prod.mk.injEq] at hGet
    exact ⟨by omega, .inl hGet.2.1.symm⟩
  | some optpos =>
    simp only [hFind, Option.bind_eq_bind] at hGet ⊢
    rcases Option.bind_eq_some_iff.mp hGet with ⟨parsed, hParse, hGet⟩
    rw [hParse, Option.bind_some]
    cases parsed with
    | none =>
      right
      simp only [Option.some.injEq, Prod.mk.injEq] at hGet
      exact ⟨by omega, .inr hGet.2.1.symm⟩
    | some p =>
      simp only [Option.map_some, Option.getD_some]
      by_cases hLong : p.optLen > 4
      · right
        simp only [if_pos hLong, Option.some.injEq, Prod.mk.injEq] at hGet
        exact ⟨by omega, .inr hGet.2.1.symm⟩
      by_cases hNeg : p.optLen < 0
      · simp [hLong, hNeg] at hGet
      left
      simp only [if_neg hLong, if_neg hNeg] at hGet
      rcases Option.bind_eq_some_iff.mp hGet with ⟨v, hUint, hValue⟩
      simp only [Option.some.injEq, Prod.mk.injEq, coapBlockwiseNumOff, coapBlockwiseSzxMask,
        Nat.shiftRight_eq_div_pow, Nat.and_two_pow_sub_one_eq_mod _ 3] at hValue
      rcases hValue with ⟨hMore, hNum, hSzx⟩
      have hNonneg : p.optLen ≥ 0 := not_lt.mp hNeg
      refine ⟨?_, v, ?_, hNum.symm, hSzx.symm⟩
      · rw [← hMore]
        split <;> decide
      · rw [if_pos hNonneg, if_neg hLong, hUint, Option.bind_some]

variable (blknum₀ szx₀) in
/- A number other than zero is read as a block option. -/
theorem coapGetBlockopt_of_uint
    (hUint : coapOptGetUint pkt option.toNat = some (.ok v)) (hPos : v ≠ 0) :
    ∃ more, more ≥ 0 ∧ coapGetBlockopt pkt option blknum₀ szx₀ = some (more, v / 16, v % 8) := by
  unfold coapOptGetUint at hUint
  unfold coapGetBlockopt
  cases hFind : coapFindOption pkt option.toNat with
  | none => simp [hFind] at hUint
  | some optpos =>
    simp only [hFind, Option.bind_eq_bind] at hUint ⊢
    rcases Option.bind_eq_some_iff.mp hUint with ⟨parsed, hParse, hUint⟩
    rw [hParse, Option.bind_some]
    cases parsed with
    | none =>
      -- without an option the number that is read is zero
      simp [decodeUint, eq_comm, hPos] at hUint
    | some p =>
      simp only [Option.map_some, Option.getD_some] at hUint ⊢
      by_cases hNonneg : p.optLen ≥ 0
      · by_cases hLong : p.optLen > 4
        · simp [hNonneg, hLong] at hUint
        simp only [if_pos hNonneg, if_neg hLong] at hUint
        rcases Option.bind_eq_some_iff.mp hUint with ⟨w, hRead, hValue⟩
        have hValue : w = v := by
          simpa using hValue
        subst hValue
        refine ⟨if w &&& 0x8 ≠ 0 then 1 else 0, ?_, ?_⟩
        · split <;> decide
        · simp only [if_neg hLong, if_neg (not_lt.mpr hNonneg), hRead, Option.bind_some,
            coapBlockwiseNumOff, coapBlockwiseSzxMask, Nat.shiftRight_eq_div_pow,
            Nat.and_two_pow_sub_one_eq_mod _ 3]
      · simp [hNonneg] at hUint

/- The product that stays below 2^32. -/
theorem offset_exact_iff
    (hk : k ≤ 28) :
    v / 16 * 2 ^ (k + 4) % 2 ^ 32 = v / 16 * 2 ^ (k + 4) ↔ v < 2 ^ (32 - k) := by
  have hSplit : 2 ^ 32 = 2 ^ (28 - k) * 2 ^ (k + 4) := by
    rw [← Nat.pow_add]
    congr 1
    omega
  have hSixteen : 2 ^ (32 - k) = 2 ^ (28 - k) * 16 := by
    have hExp : 32 - k = 28 - k + 4 := by
      omega
    rw [hExp, Nat.pow_add]
  have hUnit : 0 < 2 ^ (k + 4) := Nat.two_pow_pos _
  rw [Nat.mod_eq_iff_lt (Nat.two_pow_pos 32).ne', hSplit, Nat.mul_lt_mul_right hUnit, hSixteen,
    Nat.div_lt_iff_lt_mul (by decide)]

theorem block2Szx_le
    (expMax szx : Nat) :
    block2Szx expMax szx ≤ szx := by
  unfold block2Szx
  dsimp only
  split <;> omega

/- A returned block has the offset of its number and size. -/
def BlockOffsetExact
    (pkt : CoapPkt) (option : UInt16) : Prop :=
  ∀ block block', coapGetBlock pkt block option = some (true, block') →
    block'.offset = block'.blknum * 2 ^ (block'.szx + 4)

/- The slicer starts where its number and size say. -/
def SlicerStartExact
    (pkt : CoapPkt) (expMax : Nat) : Prop :=
  ∀ slicer slicer' more blknum szx,
    coapGetBlockopt pkt coapOptBlock2 0 0 = some (more, blknum, szx) →
    coapBlock2Init pkt expMax slicer = some slicer' →
    slicer'.start = blknum * 2 ^ ((if more ≥ 0 then block2Szx expMax szx else szx) + 4)

theorem coapGetBlock_exact_iff :
    BlockOffsetExact pkt option ↔
      ∀ v, coapOptGetUint pkt option.toNat = some (.ok v) → v < 2 ^ (32 - v % 8) := by
  constructor
  · intro hExact v hUint
    by_cases hZero : v = 0
    · subst hZero
      decide
    let block : CoapBlock1 := ⟨0, 0, 0, 0⟩
    rcases coapGetBlockopt_of_uint 0 0 hUint hZero with ⟨more, hMore, hGet⟩
    have hBlock : coapGetBlock pkt block option =
          some (true, ⟨v / 16 * 2 ^ (v % 8 + 4) % 2 ^ 32, v / 16, v % 8, more⟩) := by
      simp only [coapGetBlock, block, hGet, Option.bind_eq_bind, Option.bind_some, hMore, if_true,
        Nat.shiftLeft_eq, decide_true]
    have hOffset := hExact _ _ hBlock
    exact (offset_exact_iff (by omega)).mp hOffset
  · intro hBelow block block' hBlock
    unfold coapGetBlock at hBlock
    rcases Option.bind_eq_some_iff.mp hBlock with ⟨⟨more, blknum, szx⟩, hGet, hBlock⟩
    simp only [Option.some.injEq, Prod.mk.injEq, decide_eq_true_eq] at hBlock
    rcases hBlock with ⟨hMore, hFields⟩
    rcases coapGetBlockopt_cases hGet with ⟨_, v, hUint, rfl, rfl⟩ | ⟨hNone, _⟩
    · rw [← hFields]
      simp only [if_pos hMore, Nat.shiftLeft_eq]
      exact (offset_exact_iff (by omega)).mpr (hBelow v hUint)
    · omega

theorem coapBlock2Init_exact_iff :
    SlicerStartExact pkt expMax ↔ ∀ v, coapOptGetUint pkt coapOptBlock2.toNat = some (.ok v) →
        v < 2 ^ (32 - block2Szx expMax (v % 8)) := by
  have hSmall : ∀ v, block2Szx expMax (v % 8) ≤ 28 := by
    intro v
    have hLe := block2Szx_le expMax (v % 8)
    omega
  constructor
  · intro hExact v hUint
    by_cases hZero : v = 0
    · subst hZero
      exact Nat.two_pow_pos _
    rcases coapGetBlockopt_of_uint 0 0 hUint hZero with ⟨more, hMore, hGet⟩
    let slicer : BlockSlicer := ⟨0, 0, 0, none⟩
    have hInit : coapBlock2Init pkt expMax slicer =
          some (coapBlockSlicerInit slicer (v / 16) (coapSzx2size (block2Szx expMax (v % 8)))) := by
      simp only [coapBlock2Init, hGet, Option.bind_eq_bind, Option.bind_some, if_pos hMore]
    have hStart := hExact _ _ _ _ _ hGet hInit
    simp only [if_pos hMore, coapBlockSlicerInit, coapSzx2size, Nat.shiftLeft_eq, one_mul] at hStart
    exact (offset_exact_iff (hSmall v)).mp hStart
  · intro hBelow slicer slicer' more blknum szx hGet hInit
    simp only [coapBlock2Init, hGet, Option.bind_eq_bind,
      Option.bind_some, Option.some.injEq] at hInit
    rw [← hInit]
    simp only [coapBlockSlicerInit, coapSzx2size, Nat.shiftLeft_eq, one_mul]
    rcases coapGetBlockopt_cases hGet with ⟨hMore, v, hUint, rfl, rfl⟩ | ⟨_, hZero⟩
    · rw [if_pos hMore]
      exact (offset_exact_iff (hSmall v)).mpr (hBelow v hUint)
    · have hNum : blknum = 0 := hZero.elim id id
      rw [hNum, Nat.zero_mul, Nat.zero_mod]

/-
  Offsets do not wrap exactly while the numbers in the options
  stay below a bound that shrinks as the sizes grow.
-/
theorem blockOffsets_exact_iff
    (pkt : CoapPkt) (option : UInt16) (expMax : Nat) :
    (BlockOffsetExact pkt option ↔
      ∀ v, coapOptGetUint pkt option.toNat = some (.ok v) → v < 2 ^ (32 - v % 8)) ∧
    (SlicerStartExact pkt expMax ↔ ∀ v, coapOptGetUint pkt coapOptBlock2.toNat = some (.ok v) →
        v < 2 ^ (32 - block2Szx expMax (v % 8))) :=
  ⟨coapGetBlock_exact_iff, coapBlock2Init_exact_iff⟩

/- A request for the last block there is a number for. -/
def lastBlockRequest : List UInt8 :=
  [0x40, 0x01, 0, 0, 0xd4, 10, 0xff, 0xff, 0xff, 0xff]

/- It is accepted, and both offsets wrap. -/
theorem blockOffsets_wrap :
    ∃ pkt, coapParse ⟨16, false, by decide⟩ lastBlockRequest = some (.ok pkt) ∧
      ¬ BlockOffsetExact pkt coapOptBlock2 ∧ ¬ SlicerStartExact pkt 6 := by
  have hParse :
      coapParse ⟨16, false, by decide⟩ lastBlockRequest =
        some (.ok ⟨lastBlockRequest, none, 10, 0, 1, [⟨23, 4⟩], 0⟩) := by
    rfl
  have hUint :
      coapOptGetUint
          ⟨lastBlockRequest, none, 10, 0, 1, [⟨23, 4⟩], 0⟩
          coapOptBlock2.toNat = some (.ok 0xffffffff) := by
    rfl
  refine ⟨_, hParse, ?_, ?_⟩
  · intro hExact
    have hBelow := coapGetBlock_exact_iff.mp hExact _ hUint
    revert hBelow
    decide
  · intro hExact
    have hBelow := coapBlock2Init_exact_iff.mp hExact _ hUint
    revert hBelow
    decide

end Riot
