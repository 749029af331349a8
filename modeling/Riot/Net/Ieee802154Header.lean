import Mathlib.Data.List.GetD
import Mathlib.Tactic.Common

/-
  The MAC headers of IEEE 802.15.4, `ieee802154.c`.

  Addresses are lists of their bytes; a PAN id is its two bytes
  in little-endian order.
-/

----
-- Operations
----

namespace Riot

def fcfPanComp : UInt8 := 0x40

/- `IEEE802154_FCF_DST_ADDR_*`, for the length of an address. -/
def fcfDstAddr : Nat → Option UInt8
| 0 => some 0x00
| 2 => some 0x08
| 8 => some 0x0c
| _ => none

/- `IEEE802154_FCF_SRC_ADDR_*`. -/
def fcfSrcAddr : Nat → Option UInt8
| 0 => some 0x00
| 2 => some 0x80
| 8 => some 0xc0
| _ => none

/- The written bytes; no result is the return value 0. -/
def ieee802154SetFrameHdr
    (src dst : List UInt8) (srcPan dstPan : UInt8 × UInt8) (flags seq : UInt8) :
    Option (List UInt8) := do
  let type := flags &&& 0x07
  if type ≠ 0x00 ∧ type ≠ 0x02 ∧ src.length = 0 ∧ dst.length = 0 then
    none
  let dstAddr ← fcfDstAddr dst.length
  -- no acknowledgement of a broadcast
  let flags := if dst = [0xff, 0xff] then flags &&& ~~~0x20 else flags
  let compressed := src.length ≠ 0 ∧ dst.length ≠ 0 ∧ srcPan = dstPan
  let srcAddr ← fcfSrcAddr src.length
  let flags := if compressed then flags ||| fcfPanComp else flags
  return [flags, 0x10 ||| dstAddr ||| srcAddr, seq] ++
    (if dst.length ≠ 0 then [dstPan.1, dstPan.2] else []) ++ dst.reverse ++
      (if src.length ≠ 0 ∧ ¬ compressed then [srcPan.1, srcPan.2] else []) ++ src.reverse

variable (mhr : List UInt8)

def mhrByte
    (i : Nat) : UInt8 :=
  mhr.getD i 0

def ieee802154GetFrameHdrLen : Nat :=
  let tmp := mhrByte mhr 1 &&& 0x0c
  if tmp ≠ 0x08 ∧ tmp ≠ 0x0c ∧ tmp ≠ 0x00 then
    0
  else if tmp = 0x00 ∧ mhrByte mhr 0 &&& fcfPanComp ≠ 0 then
    0
  else
    let len := if tmp = 0x08 then 3 + 4 else if tmp = 0x0c then 3 + 10 else 3
    let tmp := mhrByte mhr 1 &&& 0xc0
    let len' := if mhrByte mhr 0 &&& fcfPanComp ≠ 0 then len else len + 2
    if tmp = 0x00 then len
    else if tmp = 0x80 then len' + 2
    else if tmp = 0xc0 then len' + 8
    else 0

/- An address, last byte first. -/
def mhrAddr
    (offset n : Nat) : List UInt8 :=
  ((mhr.drop offset).take n).reverse

def mhrPan
    (offset : Nat) : UInt8 × UInt8 :=
  (mhrByte mhr offset, mhrByte mhr (offset + 1))

/- The address and the PAN id if they are written; else -EINVAL. -/
def ieee802154GetDst : Option (List UInt8 × Option (UInt8 × UInt8)) :=
  let tmp := mhrByte mhr 1 &&& 0x0c
  if tmp = 0x08 then some (mhrAddr mhr 5 2, some (mhrPan mhr 3))
  else if tmp = 0x0c then some (mhrAddr mhr 5 8, some (mhrPan mhr 3))
  else if tmp ≠ 0x00 then none
  else if mhrByte mhr 0 &&& fcfPanComp ≠ 0 then none
  else some ([], none)

def ieee802154GetSrc : Option (List UInt8 × Option (UInt8 × UInt8)) := do
  let tmp := mhrByte mhr 1 &&& 0x0c
  let compressed := mhrByte mhr 0 &&& fcfPanComp ≠ 0
  if tmp ≠ 0x08 ∧ tmp ≠ 0x0c ∧ tmp ≠ 0x00 then
    none
  if tmp = 0x00 ∧ compressed then
    none
  let offset := if tmp = 0x08 then 3 + 4 else if tmp = 0x0c then 3 + 10 else 3
  let pan := if tmp ≠ 0x00 ∧ compressed then some (mhrPan mhr 3) else none
  let tmp := mhrByte mhr 1 &&& 0xc0
  let inline := tmp ≠ 0x00 ∧ ¬ compressed
  let pan := if inline then some (mhrPan mhr offset) else pan
  let offset := if inline then offset + 2 else offset
  if tmp = 0x80 then return (mhrAddr mhr offset 2, pan)
  else if tmp = 0xc0 then return (mhrAddr mhr offset 8, pan)
  else if tmp ≠ 0x00 then none
  else return ([], pan)

----
-- Round Trip
----

variable {src dst hdr rest : List UInt8} {srcPan dstPan : UInt8 × UInt8} {flags seq : UInt8}
variable {mhr} {dstAddr srcAddr : UInt8} {n : Nat}

/- The modes are read back from the control field. -/
theorem fcfAddr_eq
    (hDst : fcfDstAddr dst.length = some dstAddr)
    (hSrc : fcfSrcAddr src.length = some srcAddr) :
    (0x10 ||| dstAddr ||| srcAddr) &&& 0x0c = dstAddr ∧
      (0x10 ||| dstAddr ||| srcAddr) &&& 0xc0 = srcAddr ∧
        (dst.length = 0 ∧ dstAddr = 0x00 ∨ dst.length = 2 ∧ dstAddr = 0x08 ∨
          dst.length = 8 ∧ dstAddr = 0x0c) ∧
          (src.length = 0 ∧ srcAddr = 0x00 ∨ src.length = 2 ∧ srcAddr = 0x80 ∨
            src.length = 8 ∧ srcAddr = 0xc0) := by
  unfold fcfDstAddr at hDst
  unfold fcfSrcAddr at hSrc
  split at hDst
  all_goals split at hSrc
  all_goals cases hDst
  all_goals cases hSrc
  all_goals simp_all
  all_goals decide

/- A bit that is set can be read. -/
theorem or_and_self_right
    {a b : UInt8} :
    (a ||| b) &&& b = b := by
  apply UInt8.eq_of_toBitVec_eq
  ext i hi
  simp [Bool.and_or_distrib_right]

/- The bit for compression is set exactly if it is applied. -/
theorem panComp_iff
    {b c : Prop} [Decidable b] [Decidable c] (hFlags : flags &&& fcfPanComp = 0) :
    (if c then (if b then flags &&& ~~~0x20 else flags) ||| fcfPanComp
      else if b then flags &&& ~~~0x20 else flags) &&& fcfPanComp ≠ 0 ↔ c := by
  have hClear : (if b then flags &&& ~~~0x20 else flags) &&& fcfPanComp = 0 := by
    split
    · rw [UInt8.and_assoc, UInt8.and_comm (~~~0x20), ← UInt8.and_assoc, hFlags, UInt8.zero_and]
    · exact hFlags
  by_cases hC : c
  · rw [if_pos hC, or_and_self_right]
    exact iff_of_true (by decide) hC
  · rw [if_neg hC, hClear]
    simp [hC]

/- What follows a prefix is read back. -/
theorem mhrAddr_append
    {p a q : List UInt8} :
    mhrAddr (p ++ (a.reverse ++ q)) p.length a.length = a := by
  rw [mhrAddr, List.drop_left, List.take_left' (List.length_reverse ..), List.reverse_reverse]

theorem mhrPan_append
    {p q : List UInt8} {i : UInt8 × UInt8} :
    mhrPan (p ++ (i.1 :: i.2 :: q)) p.length = i := by
  simp [mhrPan, mhrByte]

/- Where the source and its PAN id are read. -/
theorem ieee802154GetSrc_eq
    {c : Prop} [Decidable c] (hComp : mhrByte mhr 0 &&& fcfPanComp ≠ 0 ↔ c)
    (hDstMode : mhrByte mhr 1 &&& 0x0c = dstAddr)
    (hSrcMode : mhrByte mhr 1 &&& 0xc0 = srcAddr)
    (hDstLen : dst.length = 0 ∧ dstAddr = 0x00 ∨ dst.length = 2 ∧ dstAddr = 0x08 ∨
      dst.length = 8 ∧ dstAddr = 0x0c)
    (hSrcLen : src.length = 2 ∧ srcAddr = 0x80 ∨ src.length = 8 ∧ srcAddr = 0xc0)
    (hDst : c → dst.length ≠ 0) :
    ieee802154GetSrc mhr =
      some (mhrAddr mhr ((if dst.length = 0 then 3 else 5 + dst.length) + if c then 0 else 2)
        src.length, some (mhrPan mhr (if c then 3
          else if dst.length = 0 then 3 else 5 + dst.length))) := by
  unfold ieee802154GetSrc
  rw [hDstMode, hSrcMode]
  simp only [hComp]
  rcases hDstLen with ⟨hD, rfl⟩ | ⟨hD, rfl⟩ | ⟨hD, rfl⟩
  all_goals rcases hSrcLen with ⟨hS, rfl⟩ | ⟨hS, rfl⟩
  all_goals
    by_cases hC : c
    all_goals simp_all

/-
  The length, the destination and the source are read back from
  every header that is written.
-/
theorem ieee802154_roundTrip
    (src dst rest hdr : List UInt8) (srcPan dstPan : UInt8 × UInt8) (flags seq : UInt8)
    (hFlags : flags &&& fcfPanComp = 0)
    (hSet : ieee802154SetFrameHdr src dst srcPan dstPan flags seq = some hdr) :
    ieee802154GetFrameHdrLen (hdr ++ rest) = hdr.length ∧
      (dst.length ≠ 0 → ieee802154GetDst (hdr ++ rest) = some (dst, some dstPan)) ∧
        (src.length ≠ 0 → ieee802154GetSrc (hdr ++ rest) = some (src, some srcPan)) := by
  unfold ieee802154SetFrameHdr at hSet
  dsimp only at hSet
  split at hSet
  · cases hSet
  rcases Option.bind_eq_some_iff.mp hSet with ⟨dstAddr, hDst, hSet⟩
  rcases Option.bind_eq_some_iff.mp hSet with ⟨srcAddr, hSrc, hSet⟩
  cases hSet
  rcases fcfAddr_eq hDst hSrc with ⟨hDstMode, hSrcMode, hDstLen, hSrcLen⟩
  have hComp := panComp_iff (b := dst = [0xff, 0xff])
    (c := src.length ≠ 0 ∧ dst.length ≠ 0 ∧ srcPan = dstPan) hFlags
  generalize (if src.length ≠ 0 ∧ dst.length ≠ 0 ∧ srcPan = dstPan then _ else _) = b0 at hComp ⊢
  generalize 0x10 ||| dstAddr ||| srcAddr = b1 at hDstMode hSrcMode
  have hByte : ∀ tail, mhrByte ([b0, b1, seq] ++ tail) 0 = b0 := fun _ => rfl
  have hByte' : ∀ tail, mhrByte ([b0, b1, seq] ++ tail) 1 = b1 := fun _ => rfl
  simp only [List.append_assoc]
  refine ⟨?_, fun hNe => ?_, fun hNe => ?_⟩
  · unfold ieee802154GetFrameHdrLen
    rw [hByte, hByte', hDstMode, hSrcMode]
    simp only [hComp]
    rcases hDstLen with ⟨hD, rfl⟩ | ⟨hD, rfl⟩ | ⟨hD, rfl⟩
    all_goals rcases hSrcLen with ⟨hS, rfl⟩ | ⟨hS, rfl⟩ | ⟨hS, rfl⟩
    all_goals
      by_cases hPan : srcPan = dstPan
      all_goals simp [hD, hS, hPan]
  · unfold ieee802154GetDst
    rw [hByte', hDstMode, if_pos hNe]
    have hAddr : ∀ post, mhrAddr ([b0, b1, seq, dstPan.1, dstPan.2] ++ (dst.reverse ++ post)) 5
        dst.length = dst := fun post => mhrAddr_append
    rcases hDstLen with ⟨hD, rfl⟩ | ⟨hD, rfl⟩ | ⟨hD, rfl⟩
    · exact absurd hD hNe
    · rw [hD] at hAddr
      exact congrArg (fun a => some (a, some dstPan)) (hAddr _)
    · rw [hD] at hAddr
      exact congrArg (fun a => some (a, some dstPan)) (hAddr _)
  · have hSource := hSrcLen.resolve_left (fun h => hNe h.1)
    have hDstNe : src.length ≠ 0 ∧ dst.length ≠ 0 ∧ srcPan = dstPan → dst.length ≠ 0 :=
      fun h => h.2.1
    refine Eq.trans (ieee802154GetSrc_eq hComp hDstMode hSrcMode hDstLen hSource hDstNe) ?_
    by_cases hC : src.length ≠ 0 ∧ dst.length ≠ 0 ∧ srcPan = dstPan
    · have hAddr := mhrAddr_append (p := [b0, b1, seq, dstPan.1, dstPan.2] ++ dst.reverse)
        (a := src) (q := rest)
      rw [List.length_append, List.length_reverse, List.append_assoc] at hAddr
      rw [if_pos hC, if_pos hC, if_neg hC.2.1, if_pos hC.2.1, if_neg (fun h => h.2 hC)]
      refine congrArg₂ (fun a pan => some (a, some pan)) ?_ hC.2.2.symm
      exact hAddr
    · have hAddr := mhrAddr_append (p := [b0, b1, seq] ++
        ((if dst.length ≠ 0 then [dstPan.1, dstPan.2] else []) ++ dst.reverse) ++
          [srcPan.1, srcPan.2]) (a := src) (q := rest)
      have hPan := mhrPan_append (p := [b0, b1, seq] ++
        ((if dst.length ≠ 0 then [dstPan.1, dstPan.2] else []) ++ dst.reverse))
        (i := srcPan) (q := src.reverse ++ rest)
      have hLen : ([b0, b1, seq] ++ ((if dst.length ≠ 0 then [dstPan.1, dstPan.2] else []) ++
          dst.reverse)).length = if dst.length = 0 then 3 else 5 + dst.length := by
        by_cases hD : dst.length = 0
        · simp [hD]
        · simp [hD]
          omega
      rw [List.length_append, hLen] at hAddr
      rw [hLen] at hPan
      have hInline : src.length ≠ 0 ∧ ¬ (src.length ≠ 0 ∧ dst.length ≠ 0 ∧ srcPan = dstPan) :=
        ⟨hNe, hC⟩
      rw [if_neg hC, if_neg hC, if_pos hInline]
      refine congrArg₂ (fun a pan => some (a, some pan)) ?_ ?_
      · simpa using hAddr
      · simpa using hPan

/- Two short addresses in one PAN: the PAN id is written once. -/
theorem ieee802154_roundTrip_short :
    ieee802154GetFrameHdrLen [0x41, 0x98, 7, 0x23, 0, 0xbb, 0xaa, 0xdd, 0xcc, 1] = 9 ∧
      (2 ≠ 0 → ieee802154GetDst [0x41, 0x98, 7, 0x23, 0, 0xbb, 0xaa, 0xdd, 0xcc, 1] =
        some ([0xaa, 0xbb], some (0x23, 0))) ∧
        (2 ≠ 0 → ieee802154GetSrc [0x41, 0x98, 7, 0x23, 0, 0xbb, 0xaa, 0xdd, 0xcc, 1] =
          some ([0xcc, 0xdd], some (0x23, 0))) :=
  ieee802154_roundTrip [0xcc, 0xdd] [0xaa, 0xbb] [1]
    [0x41, 0x98, 7, 0x23, 0, 0xbb, 0xaa, 0xdd, 0xcc] (0x23, 0) (0x23, 0) 0x01 7 (by decide)
      (by decide)

end Riot
