import Riot.Lib.ByteBits
import Riot.Lib.Outcome
import Riot.Net.SixlowpanIphc

/-
  How much of a frame the IPHC decoder reads.

  The bits of the first two bytes announce the lengths of the
  parts of a header. The decoder reads these parts, whether the
  frame has them or not.
-/

----
-- Reads
----

namespace Riot

/-
  A read outside of a frame of this size, where nothing is read
  behind the limit. Without all contexts and identifiers the
  decoder may return 0.
-/
def readErr
    (size limit : Nat)
    (full : Prop) : IphcErr → Prop
| .outside => size < limit
| .zero => ¬ full
| .assertion => False

theorem no_readErr
    {size limit : Nat} (hFits : limit ≤ size) (e : IphcErr) :
    ¬ readErr size limit True e := by
  cases e with
  | outside => exact Nat.not_lt.mpr hFits
  | zero => exact not_not.mpr trivial
  | assertion => exact not_false

/- What is read inside of the frame has a value. -/
theorem exists_read
    {α : Type} {size n : Nat} {r : Except IphcErr (α × Nat)}
    (hRead : EndsWith (readErr size size True) (fun x => x.2 = n) r) :
    ∃ a, r = .ok (a, n) := by
  rcases hRead.exists_of_no_error (no_readErr (Nat.le_refl size)) with ⟨⟨a, p⟩, hOk, rfl⟩
  exact ⟨a, hOk⟩

section

variable {data : List UInt8} {base pos p n limit : Nat} {full : Prop} {iphc1 iphc2 : UInt8}

theorem iphcByte_outcome
    (hIn : p < limit) :
    EndsWith (readErr data.length limit full) (fun _ => p < data.length) (iphcByte data p) := by
  unfold iphcByte
  split
  · rename_i hSome
    exact (List.getElem?_eq_some_iff.mp hSome).1
  · rename_i hNone
    have hSize := List.getElem?_eq_none_iff.mp hNone
    exact Nat.lt_of_le_of_lt hSize hIn

theorem iphcBytes_outcome
    (hIn : p + n ≤ limit) :
    EndsWith (readErr data.length limit full)
      (fun _ => p + n ≤ data.length) (iphcBytes data p n) := by
  unfold iphcBytes ByteBuffer.readBytes
  by_cases hFits : p + n ≤ data.length
  · rw [if_pos hFits]
    exact hFits
  · rw [if_neg hFits]
    exact Nat.lt_of_lt_of_le (Nat.not_le.mp hFits) hIn

----
-- Fields
----

def tfLen
    (iphc1 : UInt8) : Nat :=
  if iphc1 &&& 0x18 = 0x00 then 4
  else if iphc1 &&& 0x18 = 0x08 then 3
  else if iphc1 &&& 0x18 = 0x10 then 1
  else 0

def nhLen
    (iphc1 : UInt8) : Nat :=
  if iphc1 &&& 0x04 = 0 then 1 else 0

def hlLen
    (iphc1 : UInt8) : Nat :=
  if iphc1 &&& 0x03 = 0x00 then 1 else 0

theorem decodeTf_outcome
    (hIn : base + pos + tfLen iphc1 ≤ limit) :
    EndsWith (readErr data.length limit full) (fun r => r.2 = pos + tfLen iphc1)
      (decodeTf data base iphc1 pos) := by
  unfold decodeTf
  unfold tfLen at hIn ⊢
  split
  · rename_i hForm
    rw [if_pos hForm] at hIn
    apply EndsWith.bind (iphcByte_outcome (by omega))
    intro tc _
    apply EndsWith.bind (iphcByte_outcome (by omega))
    intro b₁ _
    apply EndsWith.bind (iphcByte_outcome (by omega))
    intro b₂ _
    apply EndsWith.bind (iphcByte_outcome (by omega))
    intro b₃ _
    exact rfl
  · rename_i hForm₀
    rw [if_neg hForm₀] at hIn
    split
    · rename_i hForm
      rw [if_pos hForm] at hIn
      apply EndsWith.bind (iphcByte_outcome (by omega))
      intro b₁ _
      apply EndsWith.bind (iphcByte_outcome (by omega))
      intro b₂ _
      apply EndsWith.bind (iphcByte_outcome (by omega))
      intro b₃ _
      exact rfl
    · rename_i hForm₁
      rw [if_neg hForm₁] at hIn
      split
      · rename_i hForm
        rw [if_pos hForm] at hIn
        apply EndsWith.bind (iphcByte_outcome (by omega))
        intro tc _
        exact rfl
      · exact rfl

theorem decodeNh_outcome
    (hIn : base + pos + nhLen iphc1 ≤ limit) :
    EndsWith (readErr data.length limit full) (fun r => r.2 = pos + nhLen iphc1)
      (decodeNh data base iphc1 pos) := by
  unfold decodeNh
  unfold nhLen at hIn ⊢
  split
  · rename_i hForm
    rw [if_pos hForm] at hIn
    apply EndsWith.bind (iphcByte_outcome (by omega))
    intro nh _
    exact rfl
  · exact rfl

theorem decodeHl_outcome
    (hIn : base + pos + hlLen iphc1 ≤ limit) :
    EndsWith (readErr data.length limit full) (fun r => r.2 = pos + hlLen iphc1)
      (decodeHl data base iphc1 pos) := by
  unfold decodeHl
  unfold hlLen at hIn ⊢
  split
  · rename_i hForm
    rw [if_pos hForm] at hIn
    apply EndsWith.bind (iphcByte_outcome (by omega))
    intro hl _
    exact rfl
  · split
    · exact rfl
    · split <;> exact rfl

----
-- Addresses
----

variable {env : IphcRecv} {ctx : Option SixlowpanCtx} {iid : Option Eui64} {mode : UInt8}

def iidLen
    (mode : UInt8) : Nat :=
  if mode = 1 then 8 else if mode = 2 then 2 else 0

def srcLen
    (iphc2 : UInt8) : Nat :=
  if iphc2 &&& 0x70 = 0x00 then 16
  else if iphc2 &&& 0x70 = 0x40 then 0
  else iidLen ((iphc2 &&& 0x30) >>> 4)

def mcastLen
    (mode : UInt8) : Nat :=
  if mode = 1 then 6 else if mode = 2 then 4 else 1

def dstLen
    (iphc2 : UInt8) : Nat :=
  if iphc2 &&& 0x07 = 0x00 then 16
  else if iphc2 &&& 0x0c = 0x00 then iidLen (iphc2 &&& 0x03)
  else if iphc2 &&& 0x0f = 0x04 then 0
  else if iphc2 &&& 0x0c = 0x04 then iidLen (iphc2 &&& 0x03)
  else if iphc2 &&& 0x0c = 0x08 then mcastLen (iphc2 &&& 0x03)
  else if iphc2 &&& 0x0f = 0x0c then 6
  else 0

/-
  The bytes read behind the header, for a multicast address
  with a unicast prefix.
-/
def iphcOverread
    (iphc2 : UInt8) : Nat :=
  if iphc2 &&& 0x0f = 0x0c then 2 else 0

theorem decodeIid_outcome
    (hIid : full → iid.isSome = true) (hIn : base + pos + iidLen mode ≤ limit) :
    EndsWith (readErr data.length limit full) (fun r => r.2 = pos + iidLen mode)
      (decodeIid data base iid mode pos) := by
  unfold decodeIid
  unfold iidLen at hIn ⊢
  split
  · rename_i hMode
    rw [if_pos hMode] at hIn
    apply EndsWith.bind (iphcBytes_outcome (by omega))
    intro bs _
    exact rfl
  · rename_i hMode₁
    rw [if_neg hMode₁] at hIn
    split
    · rename_i hMode
      rw [if_pos hMode] at hIn
      apply EndsWith.bind (iphcBytes_outcome (by omega))
      intro bs _
      exact rfl
    · cases hSome : iid with
      | some iid => exact rfl
      | none =>
        apply EndsWith.error
        intro hFull
        have hIs := hIid hFull
        rw [hSome] at hIs
        cases hIs

theorem decodeLocal_outcome
    (hIid : full → iid.isSome = true) (hIn : base + pos + iidLen mode ≤ limit) :
    EndsWith (readErr data.length limit full) (fun r => r.2 = pos + iidLen mode)
      (decodeLocal data base iid mode pos) := by
  apply EndsWith.bind (decodeIid_outcome hIid hIn)
  intro r hPos
  exact hPos

theorem decodeCtx_outcome
    (hCtx : ctx.isSome = true) (hIid : full → iid.isSome = true)
    (hIn : base + pos + iidLen mode ≤ limit) :
    EndsWith (readErr data.length limit full) (fun r => r.2 = pos + iidLen mode)
      (decodeCtx data base ctx iid mode pos) := by
  cases ctx with
  | none => cases hCtx
  | some ctx =>
    apply EndsWith.bind (decodeIid_outcome hIid hIn)
    intro r hPos
    exact hPos

theorem decodeFull_outcome
    (hIn : base + pos + 16 ≤ limit) :
    EndsWith (readErr data.length limit full) (fun r => r.2 = pos + 16)
      (decodeFull data base pos) := by
  apply EndsWith.bind (iphcBytes_outcome (by omega))
  intro bs _
  exact rfl

theorem decodeMcast_outcome
    (hIn : base + pos + mcastLen mode ≤ limit) :
    EndsWith (readErr data.length limit full) (fun r => r.2 = pos + mcastLen mode)
      (decodeMcast data base mode pos) := by
  unfold decodeMcast
  unfold mcastLen at hIn ⊢
  split
  · rename_i hMode
    rw [if_pos hMode] at hIn
    apply EndsWith.bind (iphcByte_outcome (by omega))
    intro b _
    apply EndsWith.bind (iphcBytes_outcome (by omega))
    intro bs _
    exact rfl
  · rename_i hMode₁
    rw [if_neg hMode₁] at hIn
    split
    · rename_i hMode
      rw [if_pos hMode] at hIn
      apply EndsWith.bind (iphcByte_outcome (by omega))
      intro b _
      apply EndsWith.bind (iphcBytes_outcome (by omega))
      intro bs _
      exact rfl
    · rename_i hMode₂
      rw [if_neg hMode₂] at hIn
      apply EndsWith.bind (iphcByte_outcome (by omega))
      intro b _
      exact rfl

/- The last two bytes are read behind those that are counted. -/
theorem decodeUcPrefix_outcome
    (hCtx : ctx.isSome = true) (hIn : base + pos + 8 ≤ limit) :
    EndsWith (readErr data.length limit full)
      (fun r => r.2 = pos + 6 ∧ base + pos + 8 ≤ data.length)
      (decodeUcPrefix data base ctx pos) := by
  cases ctx with
  | none => cases hCtx
  | some ctx =>
    apply EndsWith.bind (iphcByte_outcome (by omega))
    intro b₁ _
    apply EndsWith.bind (iphcByte_outcome (by omega))
    intro b₂ _
    apply EndsWith.bind (iphcBytes_outcome (by omega))
    intro bs hRead
    exact ⟨rfl, by omega⟩

/- What the decoder looks up besides the frame. -/
structure IphcRecv.Complete
    (env : IphcRecv) : Prop where
  ctxs : ∀ id, ctxValid (env.ctxs id) = true
  srcIid : env.srcIid.isSome = true
  dstIid : env.dstIid.isSome = true

def cidLen
    (iphc2 : UInt8) : Nat :=
  if iphc2 &&& 0x80 ≠ 0 then 1 else 0

theorem decodeCid_outcome
    (hIn : base + 2 + cidLen iphc2 ≤ limit) :
    EndsWith (readErr data.length limit full) (fun cid => cid.toNat < 256)
      (decodeCid data base iphc2) := by
  unfold decodeCid
  unfold cidLen at hIn
  split
  · rename_i hCid
    rw [if_pos hCid] at hIn
    have hByte : base + 2 < limit := by
      omega
    apply EndsWith.mono (iphcByte_outcome hByte)
    · intro e hErr
      exact hErr
    · intro b _
      exact b.toNat_lt
  · exact EndsWith.ok (by decide)

/- A context that is looked up is there, or 0 is returned. -/
theorem ctxLookupId_outcome
    {id : UInt8} (hId : id.toNat < 16) (hFull : full → env.Complete) :
    EndsWith (readErr data.length limit full) (fun ctx => ctx.isSome = true)
      (match ctxLookupId env.ctxs id with
      | some ctx => Except.ok (some ctx)
      | none => .error .zero) := by
  cases hLookup : ctxLookupId env.ctxs id with
  | some ctx => exact rfl
  | none =>
    apply EndsWith.error
    intro hAll
    have hValid := (hFull hAll).ctxs ⟨id.toNat, hId⟩
    simp [ctxLookupId, hId, hValid] at hLookup

theorem decodeSrcCtx_outcome
    (hFull : full → env.Complete) (hIn : base + 2 + cidLen iphc2 ≤ limit) :
    EndsWith (readErr data.length limit full)
      (fun ctx => iphc2 &&& 0x40 ≠ 0 → iphc2 &&& 0x30 ≠ 0 → ctx.isSome = true)
      (decodeSrcCtx env data base iphc2) := by
  unfold decodeSrcCtx
  split
  · apply EndsWith.bind (decodeCid_outcome hIn)
    intro cid hCid
    dsimp only
    split
    · have hSci : (cid >>> 4).toNat < 16 := by
        rw [ByteBits.toNat_shiftRight_four]
        omega
      apply EndsWith.mono (ctxLookupId_outcome hSci hFull)
      · intro e hErr
        exact hErr
      · intro ctx hSome _ _
        exact hSome
    · rename_i hSam
      intro _ hNe
      exact absurd hNe hSam
  · rename_i hSac
    intro hNe
    exact absurd hNe hSac

theorem decodeDstCtx_outcome
    (hFull : full → env.Complete) (hIn : base + 2 + cidLen iphc2 ≤ limit) :
    EndsWith (readErr data.length limit full)
      (fun ctx => iphc2 &&& 0x04 ≠ 0 → iphc2 &&& 0x0b ≠ 0 → ctx.isSome = true)
      (decodeDstCtx env data base iphc2 ctx) := by
  unfold decodeDstCtx
  split
  · apply EndsWith.bind (decodeCid_outcome hIn)
    intro cid hCid
    dsimp only
    split
    · have hDci : (cid &&& 0x0f).toNat < 16 := by
        rw [ByteBits.toNat_and_0f]
        omega
      apply EndsWith.mono (ctxLookupId_outcome hDci hFull)
      · intro e hErr
        exact hErr
      · intro ctx hSome _ _
        exact hSome
    · rename_i hDam
      intro _ hNe
      exact absurd hNe hDam
  · rename_i hDac
    intro hNe
    exact absurd hNe hDac

/- Which source addresses have a context. -/
theorem srcForm_ctx :
    ∀ x : UInt8, x &&& 0x40 ≠ 0 → x &&& 0x70 ≠ 0x40 → x &&& 0x30 ≠ 0 :=
  ByteBits.byte_forall (by decide +kernel)

theorem decodeSrc_outcome
    (hCtx : iphc2 &&& 0x40 ≠ 0 → iphc2 &&& 0x30 ≠ 0 → ctx.isSome = true)
    (hIid : full → env.srcIid.isSome = true)
    (hIn : base + pos + srcLen iphc2 ≤ limit) :
    EndsWith (readErr data.length limit full) (fun r => r.2 = pos + srcLen iphc2)
      (decodeSrc env data base iphc2 ctx pos) := by
  unfold decodeSrc
  unfold srcLen at hIn ⊢
  dsimp only
  by_cases hInline : iphc2 &&& 0x70 = 0x00
  · rw [if_pos hInline] at hIn
    simp only [if_pos hInline]
    exact decodeFull_outcome hIn
  · rw [if_neg hInline] at hIn
    simp only [if_neg hInline]
    by_cases hUnspec : iphc2 &&& 0x70 = 0x40
    · have hSac : iphc2 &&& 0x40 ≠ 0 := by
        have hAnd : iphc2 &&& 0x40 = iphc2 &&& 0x70 &&& 0x40 := by
          rw [UInt8.and_assoc]
          rfl
        rw [hAnd, hUnspec]
        decide
      simp only [if_pos hUnspec, if_neg hSac]
      exact rfl
    · rw [if_neg hUnspec] at hIn
      simp only [if_neg hUnspec]
      split
      · exact decodeLocal_outcome hIid hIn
      · rename_i hSac
        have hSam := srcForm_ctx iphc2 hSac hUnspec
        exact decodeCtx_outcome (hCtx hSac hSam) hIid hIn

/- Which destination addresses have a context. -/
theorem dstForm_ctx :
    ∀ x : UInt8, (x &&& 0x0c = 0x04 → x &&& 0x0f ≠ 0x04 → x &&& 0x04 ≠ 0 ∧ x &&& 0x0b ≠ 0) ∧
      (x &&& 0x0f = 0x0c → x &&& 0x04 ≠ 0 ∧ x &&& 0x0b ≠ 0 ∧
        x &&& 0x07 ≠ 0 ∧ x &&& 0x0c ≠ 0 ∧ x &&& 0x0c ≠ 0x04 ∧ x &&& 0x0c ≠ 0x08) :=
  ByteBits.byte_forall (by decide +kernel)

theorem decodeDst_outcome
    (hCtx : iphc2 &&& 0x04 ≠ 0 → iphc2 &&& 0x0b ≠ 0 → ctx.isSome = true)
    (hIid : full → env.dstIid.isSome = true)
    (hIn : base + pos + dstLen iphc2 + iphcOverread iphc2 ≤ limit) :
    EndsWith (readErr data.length limit full) (fun r => r.2 = pos + dstLen iphc2 ∧
        (iphcOverread iphc2 = 0 ∨ base + pos + dstLen iphc2 + iphcOverread iphc2 ≤ data.length))
      (decodeDst env data base iphc2 ctx pos) := by
  rcases dstForm_ctx iphc2 with ⟨hUni, hUc⟩
  unfold iphcOverread at hIn ⊢
  by_cases hForm : iphc2 &&& 0x0f = 0x0c
  · rcases hUc hForm with ⟨hDac, hDam, h₀, h₁, h₂, h₃⟩
    have hFour : ¬ iphc2 &&& 0x0f = 0x04 := by
      rw [hForm]
      decide
    have hDecode : decodeDst env data base iphc2 ctx pos = decodeUcPrefix data base ctx pos := by
      simp only [decodeDst, if_neg h₀, if_neg h₁, if_neg h₂, if_neg h₃, if_neg hFour, if_pos hForm]
    have hLen : dstLen iphc2 = 6 := by
      simp only [dstLen, if_neg h₀, if_neg h₁, if_neg h₂, if_neg h₃, if_neg hFour, if_pos hForm]
    rw [if_pos hForm, hLen] at hIn
    rw [hDecode, hLen, if_pos hForm]
    apply EndsWith.mono (decodeUcPrefix_outcome (hCtx hDac hDam) hIn)
    · intro e hErr
      exact hErr
    · intro r hPost
      exact ⟨hPost.1, Or.inr hPost.2⟩
  · rw [if_neg hForm, Nat.add_zero] at hIn
    rw [if_neg hForm]
    have hPos : EndsWith (readErr data.length limit full)
          (fun r => r.2 = pos + dstLen iphc2)
          (decodeDst env data base iphc2 ctx pos) := by
      unfold decodeDst
      unfold dstLen at hIn ⊢
      dsimp only
      split
      · rename_i h₀
        rw [if_pos h₀] at hIn
        exact decodeFull_outcome hIn
      · rename_i h₀
        rw [if_neg h₀] at hIn
        split
        · rename_i h₁
          rw [if_pos h₁] at hIn
          exact decodeLocal_outcome hIid hIn
        · rename_i h₁
          rw [if_neg h₁] at hIn
          split
          · exact rfl
          · rename_i h₂
            rw [if_neg h₂] at hIn
            split
            · rename_i h₃
              rw [if_pos h₃] at hIn
              rcases hUni h₃ h₂ with ⟨hDac, hDam⟩
              exact decodeCtx_outcome (hCtx hDac hDam) hIid hIn
            · rename_i h₃
              rw [if_neg h₃] at hIn
              split
              · rename_i h₄
                rw [if_pos h₄] at hIn
                exact decodeMcast_outcome hIn
              · exact rfl
    apply EndsWith.mono hPos
    · intro e hErr
      exact hErr
    · intro r hPost
      exact ⟨hPost, Or.inl rfl⟩

----
-- The Whole Header
----

/- The length that the first two bytes announce. -/
def iphcHdrLen
    (iphc1 iphc2 : UInt8) : Nat :=
  2 + cidLen iphc2 + tfLen iphc1 + nhLen iphc1 + hlLen iphc1 + srcLen iphc2 + dstLen iphc2

/-
  Either the header is read up to the announced length, or some
  of what is read is not there.
-/
theorem iphcIpv6Decode_outcome
    (hFirst : iphcByte data base = .ok iphc1)
    (hSecond : iphcByte data (base + 1) = .ok iphc2) (hFull : full → env.Complete)
    (hIn : base + iphcHdrLen iphc1 iphc2 + iphcOverread iphc2 ≤ limit) :
    EndsWith (readErr data.length limit full) (fun r => r.2 = iphcHdrLen iphc1 iphc2 ∧
        (iphcOverread iphc2 = 0 ∨ base + iphcHdrLen iphc1 iphc2 + iphcOverread iphc2 ≤ data.length))
      (iphcIpv6Decode env data base) := by
  unfold iphcHdrLen at hIn ⊢
  have hStart : (if iphc2 &&& 0x80 ≠ 0 then 3 else 2) = 2 + cidLen iphc2 := by
    unfold cidLen
    split <;> rfl
  unfold iphcIpv6Decode
  rw [hSecond, hFirst]
  apply EndsWith.bind (EndsWith.ok rfl)
  rintro _ rfl
  apply EndsWith.bind (EndsWith.ok rfl)
  rintro _ rfl
  dsimp only
  rw [hStart]
  apply EndsWith.bind (decodeTf_outcome (by omega))
  rintro ⟨vTcFl, _⟩ rfl
  apply EndsWith.bind (decodeNh_outcome (by dsimp only; omega))
  rintro ⟨nh, _⟩ rfl
  apply EndsWith.bind (decodeHl_outcome (by dsimp only; omega))
  rintro ⟨hl, _⟩ rfl
  apply EndsWith.bind (decodeSrcCtx_outcome hFull (by omega))
  intro ctx hCtx
  apply EndsWith.bind (decodeSrc_outcome hCtx (fun h => (hFull h).srcIid) (by dsimp only; omega))
  rintro ⟨src, _⟩ rfl
  apply EndsWith.bind (decodeDstCtx_outcome hFull (by omega))
  intro ctx' hCtx'
  apply EndsWith.bind (decodeDst_outcome hCtx' (fun h => (hFull h).dstIid) (by dsimp only; omega))
  rintro ⟨dst, _⟩ ⟨rfl, hOver⟩
  refine ⟨rfl, ?_⟩
  rcases hOver with hNone | hRead
  · exact Or.inl hNone
  · dsimp only at hRead
    exact Or.inr (by omega)

end

end Riot
