import Riot.Net.IphcDecoding
import Riot.Net.IphcLengths

/-
  The round trip of an IPHC header.

  Sender and receiver share the contexts and derive the same
  identifiers from the link layer. Without contexts the header
  comes back. With a context the bits of an address between the
  prefix and the identifier come back as zeros.
-/

open ByteBuffer ByteBits

----
-- The Layout
----

namespace Riot

/- The receiver knows what the sender knows. -/
structure Agree
    (env : IphcSend)
    (renv : IphcRecv) : Prop where
  ctxs : renv.ctxs = env.ctxs
  srcIid : renv.srcIid = env.ifaceIid
  dstIid : renv.dstIid = env.dstIid

section

variable {env : IphcSend} {renv : IphcRecv} {hdr : Ipv6Hdr}
variable {data rest : List UInt8} {base room : Nat} {src dst : IphcPart}

/- The byte for context identifiers as it is sent. -/
def cidBytes
    (env : IphcSend) (hdr : Ipv6Hdr) (src dst : IphcPart) : List UInt8 :=
  if cidExt env hdr then [src.cid ||| dst.cid] else []

theorem length_cidBytes :
    (cidBytes env hdr src dst).length = if cidExt env hdr then 1 else 0 := by
  unfold cidBytes
  split <;> rfl

theorem srcPart_cid_eq_zero
    (hPart : srcPart env hdr = some src) (hExt : cidExt env hdr = false) :
    src.cid = 0 := by
  simp only [cidExt, Bool.or_eq_false_iff] at hExt
  rw [srcPart_cid hPart, ctxCid_of_not_nonZero hExt.1]
  rfl

/-
  The bytes in their order, when no context is written that has
  no byte of its own.
-/
theorem iphcOut_eq
    (hSrc : srcPart env hdr = some src)
    (hCid : cidExt env hdr = false → dst.cid = 0) :
    iphcOut env hdr src dst = iphcDisp env hdr :: (cidBits env hdr ||| src.bits ||| dst.bits) ::
        (cidBytes env hdr src dst ++
          (tfBytes hdr ++ (nhBytes env hdr ++ (hlBytes hdr ++ (src.bytes ++ dst.bytes))))) := by
  unfold iphcOut iphcSrcOut iphcFields cidBytes
  cases hExt : cidExt env hdr with
  | true => simp [List.modify]
  | false =>
    rw [hCid hExt, srcPart_cid_eq_zero hSrc hExt]
    simp only [modify_or_zero, Bool.false_eq_true, if_false, List.nil_append, List.append_assoc]

/- The encoder succeeds with the bytes of both addresses. -/
theorem iphcResult_cases
    {out : List UInt8} (hEncode : iphcIpv6Encode env room hdr = .ok out) :
    ∃ src dst, srcPart env hdr = some src ∧ dstPart env hdr = some dst ∧
      out = iphcOut env hdr src dst := by
  rw [iphcIpv6Encode_eq] at hEncode
  split at hEncode
  · unfold iphcResult at hEncode
    cases hSrc : srcPart env hdr with
    | none => simp [hSrc] at hEncode
    | some src =>
      cases hDst : dstPart env hdr with
      | none => simp [hSrc, hDst] at hEncode
      | some dst =>
        simp only [hSrc, hDst, Option.bind_eq_bind, Option.bind_some, Except.ok.injEq] at hEncode
        exact ⟨src, dst, rfl, rfl, hEncode.symm⟩
  · cases hEncode

/- A unicast destination needs no byte of its own. -/
theorem dstPart_cid_eq_zero
    (hDst : dstPart env hdr = some dst) (hUnicast : hdr.dst.isMulticast = false)
    (hExt : cidExt env hdr = false) :
    dst.cid = 0 := by
  simp only [cidExt, Bool.or_eq_false_iff] at hExt
  rw [dstPart_cid hDst hUnicast]
  unfold usedDstCtx
  split
  · exact ctxCid_of_not_nonZero hExt.2
  · rfl

end

----
-- The Head of a Header
----

/- A frame with a header that was sent. -/
structure SentAt
    (env : IphcSend) (hdr : Ipv6Hdr) (src dst : IphcPart) (data : List UInt8) (base : Nat)
    (rest : List UInt8) : Prop where
  hSrc : srcPart env hdr = some src
  hDst : dstPart env hdr = some dst
  hCid : cidExt env hdr = false → dst.cid = 0
  hDrop : data.drop base = iphcOut env hdr src dst ++ rest

section

variable {env : IphcSend} {renv : IphcRecv} {hdr : Ipv6Hdr}
variable {data rest : List UInt8} {base pos : Nat} {src dst : IphcPart}
variable {iphc1 iphc2 : UInt8}

/- The decoder up to the context of the destination. -/
theorem iphcIpv6Decode_head
    {v : VTcFl} {nh hl : UInt8} {a : Ipv6Addr} {ctx : Option SixlowpanCtx} {p₁ p₂ p₃ p₄ : Nat}
    (hFirst : iphcByte data base = .ok iphc1)
    (hSecond : iphcByte data (base + 1) = .ok iphc2)
    (hTf : decodeTf data base iphc1 (2 + cidLen iphc2) = .ok (v, p₁))
    (hNh : decodeNh data base iphc1 p₁ = .ok (nh, p₂))
    (hHl : decodeHl data base iphc1 p₂ = .ok (hl, p₃))
    (hCtx : decodeSrcCtx renv data base iphc2 = .ok ctx)
    (hSrc : decodeSrc renv data base iphc2 ctx p₃ = .ok (a, p₄)) :
    iphcIpv6Decode renv data base = (do
        let ctx ← decodeDstCtx renv data base iphc2 ctx
        let (dst, pos) ← decodeDst renv data base iphc2 ctx p₄
        .ok (⟨v, 0, nh, hl, a, dst⟩, pos)) := by
  have hStart : (if iphc2 &&& 0x80 ≠ 0 then 3 else 2) = 2 + cidLen iphc2 := by
    unfold cidLen
    split <;> rfl
  unfold iphcIpv6Decode
  simp only [hFirst, hSecond, ok_bind, hStart, hTf, hNh, hHl, hCtx, hSrc]

theorem tfLen_of_bits
    (hBits : iphc1 &&& 0x18 = tfBits hdr) :
    tfLen iphc1 = (tfBytes hdr).length := by
  unfold tfLen
  rw [hBits]
  unfold tfBits tfBytes
  dsimp only
  split
  · split <;> rfl
  · split <;> rfl

/- The first fields come back, if the version is 6. -/
theorem decodeTf_sent
    (hBits : iphc1 &&& 0x18 = tfBits hdr)
    (hDrop : data.drop (base + pos) = tfBytes hdr ++ rest)
    (hIn : base + pos ≤ data.length) :
    ∃ v, decodeTf data base iphc1 pos = .ok (v, pos + (tfBytes hdr).length) ∧
      (hdr.getVersion = 6 → v = hdr.vTcFl) := by
  by_cases hVersion : hdr.getVersion = 6
  · exact ⟨hdr.vTcFl, decodeTf_tfBytes hVersion hBits hDrop, fun _ => rfl⟩
  · have hLen := length_of_drop hDrop hIn
    rw [List.length_append] at hLen
    have hFits : base + pos + tfLen iphc1 ≤ data.length := by
      rw [tfLen_of_bits hBits]
      omega
    rcases exists_read (decodeTf_outcome hFits) with ⟨v, hOk⟩
    refine ⟨v, ?_, fun h => absurd h hVersion⟩
    rw [hOk, tfLen_of_bits hBits]

/- The bits of the second byte. -/
def iphcDisp2
    (env : IphcSend) (hdr : Ipv6Hdr) (src dst : IphcPart) : UInt8 :=
  cidBits env hdr ||| src.bits ||| dst.bits

/- An identifier of a context takes half a byte. -/
theorem dstPart_cid_lt
    (hPart : dstPart env hdr = some dst) :
    dst.cid.toNat < 16 := by
  have hFin : ∀ id : Fin 16, (UInt8.ofNat id.val).toNat < 16 := by
    intro id
    rw [UInt8.toNat_ofNat']
    omega
  cases hMulti : hdr.dst.isMulticast with
  | true =>
    cases (dstPart_multicast hMulti).symm.trans hPart
    rcases mcastPart_cases env hdr with ⟨hEq, _⟩ | ⟨hEq, _⟩ | ⟨hEq, _⟩ | hEq | ⟨id, _, hEq⟩
    · rw [hEq]
      exact hFin 0
    · rw [hEq]
      exact hFin 0
    · rw [hEq]
      exact hFin 0
    · rw [hEq]
      exact hFin 0
    · rw [hEq]
      exact hFin id
  | false =>
    rw [dstPart_cid hPart hMulti]
    cases usedDstCtx env hdr with
    | none => exact hFin 0
    | some id => exact hFin id

/- Only with a unicast prefix the form has a context. -/
theorem mcastPart_dac
    (hForm : (mcastPart env hdr).bits ≠ 0x0c) :
    (mcastPart env hdr).bits &&& 0x04 = 0 := by
  have hForms : (mcastPart env hdr).bits ∈ [0x08, 0x09, 0x0a, 0x0b] := by
    rcases mcastPart_cases env hdr with ⟨hEq, _⟩ | ⟨hEq, _⟩ | ⟨hEq, _⟩ | hEq | ⟨id, _, hEq⟩
    · simp [hEq]
    · simp [hEq]
    · simp [hEq]
    · simp [hEq]
    · rw [hEq] at hForm
      exact absurd rfl hForm
  have hBits : ∀ b ∈ [0x08, 0x09, 0x0a, (0x0b : UInt8)], b &&& 0x04 = 0 := by
    simp only [List.forall_mem_cons, List.not_mem_nil, false_implies, implies_true, and_true]
    exact ⟨rfl, rfl, rfl, rfl⟩
  exact hBits _ hForms

namespace SentAt

variable (hSent : SentAt env hdr src dst data base rest)

include hSent

theorem drop_layout :
    data.drop base = iphcDisp env hdr :: iphcDisp2 env hdr src dst ::
        (cidBytes env hdr src dst ++ (tfBytes hdr ++ (nhBytes env hdr ++ (hlBytes hdr ++
            (src.bytes ++ (dst.bytes ++ rest)))))) := by
  rw [hSent.hDrop, iphcOut_eq hSent.hSrc hSent.hCid]
  simp only [iphcDisp2, List.cons_append, List.append_assoc]

theorem first_byte :
    iphcByte data base = .ok (iphcDisp env hdr) :=
  iphcByte_of_drop hSent.drop_layout

theorem second_byte :
    iphcByte data (base + 1) = .ok (iphcDisp2 env hdr src dst) :=
  iphcByte_of_drop (drop_succ_of_drop hSent.drop_layout)

theorem masks :
    iphcDisp2 env hdr src dst &&& 0x80 = cidBits env hdr ∧
      iphcDisp2 env hdr src dst &&& 0x70 = src.bits ∧
      iphcDisp2 env hdr src dst &&& 0x0f = dst.bits :=
  iphc2_of_parts hSent.hSrc hSent.hDst

theorem cidLen_eq :
    cidLen (iphcDisp2 env hdr src dst) = (cidBytes env hdr src dst).length := by
  rw [length_cidBytes, cidLen, hSent.masks.1, cidBits]
  cases cidExt env hdr <;> rfl

theorem drop_cid :
    data.drop (base + 2) = cidBytes env hdr src dst ++
        (tfBytes hdr ++ (nhBytes env hdr ++ (hlBytes hdr ++ (src.bytes ++ (dst.bytes ++ rest))))) :=
  drop_succ_of_drop (drop_succ_of_drop hSent.drop_layout)

/- Both contexts are read as they were written. -/
theorem decodeCid_eq :
    ∃ cid, decodeCid data base (iphcDisp2 env hdr src dst) = .ok cid ∧
      cid >>> 4 = ctxCid (iphcSrcCtx env hdr) ∧ cid &&& 0x0f = dst.cid := by
  have hDrop := hSent.drop_cid
  unfold decodeCid
  rw [hSent.masks.1]
  unfold cidBits
  unfold cidBytes at hDrop
  cases hExt : cidExt env hdr with
  | true =>
    rw [hExt, if_pos rfl] at hDrop
    rw [if_pos rfl, if_pos (by decide), iphcByte_of_drop hDrop, srcPart_cid hSent.hSrc]
    exact ⟨_, rfl, sentCid_halves (dstPart_cid_lt hSent.hDst)⟩
  | false =>
    have hZero := hExt
    simp only [cidExt, Bool.or_eq_false_iff] at hZero
    rw [if_neg (by decide), ctxCid_of_not_nonZero hZero.1, hSent.hCid hExt]
    exact ⟨0, rfl, rfl, rfl⟩

/- The header up to its destination address. -/
theorem head
    (hAgree : Agree env renv) (hUnicast : hdr.src.isMulticast = false) :
    ∃ v p, (hdr.getVersion = 6 → v = hdr.vTcFl) ∧
      p + dst.bytes.length = (iphcOut env hdr src dst).length ∧
      data.drop (base + p) = dst.bytes ++ rest ∧ iphcIpv6Decode renv data base = (do
          let ctx ← decodeDstCtx renv data base (iphcDisp2 env hdr src dst)
            ((iphcSrcCtx env hdr).map env.ctxs)
          let (a, pos) ← decodeDst renv data base (iphcDisp2 env hdr src dst) ctx p
          .ok (⟨v, 0, if compressibleNh env.nhc hdr.nh then 0 else hdr.nh, hdr.hl,
            decodedAddr ((iphcSrcCtx env hdr).map env.ctxs) hdr.src, a⟩, pos)) := by
  rcases iphcDisp_masks env hdr with ⟨hTfBits, hNhBits, hHlBits⟩
  rcases hSent.decodeCid_eq with ⟨cid, hCid, hSci, _⟩
  have hTfDrop := drop_of_drop hSent.drop_cid
  rw [← hSent.cidLen_eq, Nat.add_assoc] at hTfDrop
  have hIn : base + (2 + cidLen (iphcDisp2 env hdr src dst)) ≤ data.length := by
    have hLen := congrArg List.length hSent.drop_layout
    simp only [List.length_drop, List.length_cons, List.length_append] at hLen
    rw [hSent.cidLen_eq]
    omega
  rcases decodeTf_sent hTfBits hTfDrop hIn with ⟨v, hTf, hVer⟩
  have hNhDrop := drop_of_drop hTfDrop
  rw [Nat.add_assoc] at hNhDrop
  have hNh := decodeNh_nhBytes hNhBits hNhDrop
  have hHlDrop := drop_of_drop hNhDrop
  rw [Nat.add_assoc] at hHlDrop
  have hHl := decodeHl_hlBytes hHlBits hHlDrop
  have hSrcDrop := drop_of_drop hHlDrop
  rw [Nat.add_assoc] at hSrcDrop
  have hCtx := decodeSrcCtx_eq hAgree.ctxs hSent.hSrc hSent.masks.2.1 hCid hSci
  have hSrc := decodeSrc_srcPart hSent.hSrc hSent.masks.2.1 hAgree.srcIid hUnicast hSrcDrop
  have hDstDrop := drop_of_drop hSrcDrop
  rw [Nat.add_assoc] at hDstDrop
  refine ⟨v, _, hVer, ?_, hDstDrop, ?_⟩
  · rw [iphcOut_eq hSent.hSrc hSent.hCid, hSent.cidLen_eq]
    simp only [List.length_cons, List.length_append]
    omega
  · exact iphcIpv6Decode_head hSent.first_byte hSent.second_byte hTf hNh hHl hCtx hSrc

/- A header with unicast addresses. -/
theorem decode_unicast
    (hAgree : Agree env renv) (hSrc : hdr.src.isMulticast = false)
    (hDst : hdr.dst.isMulticast = false) :
    ∃ v, (hdr.getVersion = 6 → v = hdr.vTcFl) ∧ iphcIpv6Decode renv data base = .ok (⟨v, 0,
          if compressibleNh env.nhc hdr.nh then 0 else hdr.nh, hdr.hl,
          decodedAddr ((iphcSrcCtx env hdr).map env.ctxs) hdr.src,
          decodedAddr ((usedDstCtx env hdr).map env.ctxs) hdr.dst⟩,
          (iphcOut env hdr src dst).length) := by
  rcases hSent.head hAgree hSrc with ⟨v, p, hVer, hLen, hDrop, hDecode⟩
  rcases hSent.decodeCid_eq with ⟨cid, hCid, _, hDci⟩
  rw [dstPart_cid hSent.hDst hDst] at hDci
  rcases decodeDstCtx_unicast hAgree.ctxs hSent.hDst hDst
    hSent.masks.2.2 hCid hDci with ⟨ctx, hCtx, hUsed⟩
  refine ⟨v, hVer, ?_⟩
  rw [hDecode, hCtx, ok_bind,
    decodeDst_unicast hSent.hDst hSent.masks.2.2 hAgree.dstIid hDst hUsed hDrop, ok_bind, hLen]

/- A header with a multicast address that needs no context. -/
theorem decode_multicast
    (hAgree : Agree env renv) (hSrc : hdr.src.isMulticast = false)
    (hDst : hdr.dst.isMulticast = true) (hForm : dst.bits ≠ 0x0c) :
    ∃ v, (hdr.getVersion = 6 → v = hdr.vTcFl) ∧ iphcIpv6Decode renv data base = .ok (⟨v, 0,
          if compressibleNh env.nhc hdr.nh then 0 else hdr.nh, hdr.hl,
          decodedAddr ((iphcSrcCtx env hdr).map env.ctxs) hdr.src, hdr.dst⟩,
          (iphcOut env hdr src dst).length) := by
  rcases hSent.head hAgree hSrc with ⟨v, p, hVer, hLen, hDrop, hDecode⟩
  have hPart : dst = mcastPart env hdr := by
    have hSome := hSent.hDst
    rw [dstPart_multicast hDst] at hSome
    exact (Option.some.inj hSome).symm
  have hBits := hSent.masks.2.2
  have hDac : iphcDisp2 env hdr src dst &&& 0x04 = 0 := by
    have hAnd : iphcDisp2 env hdr src dst &&& 0x04 = dst.bits &&& 0x04 := by
      rw [← hBits, UInt8.and_assoc]
      rfl
    rw [hPart] at hForm
    rw [hAnd, hPart]
    exact mcastPart_dac hForm
  refine ⟨v, hVer, ?_⟩
  rw [hDecode, decodeDstCtx_none hDac, ok_bind]
  rw [hPart] at hBits hForm hDrop hLen ⊢
  rw [decodeDst_mcast hBits hDst hForm hDrop, ok_bind, hLen]

end SentAt

end

----
-- Without Contexts
----

section

variable {env : IphcSend} {renv : IphcRecv} {hdr : Ipv6Hdr} {out : List UInt8}
variable {room : Nat} {src dst : IphcPart}

theorem length_tfBytes_le :
    (tfBytes hdr).length ≤ 4 := by
  unfold tfBytes
  dsimp only
  split
  · split <;> simp
  · split <;> simp

theorem length_iidPart_le
    {addr : Ipv6Addr} {iid : Eui64} {sam64 : UInt8} :
    (iidPart addr iid sam64).2.length ≤ 8 := by
  unfold iidPart
  split
  · simp
  · split <;> simp

theorem length_srcPart_le
    (hPart : srcPart env hdr = some src) :
    src.bytes.length ≤ 16 := by
  rcases srcPart_cases hPart with ⟨_, _, rfl⟩ | ⟨iid, _, _, rfl⟩ | ⟨_, rfl⟩
  · simp
  · have hLen : (iidPart hdr.src iid 0x10).2.length ≤ 8 := length_iidPart_le
    dsimp only
    omega
  · simp

theorem length_dstPart_le
    (hPart : dstPart env hdr = some dst) :
    dst.bytes.length ≤ 16 := by
  cases hMulti : hdr.dst.isMulticast with
  | true =>
    cases (dstPart_multicast hMulti).symm.trans hPart
    rcases mcastPart_cases env hdr with ⟨hEq, _⟩ | ⟨hEq, _⟩ | ⟨hEq, _⟩ | hEq | ⟨id, _, hEq⟩
    all_goals
      rw [hEq]
      simp
  | false =>
    rcases dstPart_cases hPart hMulti with ⟨iid, _, _, rfl⟩ | ⟨_, rfl⟩
    · have hLen : (iidPart hdr.dst iid 0x01).2.length ≤ 8 := length_iidPart_le
      dsimp only
      omega
    · simp

/- A header is as long as that of IPv6, but for the contexts. -/
theorem iphcLen_le :
    iphcLen env hdr ≤ 40 + (if cidExt env hdr then 1 else 0) := by
  have hTf : (tfBytes hdr).length ≤ 4 := length_tfBytes_le
  have hNh : (nhBytes env hdr).length ≤ 1 := by
    unfold nhBytes
    split <;> simp
  have hHl : (hlBytes hdr).length ≤ 1 := by
    unfold hlBytes
    split <;> simp
  have hFields : (iphcFields env hdr).length ≤ 6 + (if cidExt env hdr then 1 else 0) := by
    unfold iphcFields
    simp only [List.length_append]
    split
    · simp only [List.length_cons, List.length_nil]
      omega
    · simp only [List.length_nil]
      omega
  unfold iphcLen
  cases hSrc : srcPart env hdr with
  | none =>
    dsimp only
    omega
  | some src =>
    have hSrcLen := length_srcPart_le hSrc
    cases hDst : dstPart env hdr with
    | none =>
      dsimp only
      omega
    | some dst =>
      have hDstLen := length_dstPart_le hDst
      dsimp only
      omega

variable (hdr) in
theorem exists_srcPart
    (hIid : env.ifaceIid.isSome = true) :
    ∃ src, srcPart env hdr = some src := by
  rcases Option.isSome_iff_exists.mp hIid with ⟨iid, hIid⟩
  unfold srcPart
  split
  · exact ⟨_, rfl⟩
  · dsimp only
    split
    · rw [hIid]
      exact ⟨_, rfl⟩
    · exact ⟨_, rfl⟩

variable (hdr) in
theorem exists_dstPart
    (hIid : env.dstIid.isSome = true) :
    ∃ dst, dstPart env hdr = some dst := by
  rcases Option.isSome_iff_exists.mp hIid with ⟨iid, hIid⟩
  unfold dstPart
  split
  · exact ⟨_, rfl⟩
  · dsimp only
    split
    · rw [hIid]
      exact ⟨_, rfl⟩
    · exact ⟨_, rfl⟩

/- With its identifiers and enough room the encoder succeeds. -/
theorem exists_iphcIpv6Encode
    (hSrc : env.ifaceIid.isSome = true) (hDst : env.dstIid.isSome = true)
    (hRoom : iphcLen env hdr ≤ room) :
    ∃ out, iphcIpv6Encode env room hdr = .ok out := by
  rcases exists_srcPart hdr hSrc with ⟨src, hSrcPart⟩
  rcases exists_dstPart hdr hDst with ⟨dst, hDstPart⟩
  refine ⟨iphcOut env hdr src dst, ?_⟩
  rw [iphcIpv6Encode_eq, if_pos hRoom, iphcResult, hSrcPart, hDstPart]
  rfl

/- No context is found in an empty table. -/
theorem ctxForComp_empty
    {ctxs : CtxTable} (hEmpty : ∀ id, ctxValid (ctxs id) = false)
    (addr : Ipv6Addr) :
    ctxForComp ctxs addr = none := by
  cases hCtx : ctxForComp ctxs addr with
  | none => rfl
  | some id =>
    have hValid := (ctxForComp_spec hCtx).1
    rw [hEmpty id] at hValid
    cases hValid

theorem iphcSrcCtx_empty
    (hEmpty : ∀ id, ctxValid (env.ctxs id) = false) :
    iphcSrcCtx env hdr = none := by
  unfold iphcSrcCtx
  split
  · rfl
  · exact ctxForComp_empty hEmpty _

theorem iphcDstCtx_empty
    (hEmpty : ∀ id, ctxValid (env.ctxs id) = false) :
    iphcDstCtx env hdr = none := by
  unfold iphcDstCtx
  split
  · rfl
  · exact ctxForComp_empty hEmpty _

variable (hdr) in
theorem mcastPart_empty
    (hEmpty : ∀ id, ctxValid (env.ctxs id) = false) :
    (mcastPart env hdr).bits ≠ 0x0c ∧ (mcastPart env hdr).cid = 0 := by
  rcases mcastPart_cases env hdr with ⟨hEq, _⟩ | ⟨hEq, _⟩ | ⟨hEq, _⟩ | hEq | ⟨id, hCtx, _⟩
  · simp [hEq]
  · simp [hEq]
  · simp [hEq]
  · simp [hEq]
  · rw [iphcMcastCtx, ctxForComp_empty hEmpty] at hCtx
    cases hCtx

/- Where the bytes that were written begin in a frame. -/
theorem drop_frame
    (pre out rest : List UInt8) :
    (pre ++ out ++ rest).drop pre.length = out ++ rest := by
  rw [List.append_assoc, List.drop_left]

/-
  Without contexts a header comes back as it was sent, and as
  many bytes are read as were written.
-/
theorem iphc_stateless_roundTrip
    (hAgree : Agree env renv) (hEmpty : ∀ id, ctxValid (env.ctxs id) = false)
    (hSrc : hdr.src.isMulticast = false)
    (hNh : compressibleNh env.nhc hdr.nh = false) (hVersion : hdr.getVersion = 6) :
    (env.ifaceIid.isSome = true → env.dstIid.isSome = true → 40 ≤ room →
      ∃ out, iphcIpv6Encode env room hdr = .ok out) ∧
    ∀ out, iphcIpv6Encode env room hdr = .ok out → ∀ pre rest,
        iphcIpv6Decode renv (pre ++ out ++ rest) pre.length =
          .ok ({ hdr with len := 0 }, out.length) := by
  have hSrcCtx : iphcSrcCtx env hdr = none := iphcSrcCtx_empty hEmpty
  have hDstCtx : iphcDstCtx env hdr = none := iphcDstCtx_empty hEmpty
  have hUsed : usedDstCtx env hdr = none := by
    rw [usedDstCtx, hDstCtx]
    exact ite_self none
  have hExt : cidExt env hdr = false := by
    rw [cidExt, hSrcCtx, hDstCtx]
    rfl
  refine ⟨?_, ?_⟩
  · intro hSrcIid hDstIid hRoom
    have hLen : iphcLen env hdr ≤ _ := iphcLen_le
    rw [hExt, if_neg (by decide)] at hLen
    exact exists_iphcIpv6Encode hSrcIid hDstIid (by omega)
  · intro out hEncode pre rest
    rcases iphcResult_cases hEncode with ⟨src, dst, hSrcPart, hDstPart, rfl⟩
    have hDrop := drop_frame pre (iphcOut env hdr src dst) rest
    cases hMulti : hdr.dst.isMulticast with
    | false =>
      have hSent : SentAt env hdr src dst _ pre.length rest :=
        { hSrc := hSrcPart
          hDst := hDstPart
          hCid := dstPart_cid_eq_zero hDstPart hMulti
          hDrop := hDrop }
      rcases hSent.decode_unicast hAgree hSrc hMulti with ⟨v, hVer, hDecode⟩
      rw [hDecode, hVer hVersion, hNh, hSrcCtx, hUsed]
      rfl
    | true =>
      have hPart := (dstPart_multicast hMulti).symm.trans hDstPart
      cases hPart
      have hForm := mcastPart_empty hdr hEmpty
      have hSent : SentAt env hdr src _ _ pre.length rest :=
        { hSrc := hSrcPart
          hDst := hDstPart
          hCid := fun _ => hForm.2
          hDrop := hDrop }
      rcases hSent.decode_multicast hAgree hSrc hMulti hForm.1 with ⟨v, hVer, hDecode⟩
      rw [hDecode, hVer hVersion, hNh, hSrcCtx]
      rfl

def emptyCtxs : CtxTable :=
  fun _ => ⟨fun _ => 0, 0, false⟩

/- A node that derives identifiers from short addresses. -/
def iphcSampleSend
    (ctxs : CtxTable) : IphcSend :=
  { ctxs := ctxs
    nhc := true
    ifaceIid := some (Eui64.ofShort [0x00, 0x01])
    dstIid := some (Eui64.ofShort [0x00, 0x02])
    dstL2addrLen := 2
    garbage := fun _ => 0 }

def iphcSampleRecv
    (ctxs : CtxTable) : IphcRecv :=
  { ctxs := ctxs
    srcIid := some (Eui64.ofShort [0x00, 0x01])
    dstIid := some (Eui64.ofShort [0x00, 0x02]) }

/- From a link-local address to all nodes of the link. -/
def iphcSampleHdr : Ipv6Hdr :=
  { vTcFl := ![0x60, 0x12, 0x34, 0x56]
    len := 8
    nh := 58
    hl := 255
    src := ![0xfe, 0x80, 0, 0, 0, 0, 0, 0, 0, 0, 0, 0xff, 0xfe, 0, 0, 0x01]
    dst := ![0xff, 0x02, 0, 0, 0, 0, 0, 0, 0, 0, 0, 0, 0, 0, 0, 0x01] }

theorem iphc_stateless_roundTrip_sampleHdr :
    ∃ out, iphcIpv6Encode (iphcSampleSend emptyCtxs) 41 iphcSampleHdr = .ok out ∧
      iphcIpv6Decode (iphcSampleRecv emptyCtxs) (out ++ [0x80, 0x00])
        0 = .ok ({ iphcSampleHdr with len := 0 }, out.length) := by
  have hAgree : Agree (iphcSampleSend emptyCtxs) (iphcSampleRecv emptyCtxs) := ⟨rfl, rfl, rfl⟩
  rcases @iphc_stateless_roundTrip (iphcSampleSend emptyCtxs)
    (iphcSampleRecv emptyCtxs) iphcSampleHdr 41 hAgree (fun _ => rfl)
    (by decide) (by decide) (by decide) with ⟨hOk, hTrip⟩
  rcases hOk rfl rfl (by decide) with ⟨out, hOut⟩
  exact ⟨out, hOut, hTrip out hOut [] [0x80, 0x00]⟩

end

end Riot
