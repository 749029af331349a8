import Riot.Net.IphcContexts

/-
  Multicast addresses with a unicast prefix.

  The encoder sends the context of the prefix and the bytes 1,
  2 and 12 to 15 of the address. The decoder reads the last four
  bytes two places behind where they were written. It finds the
  context only if its identifier was sent.
-/

open ByteBuffer ByteBits

----
-- The Head of a Header
----

namespace Riot

section

variable {env : IphcSend} {renv : IphcRecv} {hdr : Ipv6Hdr}
variable {data rest out : List UInt8} {base pos room : Nat} {src dst : IphcPart}
variable {iphc1 iphc2 : UInt8}

theorem length_iphcOut :
    (iphcOut env hdr src dst).length = 2 + (iphcFields env hdr).length + src.bytes.length +
        dst.bytes.length := by
  simp only [iphcOut, iphcSrcOut, List.length_cons, List.length_append, List.length_modify]
  omega

theorem srcLen_of_bits
    (hPart : srcPart env hdr = some src) (hBits : iphc2 &&& 0x70 = src.bits) :
    srcLen iphc2 = src.bytes.length := by
  have hSam : iphc2 &&& 0x30 = src.bits &&& 0x30 := by
    rw [← hBits, UInt8.and_assoc]
    rfl
  unfold srcLen
  rw [hBits, hSam]
  rcases srcPart_cases hPart with ⟨_, _, rfl⟩ | ⟨iid, _, _, rfl⟩ | ⟨_, rfl⟩
  · rfl
  · dsimp only
    have hLen : (iidPart hdr.src iid 0x10).2.length = iidLen (iidMode hdr.src iid) := by
      unfold iidPart iidMode
      split
      · rfl
      · split
        · rfl
        · exact List.length_ofFn
    rw [hLen]
    have hMode := iidMode_cases hdr.src iid
    generalize iidMode hdr.src iid = m at hMode
    unfold ctxBits
    split
    · rcases hMode with rfl | rfl | rfl <;> rfl
    · rcases hMode with rfl | rfl | rfl <;> rfl
  · exact (List.length_ofFn (f := hdr.src)).symm

theorem nhLen_of_bits
    (hBits : iphc1 &&& 0x04 = nhBits env hdr) :
    nhLen iphc1 = (nhBytes env hdr).length := by
  unfold nhLen nhBytes
  rw [hBits]
  unfold nhBits
  split <;> rfl

theorem hlLen_of_bits
    (hBits : iphc1 &&& 0x03 = hlBits hdr) :
    hlLen iphc1 = (hlBytes hdr).length := by
  unfold hlLen
  rw [hBits]
  unfold hlBits hlBytes
  by_cases h₁ : hdr.hl = 1
  · simp [h₁]
  · by_cases h₂ : hdr.hl = 64
    · simp [h₂]
    · by_cases h₃ : hdr.hl = 255
      · simp [h₃]
      · simp [h₁, h₂, h₃]

theorem cidLen_of_bits
    (hBits : iphc2 &&& 0x80 = cidBits env hdr) :
    cidLen iphc2 = if cidExt env hdr then 1 else 0 := by
  rw [cidLen, hBits, cidBits]
  cases cidExt env hdr <;> rfl

/- Whatever the bytes of the source, an address is read. -/
theorem exists_decodeSrc
    {ctx : Option SixlowpanCtx} (hAgree : Agree env renv)
    (hPart : srcPart env hdr = some src) (hBits : iphc2 &&& 0x70 = src.bits)
    (hCtx : iphc2 &&& 0x40 ≠ 0 → iphc2 &&& 0x30 ≠ 0 → ctx.isSome = true)
    (hFits : base + pos + src.bytes.length ≤ data.length) :
    ∃ a, decodeSrc renv data base iphc2 ctx pos = .ok (a, pos + src.bytes.length) := by
  have hLen := srcLen_of_bits hPart hBits
  have hRead : EndsWith (readErr data.length data.length True)
        (fun r => r.2 = pos + src.bytes.length)
        (decodeSrc renv data base iphc2 ctx pos) := by
    rcases srcPart_cases hPart with ⟨_, _, rfl⟩ | ⟨iid, hIid, _, _⟩ | ⟨_, rfl⟩
    · rw [decodeSrc_mask, hBits]
      exact rfl
    · have hSome : True → renv.srcIid.isSome = true := by
        intro _
        rw [hAgree.srcIid, hIid]
        rfl
      rw [← hLen] at hFits ⊢
      exact decodeSrc_outcome hCtx hSome hFits
    · have hFull : decodeSrc renv data base 0x00 ctx pos = decodeFull data base pos := rfl
      dsimp only at hFits ⊢
      rw [List.length_ofFn] at hFits ⊢
      rw [decodeSrc_mask, hBits, hFull]
      exact decodeFull_outcome hFits
  exact exists_read hRead

/- The identifiers as the receiver sees them. -/
theorem decodeCid_iphcOut
    (hSrc : srcPart env hdr = some src) (hDst : dstPart env hdr = some dst)
    (hDrop : data.drop base = iphcOut env hdr src dst ++ rest) :
    ∃ cid, decodeCid data base (iphcDisp2 env hdr src dst) = .ok cid ∧
      cid >>> 4 = ctxCid (iphcSrcCtx env hdr) ∧
      cid &&& 0x0f = if cidExt env hdr then dst.cid else 0 := by
  have hTail := drop_succ_of_drop (drop_succ_of_drop hDrop)
  unfold decodeCid
  rw [iphcDisp2, (iphc2_of_parts hSrc hDst).1]
  unfold iphcSrcOut iphcFields at hTail
  unfold cidBits
  cases hExt : cidExt env hdr with
  | true =>
    rw [hExt] at hTail
    simp only [if_true, List.cons_append, List.nil_append, List.modify, List.modifyTailIdx_zero,
      List.modifyHead_cons, UInt8.zero_or] at hTail
    rw [if_pos rfl, if_pos (by decide), iphcByte_of_drop hTail, srcPart_cid hSrc]
    exact ⟨_, rfl, sentCid_halves (dstPart_cid_lt hDst)⟩
  | false =>
    have hZero := hExt
    simp only [cidExt, Bool.or_eq_false_iff] at hZero
    rw [if_neg (by decide), ctxCid_of_not_nonZero hZero.1]
    exact ⟨0, rfl, rfl, rfl⟩

/-
  The decoder reaches the destination address at its place, even
  where the encoder wrote a context over another field.
-/
theorem ucPrefix_head
    (hAgree : Agree env renv) (hSrc : srcPart env hdr = some src)
    (hDst : dstPart env hdr = some dst)
    (hDrop : data.drop base = iphcOut env hdr src dst ++ rest) :
    ∃ v nh hl a p, p + dst.bytes.length = (iphcOut env hdr src dst).length ∧
      data.drop (base + p) = dst.bytes ++ rest ∧ iphcIpv6Decode renv data base = (do
          let ctx ← decodeDstCtx renv data base (iphcDisp2 env hdr src dst)
            ((iphcSrcCtx env hdr).map env.ctxs)
          let (b, pos) ← decodeDst renv data base (iphcDisp2 env hdr src dst) ctx p
          .ok (⟨v, 0, nh, hl, a, b⟩, pos)) := by
  rcases iphcDisp_masks env hdr with ⟨hTfBits, hNhBits, hHlBits⟩
  have hMasks : iphcDisp2 env hdr src dst &&& 0x80 = cidBits env hdr ∧
      iphcDisp2 env hdr src dst &&& 0x70 = src.bits ∧
      iphcDisp2 env hdr src dst &&& 0x0f = dst.bits :=
    iphc2_of_parts hSrc hDst
  rcases decodeCid_iphcOut hSrc hDst hDrop with ⟨cid, hCid, hSci, _⟩
  have hFirst : iphcByte data base = .ok (iphcDisp env hdr) := iphcByte_of_drop hDrop
  have hSecond : iphcByte data (base + 1) = .ok (iphcDisp2 env hdr src dst) :=
    iphcByte_of_drop (drop_succ_of_drop hDrop)
  have hCtx := decodeSrcCtx_eq hAgree.ctxs hSrc hMasks.2.1 hCid hSci
  have hTf := tfLen_of_bits hTfBits
  have hNh := nhLen_of_bits hNhBits
  have hHl := hlLen_of_bits hHlBits
  have hCidLen := cidLen_of_bits hMasks.1
  have hFields : (iphcFields env hdr).length = cidLen (iphcDisp2 env hdr src dst) +
          tfLen (iphcDisp env hdr) + nhLen (iphcDisp env hdr) + hlLen (iphcDisp env hdr) := by
    rw [hTf, hNh, hHl, hCidLen, iphcFields]
    simp only [List.length_append]
    split <;> rfl
  have hLen := congrArg List.length hDrop
  rw [List.length_drop, List.length_append, length_iphcOut] at hLen
  have hIn : base < data.length := by
    by_contra hOut
    rw [List.drop_eq_nil_of_le (by omega)] at hDrop
    cases hDrop
  have hNeeded : EndsWith (readErr data.length data.length False)
        (fun ctx =>
          iphcDisp2 env hdr src dst &&& 0x40 ≠ 0 →
          iphcDisp2 env hdr src dst &&& 0x30 ≠ 0 → ctx.isSome = true)
        (decodeSrcCtx renv data base (iphcDisp2 env hdr src dst)) :=
    decodeSrcCtx_outcome False.elim (by omega)
  rw [hCtx] at hNeeded
  rcases exists_read (decodeTf_outcome (by omega :
    base + (2 + cidLen (iphcDisp2 env hdr src dst)) +
      tfLen (iphcDisp env hdr) ≤ data.length)) with ⟨v, hTfOk⟩
  rcases exists_read (decodeNh_outcome (by omega :
    base + (2 + cidLen (iphcDisp2 env hdr src dst) + tfLen (iphcDisp env hdr)) +
      nhLen (iphcDisp env hdr) ≤ data.length)) with ⟨nh, hNhOk⟩
  rcases exists_read (decodeHl_outcome (by omega :
    base + (2 + cidLen (iphcDisp2 env hdr src dst) +
      tfLen (iphcDisp env hdr) + nhLen (iphcDisp env hdr)) +
      hlLen (iphcDisp env hdr) ≤ data.length)) with ⟨hl, hHlOk⟩
  rcases exists_decodeSrc hAgree hSrc hMasks.2.1 hNeeded
    (by omega : base + (2 + cidLen (iphcDisp2 env hdr src dst) +
        tfLen (iphcDisp env hdr) + nhLen (iphcDisp env hdr) +
        hlLen (iphcDisp env hdr)) + src.bytes.length ≤ data.length) with ⟨a, hSrcOk⟩
  refine ⟨v, nh, hl, a, _, ?_, ?_, iphcIpv6Decode_head hFirst hSecond hTfOk hNhOk hHlOk hCtx hSrcOk⟩
  · rw [length_iphcOut]
    omega
  · have hBefore : data.drop base = (iphcDisp env hdr :: iphcDisp2 env hdr src dst ::
            (iphcSrcOut env hdr src).modify 0 (· ||| dst.cid)) ++ (dst.bytes ++ rest) := by
      rw [hDrop, ← List.append_assoc]
      rfl
    have hPos := drop_of_drop hBefore
    simp only [List.length_cons, List.length_modify, iphcSrcOut,
      List.length_append, hFields] at hPos
    rw [← hPos]
    congr 1
    omega

end

----
-- The Destination Address
----

section

variable {env : IphcSend} {renv : IphcRecv} {hdr : Ipv6Hdr}
variable {data rest out : List UInt8} {base pos room : Nat} {src : IphcPart} {id : Fin 16}

/- The context that the receiver finds. -/
def ucSeenCtx
    (env : IphcSend) (hdr : Ipv6Hdr) (id : Fin 16) : Fin 16 :=
  if cidExt env hdr then id else 0

/- The four bytes that are read for the end of the address. -/
def ucTail
    (hdr : Ipv6Hdr) (rest : List UInt8) : List UInt8 :=
  [hdr.dst 14, hdr.dst 15] ++ rest.take 2

/- The address that is read with a context. -/
def ucAddr
    (ctx : SixlowpanCtx) (hdr : Ipv6Hdr) (rest : List UInt8) : Ipv6Addr :=
  let len := if ctx.prefixLen > 64 then 64 else ctx.prefixLen
  fun i =>
    if i = 0 then 0xff
    else if i = 1 then hdr.dst 1
    else if i = 2 then hdr.dst 2
    else if i = 3 then UInt8.ofNat len
    else if h : i.val < 12 then
      initPrefixByte len (i.val - 4) 0 (ctx.pfx ⟨i.val - 4, prefixIndex_lt h⟩)
    else (ucTail hdr rest).getD (i.val - 12) 0

/- Two bytes behind the header are read, too. -/
theorem decodeUcPrefix_eq
    {ctx : SixlowpanCtx}
    (hDrop : data.drop (base + pos) =
        [hdr.dst 1, hdr.dst 2, hdr.dst 12, hdr.dst 13, hdr.dst 14, hdr.dst 15] ++ rest) :
    decodeUcPrefix data base (some ctx) pos = if 2 ≤ rest.length then
        .ok (ucAddr ctx hdr rest, pos + 6)
      else .error .outside := by
  have hSecond := drop_succ_of_drop hDrop
  have hLast : data.drop (base + pos + 2 + 2) = [hdr.dst 14, hdr.dst 15] ++ rest :=
    drop_succ_of_drop (drop_succ_of_drop (drop_succ_of_drop hSecond))
  unfold decodeUcPrefix
  dsimp only
  rw [iphcByte_of_drop hDrop, ok_bind, iphcByte_of_drop hSecond, ok_bind]
  have hLen := congrArg List.length hLast
  simp only [List.length_drop, List.length_append, List.length_cons, List.length_nil] at hLen
  by_cases hTwo : 2 ≤ rest.length
  · rw [if_pos hTwo]
    have hRead : iphcBytes data (base + pos + 2 + 2) 4 = .ok (ucTail hdr rest) := by
      have hSplit : data.drop (base + pos + 2 + 2) = ucTail hdr rest ++ rest.drop 2 := by
        rw [hLast, ucTail, List.append_assoc, List.take_append_drop]
      apply iphcBytes_of_drop hSplit
      · simp [ucTail, hTwo]
      · decide
    rw [hRead, ok_bind]
    rfl
  · rw [if_neg hTwo]
    have hRead : iphcBytes data (base + pos + 2 + 2) 4 = .error .outside := by
      unfold iphcBytes readBytes
      rw [if_neg (by omega)]
    rw [hRead, error_bind]

/-
  The conditions under which such an address comes back: the
  receiver finds a context with the same prefix of at most 64
  bits, there are no other bits in the prefix of the address,
  and the two bytes behind the header and those two bytes before
  the last two repeat the last two of the address.
-/
structure UcPrefixKept
    (env : IphcSend) (hdr : Ipv6Hdr) (id : Fin 16)
    (rest : List UInt8) : Prop where
  valid : ctxValid (env.ctxs (ucSeenCtx env hdr id)) = true
  len : min (env.ctxs (ucSeenCtx env hdr id)).prefixLen 64 = (hdr.dst 3).toNat
  agree :
    ∀ i : Fin 8,
      ((env.ctxs (ucSeenCtx env hdr id)).pfx (i.castAdd 8) ^^^
        hdr.dst ⟨i.val + 4, by omega⟩) &&&
        prefixMask (hdr.dst 3).toNat i.val = 0
  gap : ∀ i : Fin 8, hdr.dst ⟨i.val + 4, by omega⟩ &&& ~~~prefixMask (hdr.dst 3).toNat i.val = 0
  before : hdr.dst 12 = hdr.dst 14 ∧ hdr.dst 13 = hdr.dst 15
  after : rest.take 2 = [hdr.dst 14, hdr.dst 15]

/- The prefix in the middle of the address. -/
theorem ucPrefixByte_eq_iff
    {bits j : Nat} {p a : UInt8} :
    initPrefixByte bits j 0 p = a ↔
      (p ^^^ a) &&& prefixMask bits j = 0 ∧ a &&& ~~~prefixMask bits j = 0 := by
  rw [initPrefixByte_eq, merge_eq_iff, UInt8.zero_and]
  exact and_congr_right' eq_comm

theorem ucAddr_eq_iff
    {ctx : SixlowpanCtx} (hMulti : hdr.dst.isMulticast = true)
    (hTwo : 2 ≤ rest.length) :
    ucAddr ctx hdr rest = hdr.dst ↔ min ctx.prefixLen 64 = (hdr.dst 3).toNat ∧ (∀ i : Fin 8,
        (ctx.pfx (i.castAdd 8) ^^^ hdr.dst ⟨i.val + 4, by omega⟩) &&&
            prefixMask (hdr.dst 3).toNat i.val = 0 ∧
          hdr.dst ⟨i.val + 4, by omega⟩ &&& ~~~prefixMask (hdr.dst 3).toNat i.val = 0) ∧
      (hdr.dst 12 = hdr.dst 14 ∧ hdr.dst 13 = hdr.dst 15) ∧
      rest.take 2 = [hdr.dst 14, hdr.dst 15] := by
  have hFirst : hdr.dst 0 = 0xff := by
    simpa [Ipv6Addr.isMulticast] using hMulti
  have hLen : (if ctx.prefixLen > 64 then 64 else ctx.prefixLen) = min ctx.prefixLen 64 := by
    split
    · omega
    · omega
  have hNat : (UInt8.ofNat (min ctx.prefixLen 64)).toNat = min ctx.prefixLen 64 := by
    rw [UInt8.toNat_ofNat']
    omega
  rcases rest with _ | ⟨r₀, _ | ⟨r₁, rest⟩⟩
  · simp at hTwo
  · simp at hTwo
  have hMid : ∀ i : Fin 8, ucAddr ctx hdr (r₀ :: r₁ :: rest)
        ⟨i.val + 4, by omega⟩ =
        initPrefixByte (min ctx.prefixLen 64) i.val 0 (ctx.pfx (i.castAdd 8)) := by
    intro i
    unfold ucAddr
    rw [hLen]
    fin_cases i <;> rfl
  constructor
  · intro hEq
    have hThree : UInt8.ofNat (min ctx.prefixLen 64) = hdr.dst 3 := by
      rw [← congrFun hEq 3, ← hLen]
      rfl
    have hBits : min ctx.prefixLen 64 = (hdr.dst 3).toNat := by
      rw [← hThree, hNat]
    have h₁₂ : hdr.dst 14 = hdr.dst 12 := congrFun hEq 12
    have h₁₃ : hdr.dst 15 = hdr.dst 13 := congrFun hEq 13
    have h₁₄ : r₀ = hdr.dst 14 := congrFun hEq 14
    have h₁₅ : r₁ = hdr.dst 15 := congrFun hEq 15
    refine ⟨hBits, ?_, ⟨h₁₂.symm, h₁₃.symm⟩, ?_⟩
    · intro i
      apply ucPrefixByte_eq_iff.mp
      rw [← hBits, ← hMid i, hEq]
    · rw [h₁₄, h₁₅]
      rfl
  · rintro ⟨hBits, hPrefix, ⟨h₁₂, h₁₃⟩, hAfter⟩
    have hThree : UInt8.ofNat (min ctx.prefixLen 64) = hdr.dst 3 := by
      rw [hBits, UInt8.ofNat_toNat]
    have hMidEq : ∀ i : Fin 8, ucAddr ctx hdr (r₀ :: r₁ :: rest)
          ⟨i.val + 4, by omega⟩ = hdr.dst ⟨i.val + 4, by omega⟩ := by
      intro i
      rw [hMid i, hBits]
      exact ucPrefixByte_eq_iff.mpr (hPrefix i)
    simp only [List.take_succ_cons, List.take_zero, List.cons.injEq, and_true] at hAfter
    rcases hAfter with ⟨h₁₄, h₁₅⟩
    funext i
    fin_cases i
    · exact hFirst.symm
    · rfl
    · rfl
    · change UInt8.ofNat (if _ then _ else _) = hdr.dst 3
      rw [hLen, hThree]
    · exact hMidEq 0
    · exact hMidEq 1
    · exact hMidEq 2
    · exact hMidEq 3
    · exact hMidEq 4
    · exact hMidEq 5
    · exact hMidEq 6
    · exact hMidEq 7
    · exact h₁₂.symm
    · exact h₁₃.symm
    · exact h₁₄
    · exact h₁₅

/- Only for multicast addresses the form is used. -/
theorem mcastPart_of_form
    {dst : IphcPart} (hDst : dstPart env hdr = some dst) (hForm : dst.bits = 0x0c)
    (hCtx : iphcMcastCtx env hdr = some id) :
    hdr.dst.isMulticast = true ∧ dst = ⟨0x0c, UInt8.ofNat id.val,
        [hdr.dst 1, hdr.dst 2, hdr.dst 12, hdr.dst 13, hdr.dst 14, hdr.dst 15]⟩ := by
  cases hMulti : hdr.dst.isMulticast with
  | false =>
    rcases dstPart_cases hDst hMulti with ⟨iid, _, _, rfl⟩ | ⟨_, rfl⟩
    · dsimp only at hForm
      have hMode := iidMode_cases hdr.dst iid
      generalize iidMode hdr.dst iid = m at hMode hForm
      unfold ctxBits at hForm
      split at hForm
      · rcases hMode with rfl | rfl | rfl <;> cases hForm
      · rcases hMode with rfl | rfl | rfl <;> cases hForm
    · cases hForm
  | true =>
    cases (dstPart_multicast hMulti).symm.trans hDst
    refine ⟨rfl, ?_⟩
    rcases mcastPart_cases env hdr with ⟨hEq, _⟩ | ⟨hEq, _⟩ | ⟨hEq, _⟩ | hEq | ⟨id', hCtx', hEq⟩
    · rw [hEq] at hForm
      cases hForm
    · rw [hEq] at hForm
      cases hForm
    · rw [hEq] at hForm
      cases hForm
    · rw [hEq] at hForm
      cases hForm
    · rw [hCtx] at hCtx'
      cases hCtx'
      exact hEq

/- The context that is looked up for the destination. -/
theorem decodeDstCtx_seen
    {iphc2 cid : UInt8} {ctx : Option SixlowpanCtx} (hCtxs : renv.ctxs = env.ctxs)
    (hBits : iphc2 &&& 0x0f = 0x0c) (hCid : decodeCid data base iphc2 = .ok cid)
    (hDci : cid &&& 0x0f = if cidExt env hdr then UInt8.ofNat id.val else 0) :
    decodeDstCtx renv data base iphc2 ctx = if ctxValid (env.ctxs (ucSeenCtx env hdr id)) then
        .ok (some (env.ctxs (ucSeenCtx env hdr id)))
      else .error .zero := by
  rcases (dstForm_ctx iphc2).2 hBits with ⟨hDac, hDam, _⟩
  have hSeen : cid &&& 0x0f = UInt8.ofNat (ucSeenCtx env hdr id).val := by
    rw [hDci, ucSeenCtx]
    split <;> rfl
  have hNat : (UInt8.ofNat (ucSeenCtx env hdr id).val).toNat = (ucSeenCtx env hdr id).val := by
    rw [UInt8.toNat_ofNat']
    omega
  unfold decodeDstCtx
  rw [if_pos hDac, hCid, ok_bind, if_pos hDam, hSeen, hCtxs]
  simp only [ctxLookupId, hNat, Fin.is_lt, dif_pos, Fin.eta]
  cases ctxValid (env.ctxs (ucSeenCtx env hdr id)) <;> rfl

theorem decodeDst_ucPrefix
    {iphc2 : UInt8} {ctx : Option SixlowpanCtx} (hBits : iphc2 &&& 0x0f = 0x0c) :
    decodeDst renv data base iphc2 ctx pos = decodeUcPrefix data base ctx pos := by
  rw [decodeDst_mask, hBits]
  rfl

/-
  A multicast address with a unicast prefix comes back exactly
  under these conditions.
-/
theorem iphc_ucPrefix_roundTrip_iff
    (hAgree : Agree env renv) (hEncode : iphcIpv6Encode env room hdr = .ok out)
    (hForm : out.getD 1 0 &&& 0x0f = 0x0c) (hCtx : iphcMcastCtx env hdr = some id)
    (pre rest : List UInt8) :
    (∃ hdr', iphcIpv6Decode renv (pre ++ out ++ rest) pre.length = .ok (hdr', out.length) ∧
      hdr'.dst = hdr.dst) ↔ UcPrefixKept env hdr id rest := by
  rcases iphcResult_cases hEncode with ⟨src, dst, hSrc, hDst, rfl⟩
  have hBits : iphcDisp2 env hdr src dst &&& 0x0f = 0x0c := hForm
  have hMasks := (iphc2_of_parts hSrc hDst).2.2
  rcases mcastPart_of_form hDst (hMasks.symm.trans hForm) hCtx with ⟨hMulti, hPart⟩
  have hDrop := drop_frame pre (iphcOut env hdr src dst) rest
  rcases ucPrefix_head hAgree hSrc hDst hDrop with ⟨v, nh, hl, a, p, hLen, hDstDrop, hDecode⟩
  rcases decodeCid_iphcOut hSrc hDst hDrop with ⟨cid, hCid, _, hDci⟩
  have hBytes :
      dst.bytes = [hdr.dst 1, hdr.dst 2, hdr.dst 12, hdr.dst 13, hdr.dst 14, hdr.dst 15] := by
    rw [hPart]
  have hId : dst.cid = UInt8.ofNat id.val := by
    rw [hPart]
  rw [hBytes] at hDstDrop
  rw [hId] at hDci
  have hSix : p + 6 = (iphcOut env hdr src dst).length := by
    rw [← hLen, hBytes]
    rfl
  rw [hDecode, decodeDstCtx_seen hAgree.ctxs hBits hCid hDci]
  cases hValid : ctxValid (env.ctxs (ucSeenCtx env hdr id)) with
  | false =>
    rw [if_neg (by decide), error_bind]
    constructor
    · rintro ⟨hdr', hOk, _⟩
      cases hOk
    · intro hKept
      rw [hKept.valid] at hValid
      cases hValid
  | true =>
    rw [if_pos rfl, ok_bind, decodeDst_ucPrefix hBits, decodeUcPrefix_eq hDstDrop]
    by_cases hTwo : 2 ≤ rest.length
    · rw [if_pos hTwo, ok_bind, hSix]
      have hAddr :
          ucAddr (env.ctxs (ucSeenCtx env hdr id)) hdr rest = hdr.dst ↔ _ :=
        ucAddr_eq_iff hMulti hTwo
      constructor
      · rintro ⟨hdr', hOk, hEq⟩
        cases hOk
        rcases hAddr.mp hEq with ⟨hBitsEq, hPrefix, hBefore, hAfter⟩
        exact
          { valid := hValid
            len := hBitsEq
            agree := fun i => (hPrefix i).1
            gap := fun i => (hPrefix i).2
            before := hBefore
            after := hAfter }
      · intro hKept
        exact ⟨_, rfl, hAddr.mpr ⟨hKept.len,
          fun i => ⟨hKept.agree i, hKept.gap i⟩, hKept.before, hKept.after⟩⟩
    · rw [if_neg hTwo, error_bind]
      constructor
      · rintro ⟨hdr', hOk, _⟩
        cases hOk
      · intro hKept
        have hTake := congrArg List.length hKept.after
        simp only [List.length_take, List.length_cons, List.length_nil] at hTake
        omega

/- To the group g of the prefix 2001:db8::/32. -/
def groupHdr
    (g : Fin 4 → UInt8) : Ipv6Hdr :=
  { vTcFl := ![0x60, 0, 0, 0]
    len := 8
    nh := 58
    hl := 64
    src := ![0xfe, 0x80, 0, 0, 0, 0, 0, 0, 0, 0, 0, 0xff, 0xfe, 0, 0, 0x01]
    dst := ![0xff, 0x3e, 0, 32, 0x20, 0x01, 0x0d, 0xb8, 0, 0, 0, 0, g 0, g 1, g 2, g 3] }

theorem iphc_ucPrefix_roundTrip_iff_groupHdr :
    ∃ hdr',
      iphcIpv6Decode (iphcSampleRecv iphcSampleCtxs)
        ([] ++ [0x7a, 0x3c, 58, 0x3e, 0, 0x80, 0, 0x80, 0] ++ [0x80, 0]) 0 = .ok (hdr', 9) ∧
      hdr'.dst = (groupHdr ![0x80, 0, 0x80, 0]).dst := by
  apply (@iphc_ucPrefix_roundTrip_iff
    (iphcSampleSend iphcSampleCtxs)
    (iphcSampleRecv iphcSampleCtxs)
    (groupHdr ![0x80, 0, 0x80, 0])
    [0x7a, 0x3c, 58, 0x3e, 0, 0x80, 0, 0x80, 0] 41 0
    ⟨rfl, rfl, rfl⟩ (by decide +kernel) (by decide)
    (by decide +kernel) [] [0x80, 0]).mpr
  exact
    { valid := by decide
      len := by decide
      agree := by decide
      gap := by decide
      before := by decide
      after := by decide }

/- The group 1 becomes another, with bytes of the payload. -/
theorem iphc_ucPrefix_roundTrip_group_lost :
    iphcIpv6Encode (iphcSampleSend iphcSampleCtxs) 41
      (groupHdr ![0, 0, 0, 1]) = .ok [0x7a, 0x3c, 58, 0x3e, 0, 0, 0, 0, 1] ∧ ¬ ∃ hdr',
      iphcIpv6Decode (iphcSampleRecv iphcSampleCtxs)
        ([0x7a, 0x3c, 58, 0x3e, 0, 0, 0, 0, 1] ++ [0x80, 0])
        0 = .ok (hdr', 9) ∧ hdr'.dst = (groupHdr ![0, 0, 0, 1]).dst := by
  refine ⟨by decide +kernel, ?_⟩
  rintro ⟨hdr', hDecode, hDst⟩
  have hByte :
      ((iphcIpv6Decode (iphcSampleRecv iphcSampleCtxs)
        ([0x7a, 0x3c, 58, 0x3e, 0, 0, 0, 0, 1] ++ [0x80, 0])
        0).toOption.map fun r => r.1.dst 13) = some 1 := by
    decide +kernel
  rw [hDecode] at hByte
  change some (hdr'.dst 13) = some 1 at hByte
  rw [hDst] at hByte
  exact absurd hByte (by decide)

end

end Riot
