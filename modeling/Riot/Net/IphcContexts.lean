import Riot.Net.IphcRoundTrip

/-
  Addresses that are sent with a context.

  A context stands for the prefix of an address. What is sent
  besides is the identifier, so the bits between the prefix and
  the identifier are lost.
-/

open ByteBuffer ByteBits

----
-- Prefixes
----

namespace Riot

/- The bits of the byte `j` that belong to a prefix. -/
def prefixMask
    (bits j : Nat) : UInt8 :=
  if j < bits / 8 then 0xff
  else if j = bits / 8 ∧ bits % 8 ≠ 0 then
    0xff <<< UInt8.ofNat (8 - (bits - bits / 8 * 8))
  else 0

theorem initPrefixByte_eq
    (bits j : Nat) (out pfx : UInt8) :
    initPrefixByte bits j out pfx =
      (out &&& ~~~prefixMask bits j) ||| (pfx &&& prefixMask bits j) := by
  have hAll : ~~~(0xff : UInt8) = 0 := rfl
  have hNone : ~~~(0 : UInt8) = 0xff := rfl
  unfold initPrefixByte prefixMask
  split
  · rw [hAll, UInt8.and_zero, UInt8.zero_or]
    revert pfx
    exact byte_forall (by decide +kernel)
  · split
    · rfl
    · rw [hNone, UInt8.and_zero, UInt8.or_zero]
      revert out
      exact byte_forall (by decide +kernel)

theorem prefixMask_succ
    {bits j : Nat} (hByte : 8 ≤ bits) :
    prefixMask bits (j + 1) = prefixMask (bits - 8) j := by
  have hDiv : bits / 8 = (bits - 8) / 8 + 1 := by
    omega
  have hMod : bits % 8 = (bits - 8) % 8 := by
    omega
  have hSub : bits - bits / 8 * 8 = bits - 8 - (bits - 8) / 8 * 8 := by
    omega
  unfold prefixMask
  rw [hSub, hDiv, hMod]
  simp only [Nat.add_lt_add_iff_right, Nat.add_right_cancel_iff]

/- A prefix of at most a byte ends in the first byte. -/
theorem prefixMask_of_le
    {bits j : Nat} (hByte : bits ≤ 8) (hPos : 0 < j) :
    prefixMask bits j = 0 := by
  unfold prefixMask
  rw [if_neg (by omega), if_neg (by omega)]

theorem leadingZeros_le
    (n : Nat) (x : UInt8) :
    leadingZeros n x ≤ n := by
  induction n generalizing x with
  | zero => exact Nat.le_refl 0
  | succ n ih =>
    unfold leadingZeros
    split
    · have hLe := ih (x <<< 1)
      omega
    · omega

theorem leadingZeros_masked :
    ∀ x : UInt8, ∀ bits : Fin 9, bits.val ≤ leadingZeros 8 x → x &&& prefixMask bits.val 0 = 0 :=
  byte_forall (by decide +kernel)

/- Addresses agree in the bits of a prefix that matches. -/
theorem matchPrefixFrom_masked
    {a b : Ipv6Addr} {is : List (Fin 16)} {bits k : Nat} {i : Fin 16}
    (hMatch : bits ≤ matchPrefixFrom a b is) (hGet : is[k]? = some i) :
    (a i ^^^ b i) &&& prefixMask bits k = 0 := by
  induction is generalizing bits k with
  | nil => cases hGet
  | cons i₀ is ih =>
    unfold matchPrefixFrom at hMatch
    split at hMatch
    · rename_i hEq
      cases k with
      | zero =>
        cases hGet
        rw [hEq, UInt8.xor_self, UInt8.zero_and]
      | succ k =>
        by_cases hByte : 8 ≤ bits
        · rw [prefixMask_succ hByte]
          exact ih (by omega) hGet
        · rw [prefixMask_of_le (by omega) (by omega), UInt8.and_zero]
    · have hLe := leadingZeros_le 8 (a i₀ ^^^ b i₀)
      cases k with
      | zero =>
        cases hGet
        exact leadingZeros_masked _ ⟨bits, by omega⟩ hMatch
      | succ k => rw [prefixMask_of_le (by omega) (by omega), UInt8.and_zero]

theorem matchPrefix_masked
    {a b : Ipv6Addr} {bits : Nat} (hMatch : bits ≤ ipv6AddrMatchPrefix a b)
    (i : Fin 16) :
    (a i ^^^ b i) &&& prefixMask bits i.val = 0 := by
  have hLt : i.val < (List.finRange 16).length := by
    simp
  apply matchPrefixFrom_masked hMatch
  rw [List.getElem?_eq_getElem hLt, List.getElem_finRange]
  rfl

----
-- Unicast Addresses
----

/- The bits between a prefix and the identifier are zero. -/
def GapZero
    (bits : Nat) (addr : Ipv6Addr) : Prop :=
  ∀ i : Fin 16, i.val < 8 → addr i &&& ~~~prefixMask bits i.val = 0

instance
    (bits : Nat) (addr : Ipv6Addr) :
    Decidable (GapZero bits addr) :=
  inferInstanceAs (Decidable (∀ i : Fin 16, _))

theorem prefixMask_min
    (bits : Nat) (i : Fin 16) :
    prefixMask (min bits 128) i.val = prefixMask bits i.val := by
  by_cases hLong : bits ≤ 128
  · rw [Nat.min_eq_left hLong]
  · unfold prefixMask
    rw [if_pos (by omega), if_pos (by omega)]

/- What an address keeps of the one it was sent as. -/
theorem setIid_apply
    (addr : Ipv6Addr) (i : Fin 16) :
    Ipv6Addr.setIid (fun _ => 0) addr.iid i = if i.val < 8 then 0 else addr i := by
  have hIid := congrFun (@setIid_iid (fun _ => 0) addr) i
  exact hIid

/- An address comes back unless it has bits in the gap. -/
theorem ctxAddr_eq_iff
    {ctx : SixlowpanCtx} {addr : Ipv6Addr}
    (hMatch : ctx.prefixLen ≤ ipv6AddrMatchPrefix ctx.pfx addr) :
    ctxAddr ctx addr = addr ↔ GapZero ctx.prefixLen addr := by
  have hByte : ∀ i : Fin 16, ctxAddr ctx addr i = addr i ↔ (if i.val < 8 then 0 else addr i) &&&
            ~~~prefixMask ctx.prefixLen i.val =
          addr i &&& ~~~prefixMask ctx.prefixLen i.val := by
    intro i
    have hMasked := matchPrefix_masked hMatch i
    unfold ctxAddr ipv6AddrInitPrefix
    rw [initPrefixByte_eq, prefixMask_min, setIid_apply]
    exact merge_eq_iff.trans (and_iff_right hMasked)
  constructor
  · intro hEq i hi
    have hGap := (hByte i).mp (congrFun hEq i)
    rw [if_pos hi, UInt8.zero_and] at hGap
    exact hGap.symm
  · intro hGap
    funext i
    apply (hByte i).mpr
    split
    · rename_i hi
      rw [hGap i hi, UInt8.zero_and]
    · rfl

section

variable {env : IphcSend} {renv : IphcRecv} {hdr : Ipv6Hdr} {out : List UInt8}
variable {room : Nat} {addr : Ipv6Addr}

theorem decodedAddr_eq_iff
    {used : Option (Fin 16)}
    (hMatch :
      ∀ id, used = some id → (env.ctxs id).prefixLen ≤ ipv6AddrMatchPrefix (env.ctxs id).pfx addr) :
    decodedAddr (used.map env.ctxs) addr = addr ↔
      ∀ id, used = some id → GapZero (env.ctxs id).prefixLen addr := by
  cases used with
  | none => simp [decodedAddr]
  | some id =>
    simp only [Option.map_some, decodedAddr, Option.some.injEq, forall_eq']
    exact ctxAddr_eq_iff (hMatch id rfl)

theorem iphcSrcCtx_match
    {id : Fin 16} (hCtx : iphcSrcCtx env hdr = some id) :
    (env.ctxs id).prefixLen ≤ ipv6AddrMatchPrefix (env.ctxs id).pfx hdr.src := by
  unfold iphcSrcCtx at hCtx
  split at hCtx
  · cases hCtx
  · exact (ctxForComp_spec hCtx).2

theorem usedDstCtx_match
    {id : Fin 16} (hCtx : usedDstCtx env hdr = some id) :
    (env.ctxs id).prefixLen ≤ ipv6AddrMatchPrefix (env.ctxs id).pfx hdr.dst := by
  unfold usedDstCtx iphcDstCtx at hCtx
  split at hCtx
  · split at hCtx
    · cases hCtx
    · exact (ctxForComp_spec hCtx).2
  · cases hCtx

/-
  Both addresses come back exactly when neither has bits in the
  gap of the context it was sent with.
-/
theorem iphc_unicast_roundTrip_iff
    (hAgree : Agree env renv) (hSrc : hdr.src.isMulticast = false)
    (hDst : hdr.dst.isMulticast = false)
    (hEncode : iphcIpv6Encode env room hdr = .ok out) (pre rest : List UInt8) :
    (∃ hdr' n, iphcIpv6Decode renv (pre ++ out ++ rest) pre.length = .ok (hdr', n) ∧
      hdr'.src = hdr.src ∧ hdr'.dst = hdr.dst) ↔
    (∀ id, iphcSrcCtx env hdr = some id → GapZero (env.ctxs id).prefixLen hdr.src) ∧
    (∀ id, usedDstCtx env hdr = some id → GapZero (env.ctxs id).prefixLen hdr.dst) := by
  rcases iphcResult_cases hEncode with ⟨src, dst, hSrcPart, hDstPart, rfl⟩
  have hSent :
      SentAt env hdr src dst _ pre.length rest :=
    { hSrc := hSrcPart
      hDst := hDstPart
      hCid := dstPart_cid_eq_zero hDstPart hDst
      hDrop := drop_frame pre (iphcOut env hdr src dst) rest }
  rcases hSent.decode_unicast hAgree hSrc hDst with ⟨v, _, hDecode⟩
  rw [hDecode, ← decodedAddr_eq_iff (fun id => iphcSrcCtx_match),
    ← decodedAddr_eq_iff (fun id => usedDstCtx_match)]
  constructor
  · rintro ⟨hdr', n, hOk, hSrcEq, hDstEq⟩
    cases hOk
    exact ⟨hSrcEq, hDstEq⟩
  · intro hEq
    exact ⟨_, _, rfl, hEq.1, hEq.2⟩

/- The prefix 2001:db8::/32, and others of 64 bits. -/
def iphcSampleCtxs : CtxTable :=
  fun id =>
    if id = 0 then
      ⟨![0x20, 0x01, 0x0d, 0xb8, 0, 0, 0, 0, 0, 0, 0, 0, 0, 0, 0, 0], 32, true⟩
    else
      ⟨![0xfd, UInt8.ofNat id.val, 0, 0, 0, 0, 0, 0, 0, 0, 0, 0, 0, 0, 0, 0], 64, true⟩

/- From 2001:db8:s::1 to 2001:db8:s::2. -/
def subnetHdr
    (s : UInt8) : Ipv6Hdr :=
  { vTcFl := ![0x60, 0, 0, 0]
    len := 8
    nh := 58
    hl := 64
    src := ![0x20, 0x01, 0x0d, 0xb8, 0, s, 0, 0, 0, 0, 0, 0, 0, 0, 0, 0x01]
    dst := ![0x20, 0x01, 0x0d, 0xb8, 0, s, 0, 0, 0, 0, 0, 0, 0, 0, 0, 0x02] }

/- What is sent of such a header does not tell the subnet. -/
def subnetOut : List UInt8 :=
  [0x7a, 0x55, 58, 0, 0, 0, 0, 0, 0, 0, 0x01, 0, 0, 0, 0, 0, 0, 0, 0x02]

theorem iphc_unicast_roundTrip_iff_subnetHdr :
    (∃ hdr' n,
      iphcIpv6Decode (iphcSampleRecv iphcSampleCtxs) ([] ++ subnetOut ++ []) 0 = .ok (hdr', n) ∧
      hdr'.src = (subnetHdr 0).src ∧ hdr'.dst = (subnetHdr 0).dst) := by
  apply (@iphc_unicast_roundTrip_iff
    (iphcSampleSend iphcSampleCtxs)
    (iphcSampleRecv iphcSampleCtxs) (subnetHdr 0) subnetOut 41
    ⟨rfl, rfl, rfl⟩ (by decide) (by decide) (by decide +kernel)
    [] []).mpr
  decide +kernel

/- The address 2001:db8:1::1 becomes 2001:db8::1. -/
theorem iphc_unicast_roundTrip_subnet_lost :
    (∀ id, 1 ≤ (iphcSampleCtxs id).prefixLen ∧ (iphcSampleCtxs id).prefixLen ≤ 128 ∧
      (iphcSampleCtxs id).comp = true) ∧ (subnetHdr 1).src.isMulticast = false ∧
    (subnetHdr 1).dst.isMulticast = false ∧
    iphcIpv6Encode (iphcSampleSend iphcSampleCtxs) 41 (subnetHdr 1) = .ok subnetOut ∧
    ¬ ∃ hdr' n, iphcIpv6Decode (iphcSampleRecv iphcSampleCtxs) subnetOut 0 = .ok (hdr', n) ∧
      hdr'.src = (subnetHdr 1).src ∧ hdr'.dst = (subnetHdr 1).dst := by
  refine ⟨by decide, by decide, by decide, by decide +kernel, ?_⟩
  rintro ⟨hdr', n, hDecode, hSrc, _⟩
  have hByte :
      ((iphcIpv6Decode (iphcSampleRecv iphcSampleCtxs) subnetOut
        0).toOption.map fun r => r.1.src 5) = some 0 := by
    decide +kernel
  rw [hDecode] at hByte
  change some (hdr'.src 5) = some 0 at hByte
  rw [hSrc] at hByte
  exact absurd hByte (by decide)

end

end Riot
