import Mathlib.Tactic.FinCases
import Riot.Lib.ByteBits
import Riot.Net.IphcEncoding

/-
  Decoding what the IPHC encoder wrote.

  The decoder reads each part of the header at the place where
  the encoder wrote it, since both add up the same lengths.
-/

open ByteBuffer ByteBits

----
-- Reading
----

namespace Riot

section

variable {data rest bs : List UInt8} {p : Nat}

theorem iphcByte_add
    (k : Nat) :
    iphcByte data (p + k) = iphcByte (data.drop p) k := by
  simp only [iphcByte, List.getElem?_drop]

theorem iphcByte_of_drop
    {b : UInt8} (hDrop : data.drop p = b :: rest) :
    iphcByte data p = .ok b := by
  rw [iphcByte, getElem?_of_drop hDrop]

theorem iphcBytes_of_drop
    {n : Nat} (hDrop : data.drop p = bs ++ rest) (hLen : bs.length = n)
    (hPos : 0 < n) :
    iphcBytes data p n = .ok bs := by
  have hFits : p + bs.length ≤ data.length := by
    have hEq := congrArg List.length hDrop
    rw [List.length_drop, List.length_append] at hEq
    omega
  rw [iphcBytes, ← hLen, readBytes_of_drop hDrop hFits]

end

----
-- Traffic Class and Flow Label
----

namespace Ipv6Hdr

variable (hdr : Ipv6Hdr)

theorem toNat_getTc :
    hdr.getTc.toNat = (hdr.vTcFl 0).toNat % 16 * 16 + (hdr.vTcFl 1).toNat / 16 := by
  have h₁ := (hdr.vTcFl 1).toNat_lt
  unfold getTc
  rw [toNat_or_of_lt (k := 4)]
  · rw [toNat_shiftLeft_four, toNat_and_0f, toNat_shiftRight_four, toNat_and_f0]
    omega
  · rw [toNat_shiftLeft_four]
    omega
  · rw [toNat_shiftRight_four, toNat_and_f0]
    omega

theorem toNat_getTcEcn :
    hdr.getTcEcn.toNat = (hdr.vTcFl 0).toNat / 4 % 4 := by
  rw [getTcEcn, toNat_shiftRight_two, toNat_and_0c]
  omega

theorem toNat_getTcDscp :
    hdr.getTcDscp.toNat = (hdr.vTcFl 0).toNat % 4 * 16 + (hdr.vTcFl 1).toNat / 16 := by
  have h₁ := (hdr.vTcFl 1).toNat_lt
  unfold getTcDscp
  rw [toNat_or_of_lt (k := 4)]
  · rw [toNat_shiftLeft_four, toNat_and_03, toNat_shiftRight_four, toNat_and_f0]
    omega
  · rw [toNat_shiftLeft_four]
    omega
  · rw [toNat_shiftRight_four, toNat_and_f0]
    omega

theorem getFl_eq :
    hdr.getFl =
      (hdr.vTcFl 1).toNat % 16 * 65536 + (hdr.vTcFl 2).toNat * 256 + (hdr.vTcFl 3).toNat := by
  have h₂ := (hdr.vTcFl 2).toNat_lt
  have h₃ := (hdr.vTcFl 3).toNat_lt
  have hMask : (0x000fffff : Nat) = 2 ^ 20 - 1 := rfl
  rw [getFl, hMask, Nat.and_two_pow_sub_one_eq_mod]
  simp only [fromNetwork, List.foldl_cons, List.foldl_nil]
  omega

theorem getVersion_eq
    (hVersion : hdr.getVersion = 6) :
    (hdr.vTcFl 0).toNat / 16 = 6 := by
  rw [← toNat_shiftRight_four]
  exact congrArg UInt8.toNat hVersion

end Ipv6Hdr

/- The bytes of a flow label. -/
theorem flow_bytes
    {y z w : Nat} (hy : y < 16) (hz : z < 256) (hw : w < 256) :
    ((y * 65536 + z * 256 + w) &&& 0x000f0000) >>> 16 = y ∧
    ((y * 65536 + z * 256 + w) &&& 0x0000ff00) >>> 8 = z ∧
    (y * 65536 + z * 256 + w) &&& 0x000000ff = w := by
  have hLow : (0x000000ff : Nat) = 2 ^ 8 - 1 := rfl
  refine ⟨?_, ?_, ?_⟩
  · rw [Nat.shiftRight_and_distrib, show (0x000f0000 : Nat) >>> 16 = 2 ^ 4 - 1 from rfl,
      Nat.and_two_pow_sub_one_eq_mod, Nat.shiftRight_eq_div_pow]
    omega
  · rw [Nat.shiftRight_and_distrib, show (0x0000ff00 : Nat) >>> 8 = 2 ^ 8 - 1 from rfl,
      Nat.and_two_pow_sub_one_eq_mod, Nat.shiftRight_eq_div_pow]
    omega
  · rw [hLow, Nat.and_two_pow_sub_one_eq_mod]
    omega

/- The first bytes of a header with this traffic class. -/
theorem toNat_setTc
    (tc : UInt8) :
    (VTcFl.setTc (VTcFl.setVersion fun _ => 0) tc 0).toNat = 96 + tc.toNat / 16 ∧
      (VTcFl.setTc (VTcFl.setVersion fun _ => 0) tc 1).toNat = tc.toNat % 16 * 16 := by
  revert tc
  exact byte_forall (by decide +kernel)

theorem toNat_setTcEcn
    (b : UInt8) :
    (VTcFl.setTcDscp (VTcFl.setTcEcn (VTcFl.setVersion fun _ => 0) (b >>> 6))
      0 0).toNat = 96 + b.toNat / 64 * 4 ∧
      (VTcFl.setTcDscp (VTcFl.setTcEcn (VTcFl.setVersion fun _ => 0) (b >>> 6)) 0 1) = 0 := by
  revert b
  exact byte_forall (by decide +kernel)

theorem vTcFl_ext
    {v w : VTcFl} (h₀ : (v 0).toNat = (w 0).toNat) (h₁ : (v 1).toNat = (w 1).toNat)
    (h₂ : (v 2).toNat = (w 2).toNat) (h₃ : (v 3).toNat = (w 3).toNat) :
    v = w := by
  funext i
  apply UInt8.toNat_inj.mp
  match i with
  | 0 => exact h₀
  | 1 => exact h₁
  | 2 => exact h₂
  | 3 => exact h₃

theorem toNat_clearFl
    (v : VTcFl) :
    (v.clearFl 1).toNat = (v 1).toNat / 16 * 16 :=
  toNat_and_f0 (v 1)

theorem toNat_orFl
    {v : VTcFl} {b₁ b₂ b₃ : UInt8} (hClear : (v 1).toNat % 16 = 0) :
    (v.orFl b₁ b₂ b₃ 1).toNat = (v 1).toNat + b₁.toNat % 16 := by
  have hLow : (b₁ &&& 0x0f).toNat < 2 ^ 4 := by
    rw [toNat_and_0f]
    omega
  have hOr := toNat_or_of_lt (x := v 1) (k := 4) hClear hLow
  rwa [toNat_and_0f] at hOr

/- The later bytes of a header whose label is not set yet. -/
theorem toNat_orFl_rest
    {v : VTcFl} {b₁ b₂ b₃ : UInt8} (h₂ : v 2 = 0) (h₃ : v 3 = 0) :
    v.orFl b₁ b₂ b₃ 0 = v 0 ∧ v.orFl b₁ b₂ b₃ 2 = b₂ ∧ v.orFl b₁ b₂ b₃ 3 = b₃ := by
  refine ⟨rfl, ?_, ?_⟩
  · have hOr : v.orFl b₁ b₂ b₃ 2 = v 2 ||| b₂ := rfl
    rw [hOr, h₂, UInt8.zero_or]
  · have hOr : v.orFl b₁ b₂ b₃ 3 = v 3 ||| b₃ := rfl
    rw [hOr, h₃, UInt8.zero_or]

section

variable {data rest : List UInt8} {base pos : Nat} {iphc1 : UInt8} {hdr : Ipv6Hdr}

/- Traffic class and flow label come back. -/
theorem decodeTf_tfBytes
    (hVersion : hdr.getVersion = 6) (hBits : iphc1 &&& 0x18 = tfBits hdr)
    (hDrop : data.drop (base + pos) = tfBytes hdr ++ rest) :
    decodeTf data base iphc1 pos = .ok (hdr.vTcFl, pos + (tfBytes hdr).length) := by
  have hTcEq := hdr.toNat_getTc
  have hEcnEq := hdr.toNat_getTcEcn
  have hDscpEq := hdr.toNat_getTcDscp
  have hFlEq := hdr.getFl_eq
  have hVer := hdr.getVersion_eq hVersion
  have h₁ := (hdr.vTcFl 1).toNat_lt
  have h₂ := (hdr.vTcFl 2).toNat_lt
  have h₃ := (hdr.vTcFl 3).toNat_lt
  have hFlow := flow_bytes (Nat.mod_lt (hdr.vTcFl 1).toNat (by decide : 0 < 16)) h₂ h₃
  rw [← hFlEq] at hFlow
  rcases hFlow with ⟨hByte₁, hByte₂, hByte₃⟩
  unfold decodeTf
  rw [hBits]
  unfold tfBits
  unfold tfBytes at hDrop ⊢
  by_cases hFl : hdr.getFl = 0
  · rw [hFl] at hFlEq
    by_cases hTc : hdr.getTc = 0
    · have hTc' := congrArg UInt8.toNat hTc
      rw [hTcEq, UInt8.toNat_zero] at hTc'
      simp only [hFl, hTc, if_true]
      rw [if_neg (by decide), if_neg (by decide), if_neg (by decide)]
      congr 2
      rcases toNat_setTc 0 with ⟨hSet₀, hSet₁⟩
      rw [UInt8.toNat_zero] at hSet₀ hSet₁
      apply vTcFl_ext
      · exact hSet₀.trans (by omega)
      · rw [toNat_clearFl, hSet₁]
        omega
      · exact (show 0 = (hdr.vTcFl 2).toNat by omega)
      · exact (show 0 = (hdr.vTcFl 3).toNat by omega)
    · simp only [hFl, hTc, if_true, if_false] at hDrop ⊢
      rw [if_neg (by decide), if_neg (by decide), iphcByte_of_drop hDrop, ok_bind]
      rcases toNat_setTc hdr.getTc with ⟨hSet₀, hSet₁⟩
      refine congrArg (fun v => Except.ok (v, pos + 1)) ?_
      apply vTcFl_ext
      · exact hSet₀.trans (by omega)
      · rw [toNat_clearFl, hSet₁]
        omega
      · exact (show 0 = (hdr.vTcFl 2).toNat by omega)
      · exact (show 0 = (hdr.vTcFl 3).toNat by omega)
  · by_cases hDscp : hdr.getTcDscp = 0
    · have hDscp' := congrArg UInt8.toNat hDscp
      rw [hDscpEq, UInt8.toNat_zero] at hDscp'
      simp only [hFl, hDscp, if_true, if_false] at hDrop ⊢
      rw [if_neg (by decide), iphcByte_add 1, iphcByte_add 2,
        iphcByte_of_drop hDrop, hDrop, hByte₁, hByte₂, hByte₃]
      have hb : ((hdr.getTcEcn <<< 6) ||| UInt8.ofNat ((hdr.vTcFl 1).toNat % 16)).toNat =
          (hdr.vTcFl 0).toNat / 4 % 4 * 64 + (hdr.vTcFl 1).toNat % 16 := by
        rw [toNat_or_of_lt (k := 6)]
        · rw [toNat_shiftLeft_six, hEcnEq, UInt8.toNat_ofNat']
          omega
        · rw [toNat_shiftLeft_six]
          omega
        · rw [UInt8.toNat_ofNat']
          omega
      rcases toNat_setTcEcn ((hdr.getTcEcn <<< 6) ||| UInt8.ofNat ((hdr.vTcFl 1).toNat % 16)) with
        ⟨hSet₀, hSet₁⟩
      refine congrArg (fun v => Except.ok (v, pos + 3)) ?_
      apply vTcFl_ext
      · rw [(toNat_orFl_rest rfl rfl).1, hSet₀]
        omega
      · rw [toNat_orFl (by rw [hSet₁]; rfl), hSet₁, hb, UInt8.toNat_zero]
        omega
      · rw [(toNat_orFl_rest rfl rfl).2.1, UInt8.ofNat_toNat]
      · rw [(toNat_orFl_rest rfl rfl).2.2, UInt8.ofNat_toNat]
    · simp only [hFl, hDscp, if_false] at hDrop ⊢
      rw [iphcByte_add 1, iphcByte_add 2, iphcByte_add 3,
        iphcByte_of_drop hDrop, hDrop, hByte₁, hByte₂, hByte₃]
      rcases toNat_setTc hdr.getTc with ⟨hSet₀, hSet₁⟩
      refine congrArg (fun v => Except.ok (v, pos + 4)) ?_
      apply vTcFl_ext
      · rw [(toNat_orFl_rest rfl rfl).1, hSet₀]
        omega
      · rw [toNat_orFl (by rw [hSet₁]; omega), hSet₁, UInt8.toNat_ofNat']
        omega
      · rw [(toNat_orFl_rest rfl rfl).2.1, UInt8.ofNat_toNat]
      · rw [(toNat_orFl_rest rfl rfl).2.2, UInt8.ofNat_toNat]

/- The next header that is not compressed. -/
theorem decodeNh_nhBytes
    {env : IphcSend} (hBits : iphc1 &&& 0x04 = nhBits env hdr)
    (hDrop : data.drop (base + pos) = nhBytes env hdr ++ rest) :
    decodeNh data base iphc1 pos = .ok (if compressibleNh env.nhc hdr.nh then 0 else hdr.nh,
        pos + (nhBytes env hdr).length) := by
  unfold decodeNh
  rw [hBits]
  unfold nhBits
  unfold nhBytes at hDrop ⊢
  split at hDrop
  · rename_i hNh
    simp [hNh]
  · rename_i hNh
    rw [if_neg hNh, if_pos rfl, iphcByte_of_drop hDrop, ok_bind, if_neg hNh, if_neg hNh]
    rfl

theorem decodeHl_hlBytes
    (hBits : iphc1 &&& 0x03 = hlBits hdr)
    (hDrop : data.drop (base + pos) = hlBytes hdr ++ rest) :
    decodeHl data base iphc1 pos = .ok (hdr.hl, pos + (hlBytes hdr).length) := by
  unfold decodeHl
  rw [hBits]
  unfold hlBits
  unfold hlBytes at hDrop ⊢
  by_cases h₁ : hdr.hl = 1
  · simp [h₁]
  · by_cases h₂ : hdr.hl = 64
    · simp [h₂]
    · by_cases h₃ : hdr.hl = 255
      · simp [h₃]
      · simp only [h₁, h₂, h₃, if_false, or_self] at hDrop ⊢
        rw [if_pos trivial, iphcByte_of_drop hDrop, ok_bind]
        rfl

end

----
-- Identifiers
----

/- The form in which an identifier is sent. -/
def iidMode
    (addr : Ipv6Addr) (iid : Eui64) : UInt8 :=
  if addr.iid = iid then 3
  else if addr 8 = 0 ∧ addr 9 = 0 ∧ addr 10 = 0 ∧
      addr 11 = 0xff ∧ addr 12 = 0xfe ∧ addr 13 = 0 then 2
  else 1

section

variable {data rest : List UInt8} {base pos : Nat} {addr : Ipv6Addr}
variable {iid : Eui64} {sam64 : UInt8}

theorem iidPart_bits :
    (iidPart addr iid sam64).1 = iidMode addr iid * sam64 := by
  unfold iidPart iidMode
  split
  · rfl
  · split
    · rfl
    · exact (UInt8.one_mul _).symm

variable (addr iid) in
theorem iidMode_cases :
    iidMode addr iid = 1 ∨ iidMode addr iid = 2 ∨ iidMode addr iid = 3 := by
  unfold iidMode
  split
  · simp
  · split <;> simp

theorem Eui64.ofBytes_ofFn
    (e : Eui64) :
    Eui64.ofBytes (List.ofFn e) = e := by
  funext j
  rw [Eui64.ofBytes, List.getD_eq_getElem _ _ (by rw [List.length_ofFn]; exact j.2),
    List.getElem_ofFn]

theorem Ipv6Addr.ofBytes_ofFn
    (a : Ipv6Addr) :
    Ipv6Addr.ofBytes (List.ofFn a) = a := by
  funext j
  rw [Ipv6Addr.ofBytes, List.getD_eq_getElem _ _ (by rw [List.length_ofFn]; exact j.2),
    List.getElem_ofFn]

/- The identifier of an address comes back. -/
theorem decodeIid_iidPart
    (hDrop : data.drop (base + pos) = (iidPart addr iid sam64).2 ++ rest) :
    decodeIid data base (some iid) (iidMode addr iid) pos =
      .ok (addr.iid, pos + (iidPart addr iid sam64).2.length) := by
  unfold decodeIid iidMode
  unfold iidPart at hDrop ⊢
  by_cases hIid : addr.iid = iid
  · simp [hIid]
  · simp only [hIid, if_false] at hDrop ⊢
    split at hDrop
    · rename_i hShort
      rw [if_pos hShort, if_pos hShort, if_neg (by decide),
        if_pos rfl, iphcBytes_of_drop (n := 2) hDrop rfl (by decide), ok_bind]
      refine congrArg (fun e => Except.ok (e, pos + 2)) ?_
      rcases hShort with ⟨h₀, h₁, h₂, h₃, h₄, h₅⟩
      funext j
      match j with
      | 0 => exact h₀.symm
      | 1 => exact h₁.symm
      | 2 => exact h₂.symm
      | 3 => exact h₃.symm
      | 4 => exact h₄.symm
      | 5 => exact h₅.symm
      | 6 => rfl
      | 7 => rfl
    · rename_i hShort
      rw [if_neg hShort, if_neg hShort, if_pos rfl,
        iphcBytes_of_drop hDrop (List.length_ofFn ..) (by decide), ok_bind, Eui64.ofBytes_ofFn,
        List.length_ofFn]

theorem setIid_iid
    {a b : Ipv6Addr} :
    a.setIid b.iid = fun i => if i < 8 then a i else b i := by
  funext i
  unfold Ipv6Addr.setIid Ipv6Addr.iid
  by_cases hi : 8 ≤ i.val
  · have hLt : ¬ i < 8 := by
      rw [Fin.lt_def]
      exact Nat.not_lt.mpr hi
    rw [dif_pos hi, if_neg hLt]
    congr 1
    apply Fin.ext
    simp only [Fin.val_natAdd]
    omega
  · have hLt : i < 8 := by
      rw [Fin.lt_def]
      exact Nat.not_le.mp hi
    rw [dif_neg hi, if_pos hLt]

/- A link-local address is its identifier. -/
theorem linkLocal_setIid
    (hLocal : addr.isLinkLocal = true) (hUnicast : addr.isMulticast = false) :
    Ipv6Addr.setIid (Ipv6Addr.setLinkLocalPrefix fun _ => 0) addr.iid = addr := by
  have hPfx : ∀ i : Fin 16, i < 8 → addr i = Ipv6Addr.linkLocalPfx i := by
    simpa [Ipv6Addr.isLinkLocal, hUnicast] using hLocal
  rw [setIid_iid]
  funext i
  split
  · rename_i hi
    simp only [Ipv6Addr.setLinkLocalPrefix, if_pos hi]
    exact (hPfx i hi).symm
  · rfl

end

----
-- Contexts
----

section

variable {ctxs : CtxTable} {addr : Ipv6Addr} {id : Fin 16}

theorem ctxLookupFrom_spec
    {ids : List (Fin 16)} {best : Nat} {res : Option (Fin 16)}
    (hRes : ∀ i, res = some i →
        ctxValid (ctxs i) = true ∧ (ctxs i).prefixLen ≤ ipv6AddrMatchPrefix (ctxs i).pfx addr)
    (hLookup : ctxLookupFrom ctxs addr ids best res = some id) :
    ctxValid (ctxs id) = true ∧ (ctxs id).prefixLen ≤ ipv6AddrMatchPrefix (ctxs id).pfx addr := by
  induction ids generalizing best res with
  | nil => exact hRes id hLookup
  | cons i ids ih =>
    simp only [ctxLookupFrom] at hLookup
    split at hLookup
    · rename_i hBetter
      refine ih ?_ hLookup
      intro j hj
      cases hj
      simp only [Bool.and_eq_true, decide_eq_true_eq] at hBetter
      exact hBetter.1
    · exact ih hRes hLookup

/- A context that was found matches the address. -/
theorem ctxForComp_spec
    (hCtx : ctxForComp ctxs addr = some id) :
    ctxValid (ctxs id) = true ∧ (ctxs id).prefixLen ≤ ipv6AddrMatchPrefix (ctxs id).pfx addr := by
  rcases Option.filter_eq_some_iff.mp hCtx with ⟨hLookup, _⟩
  exact ctxLookupFrom_spec (by simp) hLookup

theorem ctxLookupId_ofNat
    (hValid : ctxValid (ctxs id) = true) :
    ctxLookupId ctxs (UInt8.ofNat id.val) = some (ctxs id) := by
  have hNat : (UInt8.ofNat id.val).toNat = id.val := by
    rw [UInt8.toNat_ofNat']
    omega
  simp [ctxLookupId, hNat, hValid]

end

----
-- Source Addresses
----

/- What a context and the identifier give back. -/
def ctxAddr
    (ctx : SixlowpanCtx) (addr : Ipv6Addr) : Ipv6Addr :=
  ipv6AddrInitPrefix (Ipv6Addr.setIid (fun _ => 0) addr.iid) ctx.pfx ctx.prefixLen

def decodedAddr
    (ctx : Option SixlowpanCtx) (addr : Ipv6Addr) : Ipv6Addr :=
  match ctx with
  | some ctx => ctxAddr ctx addr
  | none => addr

section

variable {env : IphcSend} {renv : IphcRecv} {hdr : Ipv6Hdr}
variable {data rest : List UInt8} {base pos : Nat} {iphc2 : UInt8}
variable {ctx : Option SixlowpanCtx} {part : IphcPart}

/- The forms of a source address, and when each is used. -/
theorem srcPart_cases
    (hPart : srcPart env hdr = some part) :
    (hdr.src = (fun _ => 0) ∧ iphcSrcCtx env hdr = none ∧ part = ⟨0x40, 0, []⟩) ∨
    (∃ iid, env.ifaceIid = some iid ∧ (iphcSrcCtx env hdr = none → hdr.src.isLinkLocal = true) ∧
      part = ⟨ctxBits (iphcSrcCtx env hdr) 0x40 |||
            iidMode hdr.src iid * 0x10, ctxCid (iphcSrcCtx env hdr) <<< 4,
          (iidPart hdr.src iid 0x10).2⟩) ∨
    (iphcSrcCtx env hdr = none ∧ part = ⟨0x00, 0, List.ofFn hdr.src⟩) := by
  unfold srcPart at hPart
  split at hPart
  · rename_i hUnspec
    cases hPart
    refine Or.inl ⟨?_, ?_, rfl⟩
    · simpa [Ipv6Addr.isUnspecified] using hUnspec
    · simp [iphcSrcCtx, hUnspec]
  · dsimp only at hPart
    split at hPart
    · rename_i hForm
      rcases Option.map_eq_some_iff.mp hPart with ⟨iid, hIid, rfl⟩
      refine Or.inr (Or.inl ⟨iid, hIid, ?_, ?_⟩)
      · intro hCtx
        simpa [hCtx] using hForm
      · rw [iidPart_bits]
    · rename_i hForm
      cases hPart
      refine Or.inr (Or.inr ⟨?_, rfl⟩)
      simp only [Bool.or_eq_true, not_or, Option.not_isSome_iff_eq_none] at hForm
      exact hForm.1

theorem decodeSrc_mask :
    decodeSrc renv data base iphc2 ctx pos = decodeSrc renv data base (iphc2 &&& 0x70) ctx pos := by
  have h₃ : (0x70 : UInt8) &&& 0x30 = 0x30 := rfl
  have h₄ : (0x70 : UInt8) &&& 0x40 = 0x40 := rfl
  have h₇ : (0x70 : UInt8) &&& 0x70 = 0x70 := rfl
  simp only [decodeSrc, UInt8.and_assoc, h₃, h₄, h₇]

theorem decodeFull_ofFn
    {addr : Ipv6Addr} (hDrop : data.drop (base + pos) = List.ofFn addr ++ rest) :
    decodeFull data base pos = .ok (addr, pos + 16) := by
  rw [decodeFull, iphcBytes_of_drop hDrop (List.length_ofFn ..) (by decide), ok_bind,
    Ipv6Addr.ofBytes_ofFn]

theorem decodeSrc_local
    {m : UInt8} (hm : m = 1 ∨ m = 2 ∨ m = 3) :
    decodeSrc renv data base (ctxBits none 0x40 ||| m * 0x10)
      ctx pos = decodeLocal data base renv.srcIid m pos := by
  rcases hm with rfl | rfl | rfl <;> rfl

theorem decodeSrc_ctx
    {m : UInt8} {id : Fin 16} (hm : m = 1 ∨ m = 2 ∨ m = 3) :
    decodeSrc renv data base (ctxBits (some id) 0x40 ||| m * 0x10) ctx pos =
      decodeCtx data base ctx renv.srcIid m pos := by
  have hBits : ctxBits (some id) 0x40 = 0x40 := rfl
  rw [hBits]
  rcases hm with rfl | rfl | rfl <;> rfl

/- The source address, or what its context makes of it. -/
theorem decodeSrc_srcPart
    (hPart : srcPart env hdr = some part) (hBits : iphc2 &&& 0x70 = part.bits)
    (hIid : renv.srcIid = env.ifaceIid) (hUnicast : hdr.src.isMulticast = false)
    (hDrop : data.drop (base + pos) = part.bytes ++ rest) :
    decodeSrc renv data base iphc2 ((iphcSrcCtx env hdr).map env.ctxs) pos =
      .ok (decodedAddr ((iphcSrcCtx env hdr).map env.ctxs) hdr.src, pos + part.bytes.length) := by
  rw [decodeSrc_mask, hBits]
  rcases srcPart_cases hPart with ⟨hZero, hCtx, rfl⟩ | ⟨iid, hSend, hLocal, rfl⟩ | ⟨hCtx, rfl⟩
  · rw [hCtx]
    simp only [Option.map_none, decodedAddr, hZero]
    rfl
  · dsimp only at hDrop ⊢
    have hMode := decodeIid_iidPart hDrop
    cases hCtx : iphcSrcCtx env hdr with
    | none =>
      rw [decodeSrc_local (iidMode_cases _ _), decodeLocal, hIid, hSend, hMode, ok_bind]
      simp only [linkLocal_setIid (hLocal hCtx) hUnicast, Option.map_none, decodedAddr]
    | some id =>
      rw [decodeSrc_ctx (iidMode_cases _ _), hIid, hSend]
      simp only [decodeCtx, Option.map_some, hMode, ok_bind, decodedAddr, ctxAddr]
  · have hFull : decodeSrc renv data base 0x00 none pos = decodeFull data base pos := rfl
    rw [hCtx, Option.map_none, hFull, decodeFull_ofFn hDrop]
    simp only [decodedAddr, List.length_ofFn]

/- Both halves of the byte for context identifiers. -/
theorem cid_halves
    {d : UInt8} (id : Fin 16) (hd : d.toNat < 16) :
    ((UInt8.ofNat id.val <<< 4) ||| d) >>> 4 = UInt8.ofNat id.val ∧
      ((UInt8.ofNat id.val <<< 4) ||| d) &&& 0x0f = d := by
  have hNat : (UInt8.ofNat id.val).toNat = id.val := by
    rw [UInt8.toNat_ofNat']
    omega
  have hOr : ((UInt8.ofNat id.val <<< 4) ||| d).toNat = id.val * 16 + d.toNat := by
    rw [toNat_or_of_lt (k := 4) _ hd, toNat_shiftLeft_four, hNat]
    · omega
    · rw [toNat_shiftLeft_four]
      omega
  refine ⟨?_, ?_⟩
  · apply UInt8.toNat_inj.mp
    rw [toNat_shiftRight_four, hOr, hNat]
    omega
  · apply UInt8.toNat_inj.mp
    rw [toNat_and_0f, hOr]
    omega

theorem ctxCid_of_not_nonZero
    {ctx : Option (Fin 16)} (hZero : ctxNonZero ctx = false) :
    ctxCid ctx = 0 := by
  cases ctx with
  | none => rfl
  | some id =>
    have hId : id = 0 := by
      simpa [ctxNonZero] using hZero
    rw [hId]
    rfl

/- The two identifiers of contexts. -/
def sentCid
    (src dst : UInt8) : UInt8 :=
  (src <<< 4) ||| dst

theorem sentCid_halves
    {ctx : Option (Fin 16)} {d : UInt8} (hd : d.toNat < 16) :
    sentCid (ctxCid ctx) d >>> 4 = ctxCid ctx ∧ sentCid (ctxCid ctx) d &&& 0x0f = d := by
  cases ctx with
  | none => exact cid_halves 0 hd
  | some id => exact cid_halves id hd

theorem ctxValid_of_iphcSrcCtx
    {id : Fin 16} (hCtx : iphcSrcCtx env hdr = some id) :
    ctxValid (env.ctxs id) = true := by
  unfold iphcSrcCtx at hCtx
  split at hCtx
  · cases hCtx
  · exact (ctxForComp_spec hCtx).1

/- The context that the source address was sent with. -/
theorem decodeSrcCtx_eq
    {cid : UInt8} (hCtxs : renv.ctxs = env.ctxs)
    (hPart : srcPart env hdr = some part) (hBits : iphc2 &&& 0x70 = part.bits)
    (hCid : decodeCid data base iphc2 = .ok cid)
    (hSci : cid >>> 4 = ctxCid (iphcSrcCtx env hdr)) :
    decodeSrcCtx renv data base iphc2 = .ok ((iphcSrcCtx env hdr).map env.ctxs) := by
  have hSac : iphc2 &&& 0x40 = part.bits &&& 0x40 := by
    rw [← hBits, UInt8.and_assoc]
    rfl
  have hSam : iphc2 &&& 0x30 = part.bits &&& 0x30 := by
    rw [← hBits, UInt8.and_assoc]
    rfl
  unfold decodeSrcCtx
  rw [hCid, hSac, hSam]
  rcases srcPart_cases hPart with ⟨_, hCtx, rfl⟩ | ⟨iid, _, _, rfl⟩ | ⟨hCtx, rfl⟩
  · rw [hCtx]
    rfl
  · dsimp only
    have hMode := iidMode_cases hdr.src iid
    generalize iidMode hdr.src iid = m at hMode
    cases hCtx : iphcSrcCtx env hdr with
    | none =>
      rw [if_neg]
      · rfl
      · rcases hMode with rfl | rfl | rfl <;> decide
    | some id =>
      have hBitsOn : ctxBits (some id) 0x40 = 0x40 := rfl
      have hValid := ctxValid_of_iphcSrcCtx hCtx
      rw [hCtx] at hSci
      rw [hBitsOn, if_pos, ok_bind, if_pos, hSci, ctxCid, hCtxs, ctxLookupId_ofNat hValid]
      · rfl
      · rcases hMode with rfl | rfl | rfl <;> decide
      · rcases hMode with rfl | rfl | rfl <;> decide
  · rw [hCtx, if_neg (by dsimp only; decide)]
    rfl

end

----
-- Destination Addresses
----

section

variable {env : IphcSend} {renv : IphcRecv} {hdr : Ipv6Hdr}
variable {data rest : List UInt8} {base pos : Nat} {iphc2 : UInt8}
variable {ctx : Option SixlowpanCtx} {part : IphcPart}

/- The context with which a unicast destination is sent. -/
def usedDstCtx
    (env : IphcSend) (hdr : Ipv6Hdr) : Option (Fin 16) :=
  if env.dstL2addrLen > 0 then iphcDstCtx env hdr else none

/- The forms of a unicast destination. -/
theorem dstPart_cases
    (hPart : dstPart env hdr = some part) (hUnicast : hdr.dst.isMulticast = false) :
    (∃ iid, env.dstIid = some iid ∧ (usedDstCtx env hdr = none → hdr.dst.isLinkLocal = true) ∧
      part = ⟨ctxBits (usedDstCtx env hdr) 0x04 |||
            iidMode hdr.dst iid * 0x01, ctxCid (usedDstCtx env hdr),
          (iidPart hdr.dst iid 0x01).2⟩) ∨
    (usedDstCtx env hdr = none ∧ part = ⟨0x00, 0, List.ofFn hdr.dst⟩) := by
  unfold dstPart at hPart
  rw [if_neg (by simp [hUnicast])] at hPart
  dsimp only at hPart
  split at hPart
  · rename_i hForm
    rw [Bool.and_eq_true, decide_eq_true_eq] at hForm
    have hUsed : usedDstCtx env hdr = iphcDstCtx env hdr := if_pos hForm.2
    rcases Option.map_eq_some_iff.mp hPart with ⟨iid, hIid, rfl⟩
    refine Or.inl ⟨iid, hIid, ?_, ?_⟩
    · intro hCtx
      rw [hUsed] at hCtx
      simpa [hCtx] using hForm.1
    · rw [hUsed, iidPart_bits]
  · rename_i hForm
    cases hPart
    refine Or.inr ⟨?_, rfl⟩
    unfold usedDstCtx
    split
    · rename_i hLen
      simp only [hLen, decide_true, Bool.and_true, Bool.or_eq_true, not_or,
        Option.not_isSome_iff_eq_none] at hForm
      exact hForm.1
    · rfl

theorem decodeDst_mask :
    decodeDst renv data base iphc2 ctx pos = decodeDst renv data base (iphc2 &&& 0x0f) ctx pos := by
  have h₃ : (0x0f : UInt8) &&& 0x03 = 0x03 := rfl
  have h₇ : (0x0f : UInt8) &&& 0x07 = 0x07 := rfl
  have hc : (0x0f : UInt8) &&& 0x0c = 0x0c := rfl
  have hf : (0x0f : UInt8) &&& 0x0f = 0x0f := rfl
  simp only [decodeDst, UInt8.and_assoc, h₃, h₇, hc, hf]

theorem decodeDst_local
    {m : UInt8} (hm : m = 1 ∨ m = 2 ∨ m = 3) :
    decodeDst renv data base (ctxBits none 0x04 ||| m * 0x01)
      ctx pos = decodeLocal data base renv.dstIid m pos := by
  rcases hm with rfl | rfl | rfl <;> rfl

theorem decodeDst_ctx
    {m : UInt8} {id : Fin 16} (hm : m = 1 ∨ m = 2 ∨ m = 3) :
    decodeDst renv data base (ctxBits (some id) 0x04 ||| m * 0x01) ctx pos =
      decodeCtx data base ctx renv.dstIid m pos := by
  have hBits : ctxBits (some id) 0x04 = 0x04 := rfl
  rw [hBits]
  rcases hm with rfl | rfl | rfl <;> rfl

/- A unicast destination, or what its context makes of it. -/
theorem decodeDst_unicast
    (hPart : dstPart env hdr = some part) (hBits : iphc2 &&& 0x0f = part.bits)
    (hIid : renv.dstIid = env.dstIid) (hUnicast : hdr.dst.isMulticast = false)
    (hCtx : ∀ id, usedDstCtx env hdr = some id → ctx = some (env.ctxs id))
    (hDrop : data.drop (base + pos) = part.bytes ++ rest) :
    decodeDst renv data base iphc2 ctx pos =
      .ok (decodedAddr ((usedDstCtx env hdr).map env.ctxs) hdr.dst, pos + part.bytes.length) := by
  rw [decodeDst_mask, hBits]
  rcases dstPart_cases hPart hUnicast with ⟨iid, hSend, hLocal, rfl⟩ | ⟨hUsed, rfl⟩
  · dsimp only at hDrop ⊢
    have hMode := decodeIid_iidPart hDrop
    cases hUsed : usedDstCtx env hdr with
    | none =>
      rw [decodeDst_local (iidMode_cases _ _), decodeLocal, hIid, hSend, hMode, ok_bind]
      simp only [linkLocal_setIid (hLocal hUsed) hUnicast, Option.map_none, decodedAddr]
    | some id =>
      rw [decodeDst_ctx (iidMode_cases _ _), hIid, hSend, hCtx id hUsed]
      simp only [decodeCtx, Option.map_some, hMode, ok_bind, decodedAddr, ctxAddr]
  · have hFull : decodeDst renv data base 0x00 ctx pos = decodeFull data base pos := rfl
    rw [hUsed, Option.map_none, hFull, decodeFull_ofFn hDrop]
    simp only [decodedAddr, List.length_ofFn]

/- The forms of a multicast address, and when each is used. -/
theorem mcastPart_cases
    (env : IphcSend) (hdr : Ipv6Hdr) :
    (mcastPart env hdr = ⟨0x0b, 0, [hdr.dst 15]⟩ ∧ hdr.dst 1 = 0x02 ∧
      ∀ i : Fin 16, 2 ≤ i → i ≤ 14 → hdr.dst i = 0) ∨ (mcastPart env hdr =
        ⟨0x0a, 0, [hdr.dst 1, hdr.dst 13, hdr.dst 14, hdr.dst 15]⟩ ∧
      ∀ i : Fin 16, 2 ≤ i → i ≤ 12 → hdr.dst i = 0) ∨ (mcastPart env hdr =
        ⟨0x09, 0, [hdr.dst 1, hdr.dst 11, hdr.dst 12, hdr.dst 13, hdr.dst 14, hdr.dst 15]⟩ ∧
      ∀ i : Fin 16, 2 ≤ i → i ≤ 10 → hdr.dst i = 0) ∨
    (mcastPart env hdr = ⟨0x08, 0, List.ofFn hdr.dst⟩) ∨ ∃ id, iphcMcastCtx env hdr = some id ∧
      mcastPart env hdr = ⟨0x0c, UInt8.ofNat id.val,
          [hdr.dst 1, hdr.dst 2, hdr.dst 12, hdr.dst 13, hdr.dst 14, hdr.dst 15]⟩ := by
  unfold mcastPart
  dsimp only
  split
  · rename_i hMid
    rcases hMid with ⟨h₂, h₃, h₄, h₅, h₆, h₇, h₈, h₉⟩
    split
    · rename_i hShort
      rcases hShort with ⟨h₁, h₁₀, h₁₁, h₁₂, h₁₃, h₁₄⟩
      refine Or.inl ⟨rfl, h₁, ?_⟩
      intro i hLo hHi
      fin_cases i <;> simp_all
    · split
      · rename_i hShort
        rcases hShort with ⟨h₁₀, h₁₁, h₁₂⟩
        refine Or.inr (Or.inl ⟨rfl, ?_⟩)
        intro i hLo hHi
        fin_cases i <;> simp_all
      · split
        · rename_i h₁₀
          refine Or.inr (Or.inr (Or.inl ⟨rfl, ?_⟩))
          intro i hLo hHi
          fin_cases i <;> simp_all
        · exact Or.inr (Or.inr (Or.inr (Or.inl rfl)))
  · split
    · rename_i id hCtx
      exact Or.inr (Or.inr (Or.inr (Or.inr ⟨id, hCtx, rfl⟩)))
    · exact Or.inr (Or.inr (Or.inr (Or.inl rfl)))

/- Multicast addresses that need no context. -/
theorem decodeDst_mcast
    (hBits : iphc2 &&& 0x0f = (mcastPart env hdr).bits)
    (hMulti : hdr.dst.isMulticast = true) (hForm : (mcastPart env hdr).bits ≠ 0x0c)
    (hDrop : data.drop (base + pos) = (mcastPart env hdr).bytes ++ rest) :
    decodeDst renv data base iphc2 ctx pos =
      .ok (hdr.dst, pos + (mcastPart env hdr).bytes.length) := by
  have hFirst : hdr.dst 0 = 0xff := by
    simpa [Ipv6Addr.isMulticast] using hMulti
  rw [decodeDst_mask, hBits]
  rcases mcastPart_cases env hdr with
    ⟨hPart, h₁, hZero⟩ | ⟨hPart, hZero⟩ | ⟨hPart, hZero⟩ | hPart | ⟨id, _, hPart⟩
  · rw [hPart] at hDrop ⊢
    have hMode : decodeDst renv data base 0x0b ctx pos = decodeMcast data base 3 pos := rfl
    rw [hMode, decodeMcast, if_neg (by decide), if_neg (by decide), iphcByte_of_drop hDrop, ok_bind]
    refine congrArg (fun a => Except.ok (a, pos + 1)) ?_
    funext i
    fin_cases i <;> simp [hFirst, h₁, hZero]
  · rw [hPart] at hDrop ⊢
    have hMode : decodeDst renv data base 0x0a ctx pos = decodeMcast data base 2 pos := rfl
    have hTail := drop_succ_of_drop hDrop
    rw [hMode, decodeMcast, if_neg (by decide), if_pos rfl, iphcByte_of_drop hDrop, ok_bind,
      iphcBytes_of_drop (n := 3) hTail rfl (by decide), ok_bind]
    refine congrArg (fun a => Except.ok (a, pos + 4)) ?_
    funext i
    fin_cases i <;> simp [hFirst, hZero]
  · rw [hPart] at hDrop ⊢
    have hMode : decodeDst renv data base 0x09 ctx pos = decodeMcast data base 1 pos := rfl
    have hTail := drop_succ_of_drop hDrop
    rw [hMode, decodeMcast, if_pos rfl, iphcByte_of_drop hDrop, ok_bind,
      iphcBytes_of_drop (n := 5) hTail rfl (by decide), ok_bind]
    refine congrArg (fun a => Except.ok (a, pos + 6)) ?_
    funext i
    fin_cases i <;> simp [hFirst, hZero]
  · rw [hPart] at hDrop ⊢
    have hFull : decodeDst renv data base 0x08 ctx pos = decodeFull data base pos := rfl
    rw [hFull, decodeFull_ofFn hDrop, List.length_ofFn]
  · rw [hPart] at hForm
    exact absurd rfl hForm

end

----
-- The Second Byte
----

section

variable {env : IphcSend} {renv : IphcRecv} {hdr : Ipv6Hdr} {data : List UInt8}
variable {base : Nat} {iphc2 cid : UInt8} {ctx : Option SixlowpanCtx}
variable {src dst part : IphcPart}

def srcForms : List UInt8 :=
  [0x00, 0x10, 0x20, 0x30, 0x40, 0x50, 0x60, 0x70]

def dstForms : List UInt8 :=
  [0x00, 0x01, 0x02, 0x03, 0x05, 0x06, 0x07, 0x08, 0x09, 0x0a, 0x0b, 0x0c]

set_option maxRecDepth 4000 in
theorem iphc1_masks :
    ∀ t ∈ [0x00, 0x08, 0x10, 0x18], ∀ n ∈ [0x00, 0x04],
      ∀ h ∈ [0x00, 0x01, 0x02, (0x03 : UInt8)], (0x60 ||| t ||| n ||| h) &&& 0x18 = t ∧
        (0x60 ||| t ||| n ||| h) &&& 0x04 = n ∧ (0x60 ||| t ||| n ||| h) &&& 0x03 = h := by
  decide

set_option maxRecDepth 4000 in
theorem iphc2_masks :
    ∀ c ∈ [0x00, (0x80 : UInt8)], ∀ s ∈ srcForms, ∀ d ∈ dstForms, (c ||| s ||| d) &&& 0x80 = c ∧
        (c ||| s ||| d) &&& 0x70 = s ∧ (c ||| s ||| d) &&& 0x0f = d := by
  decide

variable (env hdr) in
theorem iphcDisp_masks :
    iphcDisp env hdr &&& 0x18 = tfBits hdr ∧ iphcDisp env hdr &&& 0x04 = nhBits env hdr ∧
    iphcDisp env hdr &&& 0x03 = hlBits hdr := by
  apply iphc1_masks
  · unfold tfBits
    split
    · split <;> simp
    · split <;> simp
  · unfold nhBits
    split <;> simp
  · unfold hlBits
    split
    · simp
    · split
      · simp
      · split <;> simp

theorem srcPart_bits
    (hPart : srcPart env hdr = some part) :
    part.bits ∈ srcForms := by
  rcases srcPart_cases hPart with ⟨_, _, rfl⟩ | ⟨iid, _, _, rfl⟩ | ⟨_, rfl⟩
  · decide
  · dsimp only
    have hMode := iidMode_cases hdr.src iid
    generalize iidMode hdr.src iid = m at hMode
    unfold ctxBits
    split
    · rcases hMode with rfl | rfl | rfl <;> decide
    · rcases hMode with rfl | rfl | rfl <;> decide
  · simp [srcForms]

theorem mcastPart_bits :
    (mcastPart env hdr).bits ∈ dstForms := by
  rcases mcastPart_cases env hdr with ⟨hPart, _⟩ | ⟨hPart, _⟩ | ⟨hPart, _⟩ | hPart | ⟨_, _, hPart⟩
  all_goals
    rw [hPart]
    simp [dstForms]

theorem dstPart_multicast
    (hMulti : hdr.dst.isMulticast = true) :
    dstPart env hdr = some (mcastPart env hdr) := by
  rw [dstPart, if_pos hMulti]

theorem dstPart_bits
    (hPart : dstPart env hdr = some part) :
    part.bits ∈ dstForms := by
  cases hMulti : hdr.dst.isMulticast with
  | true =>
    cases (dstPart_multicast hMulti).symm.trans hPart
    exact mcastPart_bits
  | false =>
    rcases dstPart_cases hPart hMulti with ⟨iid, _, _, rfl⟩ | ⟨_, rfl⟩
    · dsimp only
      have hMode := iidMode_cases hdr.dst iid
      generalize iidMode hdr.dst iid = m at hMode
      unfold ctxBits
      split
      · rcases hMode with rfl | rfl | rfl <;> decide
      · rcases hMode with rfl | rfl | rfl <;> decide
    · simp [dstForms]

theorem iphc2_of_parts
    (hSrc : srcPart env hdr = some src) (hDst : dstPart env hdr = some dst) :
    (cidBits env hdr ||| src.bits ||| dst.bits) &&& 0x80 = cidBits env hdr ∧
      (cidBits env hdr ||| src.bits ||| dst.bits) &&& 0x70 = src.bits ∧
      (cidBits env hdr ||| src.bits ||| dst.bits) &&& 0x0f = dst.bits := by
  apply iphc2_masks _ _ _ (srcPart_bits hSrc) _ (dstPart_bits hDst)
  unfold cidBits
  split <;> simp

/- The bits for the byte of context identifiers. -/
theorem srcPart_cid
    (hPart : srcPart env hdr = some part) :
    part.cid = ctxCid (iphcSrcCtx env hdr) <<< 4 := by
  rcases srcPart_cases hPart with ⟨_, hCtx, rfl⟩ | ⟨iid, _, _, rfl⟩ | ⟨hCtx, rfl⟩
  · rw [hCtx]
    rfl
  · rfl
  · rw [hCtx]
    rfl

theorem dstPart_cid
    (hPart : dstPart env hdr = some part) (hUnicast : hdr.dst.isMulticast = false) :
    part.cid = ctxCid (usedDstCtx env hdr) := by
  rcases dstPart_cases hPart hUnicast with ⟨iid, _, _, rfl⟩ | ⟨hCtx, rfl⟩
  · rfl
  · rw [hCtx]
    rfl

theorem ctxValid_of_usedDstCtx
    {id : Fin 16} (hUsed : usedDstCtx env hdr = some id) :
    ctxValid (env.ctxs id) = true := by
  unfold usedDstCtx iphcDstCtx at hUsed
  split at hUsed
  · split at hUsed
    · cases hUsed
    · exact (ctxForComp_spec hUsed).1
  · cases hUsed

/- Without the flag for a context, that of before stays. -/
theorem decodeDstCtx_none
    (hBits : iphc2 &&& 0x04 = 0) :
    decodeDstCtx renv data base iphc2 ctx = .ok ctx := by
  rw [decodeDstCtx, if_neg (by simpa using hBits)]

/- The context that a unicast destination was sent with. -/
theorem decodeDstCtx_unicast
    (hCtxs : renv.ctxs = env.ctxs) (hPart : dstPart env hdr = some part)
    (hUnicast : hdr.dst.isMulticast = false) (hBits : iphc2 &&& 0x0f = part.bits)
    (hCid : decodeCid data base iphc2 = .ok cid)
    (hDci : cid &&& 0x0f = ctxCid (usedDstCtx env hdr)) :
    ∃ ctx', decodeDstCtx renv data base iphc2 ctx = .ok ctx' ∧
      ∀ id, usedDstCtx env hdr = some id → ctx' = some (env.ctxs id) := by
  have hDac : iphc2 &&& 0x04 = part.bits &&& 0x04 := by
    rw [← hBits, UInt8.and_assoc]
    rfl
  have hDam : iphc2 &&& 0x0b = part.bits &&& 0x0b := by
    rw [← hBits, UInt8.and_assoc]
    rfl
  cases hUsed : usedDstCtx env hdr with
  | none =>
    refine ⟨ctx, decodeDstCtx_none ?_, by simp⟩
    rw [hDac]
    rcases dstPart_cases hPart hUnicast with ⟨iid, _, _, rfl⟩ | ⟨_, rfl⟩
    · rw [hUsed]
      dsimp only
      rcases iidMode_cases hdr.dst iid with hm | hm | hm
      all_goals
        rw [hm]
        rfl
    · dsimp only
      decide
  | some id =>
    have hValid := ctxValid_of_usedDstCtx hUsed
    rw [hUsed] at hDci
    refine ⟨some (env.ctxs id), ?_, ?_⟩
    · rcases dstPart_cases hPart hUnicast with ⟨iid, _, _, rfl⟩ | ⟨hNone, _⟩
      · have hOn : ctxBits (some id) 0x04 = 0x04 := rfl
        dsimp only at hDac hDam
        rw [hUsed, hOn] at hDac hDam
        have hMode := iidMode_cases hdr.dst iid
        generalize iidMode hdr.dst iid = m at hMode hDac hDam
        unfold decodeDstCtx
        rw [hDac, hDam, if_pos, hCid, ok_bind, if_pos, hDci,
          ctxCid, hCtxs, ctxLookupId_ofNat hValid]
        · rcases hMode with rfl | rfl | rfl <;> decide
        · rcases hMode with rfl | rfl | rfl <;> decide
      · rw [hUsed] at hNone
        cases hNone
    · intro id' hId
      cases hId
      rfl

end

end Riot
