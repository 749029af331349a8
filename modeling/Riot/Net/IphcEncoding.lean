import Riot.Net.SixlowpanIphc

/-
  What the IPHC encoder writes.

  Each part of the IPv6 header sets bits of the dispatch and
  appends bytes. The encoder fails exactly when an identifier is
  missing or the bytes do not fit.
-/

----
-- Writing
----

namespace Riot

section

variable {room : Nat} {d₁ d₂ bits : UInt8} {out t bs : List UInt8}

theorem iphcPut_nil
    (hRoom : out.length ≤ room) :
    iphcPut room out [] = .ok out := by
  rw [iphcPut, if_pos (by simpa using hRoom), List.append_nil]

/- Two writes are one. -/
theorem iphcPut_bind
    {bs' : List UInt8} :
    (iphcPut room out bs >>= fun out => iphcPut room out bs') = iphcPut room out (bs ++ bs') := by
  simp only [iphcPut, List.length_append]
  by_cases hFits : out.length + bs.length ≤ room
  · simp only [if_pos hFits, ok_bind, List.length_append, List.append_assoc, Nat.add_assoc]
  · rw [if_neg hFits, if_neg (by omega), error_bind]

theorem iphcOr_zero
    (hRoom : 2 + t.length ≤ room) :
    iphcOr room (d₁ :: d₂ :: t) 0 bits = .ok ((d₁ ||| bits) :: d₂ :: t) := by
  rw [iphcOr, if_pos (by omega)]
  rfl

theorem iphcOr_one
    (hRoom : 2 + t.length ≤ room) :
    iphcOr room (d₁ :: d₂ :: t) 1 bits = .ok (d₁ :: (d₂ ||| bits) :: t) := by
  rw [iphcOr, if_pos (by omega)]
  rfl

theorem iphcOr_two
    (hRoom : 2 + t.length ≤ room) (hCid : t ≠ []) :
    iphcOr room (d₁ :: d₂ :: t) 2 bits = .ok (d₁ :: d₂ :: t.modify 0 (· ||| bits)) := by
  have hPos := List.length_pos_of_ne_nil hCid
  rw [iphcOr, if_pos (by omega)]
  rfl

theorem modify_or_zero :
    t.modify 0 (· ||| (0 : UInt8)) = t := by
  cases t with
  | nil => rfl
  | cons b t => simp [List.modify]

end

----
-- Traffic Class, Next Header and Hop Limit
----

section

variable (env : IphcSend) (hdr : Ipv6Hdr)

def tfBits : UInt8 :=
  if hdr.getFl = 0 then
    if hdr.getTc = 0 then 0x18 else 0x10
  else if hdr.getTcDscp = 0 then 0x08 else 0x00

def tfBytes : List UInt8 :=
  let fl := hdr.getFl
  if fl = 0 then
    if hdr.getTc = 0 then [] else [hdr.getTc]
  else if hdr.getTcDscp = 0 then
    [(hdr.getTcEcn <<< 6) |||
        UInt8.ofNat ((fl &&& 0x000f0000) >>> 16), UInt8.ofNat ((fl &&& 0x0000ff00) >>> 8),
      UInt8.ofNat (fl &&& 0x000000ff)]
  else
    [hdr.getTc, UInt8.ofNat ((fl &&& 0x000f0000) >>> 16),
      UInt8.ofNat ((fl &&& 0x0000ff00) >>> 8), UInt8.ofNat (fl &&& 0x000000ff)]

def nhBits : UInt8 :=
  if compressibleNh env.nhc hdr.nh then 0x04 else 0

def nhBytes : List UInt8 :=
  if compressibleNh env.nhc hdr.nh then [] else [hdr.nh]

def hlBits : UInt8 :=
  if hdr.hl = 1 then 0x01
  else if hdr.hl = 64 then 0x02
  else if hdr.hl = 255 then 0x03
  else 0x00

def hlBytes : List UInt8 :=
  if hdr.hl = 1 ∨ hdr.hl = 64 ∨ hdr.hl = 255 then []
  else [hdr.hl]

variable {room : Nat} {d₁ d₂ : UInt8} {t : List UInt8}

theorem encodeTf_eq
    (hRoom : 2 + t.length ≤ room) :
    encodeTf room hdr (d₁ :: d₂ :: t) =
      iphcPut room ((d₁ ||| tfBits hdr) :: d₂ :: t) (tfBytes hdr) := by
  have hLen : ∀ b, ((d₁ ||| b) :: d₂ :: t).length ≤ room := by
    intro b
    simp only [List.length_cons]
    omega
  unfold encodeTf tfBits tfBytes
  by_cases hFl : hdr.getFl = 0
  · by_cases hTc : hdr.getTc = 0
    · simp only [hFl, hTc, if_true, iphcOr_zero hRoom, iphcPut_nil (hLen _)]
    · simp only [hFl, hTc, if_true, if_false, iphcOr_zero hRoom, ok_bind]
  · by_cases hDscp : hdr.getTcDscp = 0
    · simp only [hFl, hDscp, if_true, if_false, iphcOr_zero hRoom, ok_bind, iphcPut_bind,
        List.cons_append, List.nil_append]
    · simp only [hFl, hDscp, if_false, iphcOr_zero hRoom, ok_bind, iphcPut_bind, List.cons_append,
        List.nil_append]

theorem encodeNh_eq
    (hRoom : 2 + t.length ≤ room) :
    encodeNh env room hdr (d₁ :: d₂ :: t) =
      iphcPut room ((d₁ ||| nhBits env hdr) :: d₂ :: t) (nhBytes env hdr) := by
  unfold encodeNh nhBits nhBytes
  split
  · rw [iphcOr_zero hRoom, iphcPut_nil]
    simp only [List.length_cons]
    omega
  · rw [UInt8.or_zero]

theorem encodeHl_eq
    (hRoom : 2 + t.length ≤ room) :
    encodeHl room hdr (d₁ :: d₂ :: t) =
      iphcPut room ((d₁ ||| hlBits hdr) :: d₂ :: t) (hlBytes hdr) := by
  have hLen : ∀ b, ((d₁ ||| b) :: d₂ :: t).length ≤ room := by
    intro b
    simp only [List.length_cons]
    omega
  unfold encodeHl hlBits hlBytes
  by_cases h₁ : hdr.hl = 1
  · simp [h₁, iphcOr_zero hRoom, iphcPut_nil (hLen _)]
  · by_cases h₂ : hdr.hl = 64
    · simp [h₂, iphcOr_zero hRoom, iphcPut_nil (hLen _)]
    · by_cases h₃ : hdr.hl = 255
      · simp [h₃, iphcOr_zero hRoom, iphcPut_nil (hLen _)]
      · simp only [h₁, h₂, h₃, if_false, or_self, iphcOr_zero hRoom, ok_bind]

end

----
-- Addresses
----

/- The bits of the dispatch and of the context byte. -/
structure IphcPart where
  bits : UInt8
  cid : UInt8
  bytes : List UInt8
deriving DecidableEq

section

variable (env : IphcSend) (hdr : Ipv6Hdr) {addr : Ipv6Addr} {id : Fin 16}

/- An address of which only the identifier is sent. -/
def iidPart
    (addr : Ipv6Addr) (iid : Eui64) (sam64 : UInt8) : UInt8 × List UInt8 :=
  if addr.iid = iid then (3 * sam64, [])
  else if addr 8 = 0 ∧ addr 9 = 0 ∧ addr 10 = 0 ∧
      addr 11 = 0xff ∧ addr 12 = 0xfe ∧ addr 13 = 0 then
    (2 * sam64, [addr 14, addr 15])
  else (sam64, List.ofFn addr.iid)

/- The bits for a context and its identifier. -/
def ctxBits
    (ctx : Option (Fin 16)) (bits : UInt8) : UInt8 :=
  if ctx.isSome then bits else 0

def ctxCid
    (ctx : Option (Fin 16)) : UInt8 :=
  match ctx with
  | some id => UInt8.ofNat id.val
  | none => 0

def srcPart : Option IphcPart :=
  if hdr.src.isUnspecified then
    some ⟨0x40, 0, []⟩
  else
    let ctx := iphcSrcCtx env hdr
    if ctx.isSome || hdr.src.isLinkLocal then
      env.ifaceIid.map (fun iid =>
        let part := iidPart hdr.src iid 0x10
        ⟨ctxBits ctx 0x40 ||| part.1, ctxCid ctx <<< 4, part.2⟩)
    else
      some ⟨0x00, 0, List.ofFn hdr.src⟩

def mcastPart : IphcPart :=
  let d := hdr.dst
  if d 2 = 0 ∧ d 3 = 0 ∧ d 4 = 0 ∧ d 5 = 0 ∧ d 6 = 0 ∧
      d 7 = 0 ∧ d 8 = 0 ∧ d 9 = 0 then
    if d 1 = 0x02 ∧ d 10 = 0 ∧ d 11 = 0 ∧ d 12 = 0 ∧
        d 13 = 0 ∧ d 14 = 0 then
      ⟨0x0b, 0, [d 15]⟩
    else if d 10 = 0 ∧ d 11 = 0 ∧ d 12 = 0 then
      ⟨0x0a, 0, [d 1, d 13, d 14, d 15]⟩
    else if d 10 = 0 then
      ⟨0x09, 0, [d 1, d 11, d 12, d 13, d 14, d 15]⟩
    else
      ⟨0x08, 0, List.ofFn d⟩
  else
    match iphcMcastCtx env hdr with
    | some id => ⟨0x0c, UInt8.ofNat id.val, [d 1, d 2, d 12, d 13, d 14, d 15]⟩
    | none => ⟨0x08, 0, List.ofFn d⟩

def dstPart : Option IphcPart :=
  if hdr.dst.isMulticast then
    some (mcastPart env hdr)
  else
    let ctx := iphcDstCtx env hdr
    if (ctx.isSome || hdr.dst.isLinkLocal) &&
        env.dstL2addrLen > 0 then
      env.dstIid.map (fun iid =>
        let part := iidPart hdr.dst iid 0x01
        ⟨ctxBits ctx 0x04 ||| part.1, ctxCid ctx, part.2⟩)
    else
      some ⟨0x00, 0, List.ofFn hdr.dst⟩

/- Whether a byte for context identifiers is sent. -/
def cidExt : Bool :=
  ctxNonZero (iphcSrcCtx env hdr) || ctxNonZero (iphcDstCtx env hdr)

variable {env hdr} {room : Nat} {d₁ d₂ : UInt8} {t : List UInt8}

/- A context in use has the flag for compression. -/
theorem comp_of_ctxForComp
    (hCtx : ctxForComp env.ctxs addr = some id) :
    (env.ctxs id).comp = true := by
  rcases Option.filter_eq_some_iff.mp hCtx with ⟨_, hComp⟩
  exact hComp

theorem contextOverlapsIid_eq_false
    {ctx : Option (Fin 16)} {iid : Eui64}
    (hComp : ∀ id, ctx = some id → (env.ctxs id).comp = true) :
    contextOverlapsIid env.ctxs ctx addr iid = false := by
  cases ctx with
  | none => rfl
  | some id => simp [contextOverlapsIid, hComp id rfl]

theorem comp_of_iphcSrcCtx
    (hCtx : iphcSrcCtx env hdr = some id) :
    (env.ctxs id).comp = true := by
  unfold iphcSrcCtx at hCtx
  split at hCtx
  · cases hCtx
  · exact comp_of_ctxForComp hCtx

theorem comp_of_iphcDstCtx
    (hCtx : iphcDstCtx env hdr = some id) :
    (env.ctxs id).comp = true := by
  unfold iphcDstCtx at hCtx
  split at hCtx
  · cases hCtx
  · exact comp_of_ctxForComp hCtx

section

variable (hRoom : 2 + t.length ≤ room)

include hRoom

theorem encodeIid_eq
    {iid : Eui64} {sam64 : UInt8} :
    encodeIid room false addr iid sam64 (d₁ :: d₂ :: t) =
      iphcPut room (d₁ :: (d₂ ||| (iidPart addr iid sam64).1) :: t) (iidPart addr iid sam64).2 := by
  unfold encodeIid iidPart
  by_cases hIid : addr.iid = iid
  · simp only [hIid, true_or, if_true, iphcOr_one hRoom]
    rw [iphcPut_nil]
    simp only [List.length_cons]
    omega
  · simp only [hIid, false_or, Bool.false_eq_true, if_false, iphcOr_one hRoom, ok_bind]
    split
    · rfl
    · rfl

/- Set the bits for a context. -/
theorem encodeCtx_eq
    {ctx : Option (Fin 16)} {bits : UInt8} {cid : Fin 16 → UInt8}
    (hExt : ctxNonZero ctx = true → t ≠ []) (hCid : cid 0 = 0) :
    encodeCtx room ctx bits cid (d₁ :: d₂ :: t) =
      .ok (d₁ :: (d₂ ||| ctxBits ctx bits) :: t.modify 0 (· ||| ctx.elim 0 cid)) := by
  unfold encodeCtx
  cases ctx with
  | none =>
    rw [Option.elim_none, modify_or_zero]
    simp [ctxBits]
  | some id =>
    simp only [iphcOr_one hRoom, ok_bind, ctxBits, Option.isSome_some, if_true, Option.elim_some]
    split
    · rename_i hId
      exact iphcOr_two hRoom (hExt (by simpa [ctxNonZero] using hId))
    · rename_i hId
      have hZero : id = 0 := by
        simpa using hId
      rw [hZero, hCid, modify_or_zero]

theorem encodeSrc_eq
    (hExt : ctxNonZero (iphcSrcCtx env hdr) = true → t ≠ []) :
    encodeSrc env room hdr (d₁ :: d₂ :: t) = match srcPart env hdr with
      | none => .error .zero
      | some part =>
        iphcPut room (d₁ :: (d₂ ||| part.bits) :: t.modify 0 (· ||| part.cid)) part.bytes := by
  unfold encodeSrc srcPart
  by_cases hUnspec : hdr.src.isUnspecified
  · simp only [hUnspec, if_true, iphcOr_one hRoom, modify_or_zero]
    rw [iphcPut_nil]
    simp only [List.length_cons]
    omega
  · simp only [hUnspec, Bool.false_eq_true, if_false]
    rw [encodeCtx_eq hRoom hExt rfl, ok_bind]
    split
    · have hOverlap : ∀ iid,
          contextOverlapsIid env.ctxs (iphcSrcCtx env hdr) hdr.src iid = false :=
        fun iid => contextOverlapsIid_eq_false (fun id hCtx => comp_of_iphcSrcCtx hCtx)
      cases env.ifaceIid with
      | none => rfl
      | some iid =>
        simp only [hOverlap, Option.map_some]
        rw [encodeIid_eq (by simpa using hRoom), UInt8.or_assoc]
        cases iphcSrcCtx env hdr <;> rfl
    · rename_i hNone
      have hCtx : iphcSrcCtx env hdr = none := by
        simp only [Bool.or_eq_true, not_or, Option.not_isSome_iff_eq_none] at hNone
        exact hNone.1
      simp only [hCtx, Option.elim_none, modify_or_zero]
      rw [iphcOr_one hRoom, ok_bind]
      simp [ctxBits]

/-
  The bits of a context for which there may be no byte. They
  then go into the byte that comes first, or into one that is
  written next.
-/
theorem iphcOr_two_put
    {b : UInt8} {bs : List UInt8} :
    (if id ≠ 0 then do
        let out ← iphcOr room (d₁ :: d₂ :: t) 2 (UInt8.ofNat id.val)
        iphcPut room out (b :: bs)
      else iphcPut room (d₁ :: d₂ :: t) (b :: bs)) =
      iphcPut room (d₁ :: d₂ :: t.modify 0 (· ||| UInt8.ofNat id.val)) (b :: bs) := by
  by_cases hId : id = 0
  · rw [if_neg (by simpa using hId), hId]
    have hZero : UInt8.ofNat (0 : Fin 16).val = 0 := rfl
    rw [hZero, modify_or_zero]
  · rw [if_pos hId]
    cases t with
    | cons c t => rw [iphcOr_two hRoom (by simp), ok_bind]
    | nil =>
      by_cases hTwo : 2 < room
      · rw [iphcOr, if_pos hTwo, ok_bind]
        rfl
      · rw [iphcOr, if_neg hTwo, error_bind, iphcPut, if_neg]
        simp only [List.modify_nil, List.length_cons, List.length_nil]
        omega

theorem encodeMcast_eq :
    encodeMcast env room hdr (d₁ :: d₂ :: t) = iphcPut room
        (d₁ :: (d₂ ||| (mcastPart env hdr).bits) :: t.modify 0 (· ||| (mcastPart env hdr).cid))
        (mcastPart env hdr).bytes := by
  unfold encodeMcast mcastPart encodeDstFull
  simp only [iphcOr_one hRoom, ok_bind]
  split
  · split
    · simp only [iphcOr_one hRoom, ok_bind, UInt8.or_assoc, modify_or_zero]
      rfl
    · split
      · simp only [iphcOr_one hRoom, ok_bind, iphcPut_bind, UInt8.or_assoc, modify_or_zero]
        rfl
      · split
        · simp only [iphcOr_one hRoom, ok_bind, iphcPut_bind, UInt8.or_assoc, modify_or_zero]
          rfl
        · simp only [iphcOr_one hRoom, ok_bind, UInt8.or_assoc, modify_or_zero]
          rfl
  · cases iphcMcastCtx env hdr with
    | some id =>
      simp only [iphcOr_one hRoom, ok_bind, iphcPut_bind, List.cons_append, List.nil_append]
      rw [iphcOr_two_put hRoom, UInt8.or_assoc]
      rfl
    | none =>
      simp only [iphcOr_one hRoom, ok_bind, UInt8.or_assoc, modify_or_zero]
      rfl

theorem encodeDst_eq
    (hExt : ctxNonZero (iphcDstCtx env hdr) = true → t ≠ []) :
    encodeDst env room hdr (d₁ :: d₂ :: t) = match dstPart env hdr with
      | none => .error .zero
      | some part =>
        iphcPut room (d₁ :: (d₂ ||| part.bits) :: t.modify 0 (· ||| part.cid)) part.bytes := by
  unfold encodeDst dstPart encodeDstFull
  by_cases hMulti : hdr.dst.isMulticast
  · simp only [hMulti, if_true]
    exact encodeMcast_eq hRoom
  · simp only [hMulti, Bool.false_eq_true, if_false]
    split
    · rw [encodeCtx_eq hRoom hExt rfl, ok_bind]
      have hOverlap : ∀ iid,
          contextOverlapsIid env.ctxs (iphcDstCtx env hdr) hdr.dst iid = false :=
        fun iid => contextOverlapsIid_eq_false (fun id hCtx => comp_of_iphcDstCtx hCtx)
      cases env.dstIid with
      | none => rfl
      | some iid =>
        simp only [hOverlap, Option.map_some]
        rw [encodeIid_eq (by simpa using hRoom), UInt8.or_assoc]
        cases iphcDstCtx env hdr <;> rfl
    · rw [iphcOr_one hRoom, ok_bind]
      simp only [modify_or_zero]

end

end

----
-- The Whole Header
----

section

variable (env : IphcSend) (hdr : Ipv6Hdr)

def cidBits : UInt8 :=
  if cidExt env hdr then 0x80 else 0x00

/- The context byte and what comes before the addresses. -/
def iphcFields : List UInt8 :=
  (if cidExt env hdr then [0] else []) ++ tfBytes hdr ++ nhBytes env hdr ++ hlBytes hdr

/- The bits of the first byte. -/
def iphcDisp : UInt8 :=
  0x60 ||| tfBits hdr ||| nhBits env hdr ||| hlBits hdr

/- The header up to its source address. -/
def iphcSrcOut
    (src : IphcPart) : List UInt8 :=
  (iphcFields env hdr).modify 0 (· ||| src.cid) ++ src.bytes

/- The bytes of a header whose addresses are these parts. -/
def iphcOut
    (src dst : IphcPart) : List UInt8 :=
  iphcDisp env hdr :: (cidBits env hdr ||| src.bits ||| dst.bits) ::
    ((iphcSrcOut env hdr src).modify 0 (· ||| dst.cid) ++ dst.bytes)

/- What the encoder returns, unless it returns 0. -/
def iphcResult : Option (List UInt8) := do
  let src ← srcPart env hdr
  let dst ← dstPart env hdr
  some (iphcOut env hdr src dst)

/- The number of bytes written until the encoder returns. -/
def iphcLen : Nat :=
  match srcPart env hdr with
  | none => 2 + (iphcFields env hdr).length
  | some src =>
    2 + (iphcFields env hdr).length + src.bytes.length +
      (match dstPart env hdr with
        | none => 0
        | some dst => dst.bytes.length)

variable {env hdr} {room : Nat}

theorem iphcPut_eq
    {out bs : List UInt8} :
    iphcPut room out bs = iphcPut room [] (out ++ bs) := by
  simp [iphcPut]

/- A part of the header after the others. -/
theorem iphcPut_stage
    {A A' : List UInt8} {f : List UInt8 → Except IphcErr (List UInt8)}
    (hStage : A.length ≤ room → f A = iphcPut room [] A')
    (hLe : A.length ≤ A'.length) :
    (iphcPut room [] A >>= f) = iphcPut room [] A' := by
  by_cases hFits : A.length ≤ room
  · have hPut : iphcPut room [] A = .ok A := by
      simp [iphcPut, hFits]
    rw [hPut, ok_bind, hStage hFits]
  · have hPut : iphcPut room [] A = .error .outside := by
      simp [iphcPut, hFits]
    have hPut' : iphcPut room [] A' = .error .outside := by
      have hMore : ¬ A'.length ≤ room := by
        omega
      simp [iphcPut, hMore]
    rw [hPut, hPut', error_bind]

theorem iphcPut_bind_error
    {α : Type} {A : List UInt8} {f : List UInt8 → Except IphcErr α}
    (hStage : A.length ≤ room → f A = .error .zero) :
    (iphcPut room [] A >>= f) = if A.length ≤ room then .error .zero else .error .outside := by
  by_cases hFits : A.length ≤ room
  · have hPut : iphcPut room [] A = .ok A := by
      simp [iphcPut, hFits]
    rw [hPut, ok_bind, hStage hFits, if_pos hFits]
  · have hPut : iphcPut room [] A = .error .outside := by
      simp [iphcPut, hFits]
    rw [hPut, error_bind, if_neg hFits]

theorem encodeDispatch_eq :
    encodeDispatch env room hdr =
      iphcPut room [] (0x60 :: cidBits env hdr :: (if cidExt env hdr then [0] else [])) := by
  unfold encodeDispatch cidBits cidExt
  by_cases hTwo : 2 ≤ room
  · have hOne : iphcPut room [] [0x60] = .ok [0x60] := if_pos (by simp; omega)
    have hZero : iphcPut room [0x60] [0] = .ok [0x60, 0] := if_pos (by simpa using hTwo)
    rw [hOne, ok_bind, hZero, ok_bind]
    split
    · rw [iphcOr_one (by simpa using hTwo), ok_bind]
      exact iphcPut_eq
    · have hAll : iphcPut room [] [0x60, 0] = .ok [0x60, 0] := if_pos (by simpa using hTwo)
      rw [hAll]
  · have hRight : ∀ b bs, iphcPut room [] (0x60 :: b :: bs) = .error .outside := by
      intro b bs
      apply if_neg
      simp only [List.length_nil, List.length_cons]
      omega
    rw [hRight]
    by_cases hOne : 1 ≤ room
    · have hFirst : iphcPut room [] [0x60] = .ok [0x60] := if_pos (by simpa using hOne)
      have hSecond : iphcPut room [0x60] [0] = .error .outside := if_neg (by simpa using hTwo)
      rw [hFirst, ok_bind, hSecond, error_bind]
    · have hFirst : iphcPut room [] [0x60] = .error .outside := if_neg (by simpa using hOne)
      rw [hFirst, error_bind]

theorem room_of_cons
    {d₁ d₂ : UInt8} {t : List UInt8} (hFits : (d₁ :: d₂ :: t).length ≤ room) :
    2 + t.length ≤ room := by
  simp only [List.length_cons] at hFits
  omega

/- The header without its addresses. -/
theorem encodeFields_eq :
    (do
      let out ← encodeDispatch env room hdr
      let out ← encodeTf room hdr out
      let out ← encodeNh env room hdr out
      encodeHl room hdr out) =
      iphcPut room [] (iphcDisp env hdr :: cidBits env hdr :: iphcFields env hdr) := by
  have hTf : (encodeDispatch env room hdr >>= encodeTf room hdr) = iphcPut room []
        ((0x60 ||| tfBits hdr) :: cidBits env hdr ::
          ((if cidExt env hdr then [0] else []) ++ tfBytes hdr)) := by
    rw [encodeDispatch_eq]
    apply iphcPut_stage
    · intro hFits
      rw [encodeTf_eq hdr (room_of_cons hFits), iphcPut_eq]
      rfl
    · simp
  have hNh : (encodeDispatch env room hdr >>= encodeTf room hdr >>= encodeNh env room hdr) =
      iphcPut room []
        ((0x60 ||| tfBits hdr ||| nhBits env hdr) :: cidBits env hdr ::
          ((if cidExt env hdr then [0] else []) ++ tfBytes hdr ++ nhBytes env hdr)) := by
    rw [hTf]
    apply iphcPut_stage
    · intro hFits
      rw [encodeNh_eq env hdr (room_of_cons hFits), iphcPut_eq]
      rfl
    · simp
  have hHl : (encodeDispatch env room hdr >>= encodeTf room hdr >>=
        encodeNh env room hdr >>= encodeHl room hdr) =
      iphcPut room [] (iphcDisp env hdr :: cidBits env hdr :: iphcFields env hdr) := by
    rw [hNh]
    apply iphcPut_stage
    · intro hFits
      rw [encodeHl_eq hdr (room_of_cons hFits), iphcPut_eq]
      rfl
    · simp [iphcFields]
  rw [← hHl]
  simp only [bind_assoc]

/- There is a byte for a context that is not the first. -/
theorem iphcFields_ne_nil
    (hExt : cidExt env hdr = true) :
    iphcFields env hdr ≠ [] := by
  simp [iphcFields, hExt]

/- The encoder fails when its bytes do not fit. -/
theorem iphcIpv6Encode_eq :
    iphcIpv6Encode env room hdr = if iphcLen env hdr ≤ room then match iphcResult env hdr with
        | some out => .ok out
        | none => .error .zero
      else .error .outside := by
  have hSplit : iphcIpv6Encode env room hdr = ((do
          let out ← encodeDispatch env room hdr
          let out ← encodeTf room hdr out
          let out ← encodeNh env room hdr out
          encodeHl room hdr out) >>=
          encodeSrc env room hdr >>= encodeDst env room hdr) := by
    simp only [iphcIpv6Encode, bind_assoc]
  have hSrcExt : ctxNonZero (iphcSrcCtx env hdr) = true → iphcFields env hdr ≠ [] :=
    fun h => iphcFields_ne_nil (by simp [cidExt, h])
  rw [hSplit, encodeFields_eq]
  unfold iphcLen iphcResult
  cases hSrc : srcPart env hdr with
  | none =>
    have hZero : (iphcPut room []
          (iphcDisp env hdr :: cidBits env hdr :: iphcFields env hdr) >>= encodeSrc env room hdr >>=
          encodeDst env room hdr) =
        if (iphcDisp env hdr :: cidBits env hdr :: iphcFields env hdr).length ≤ room then
          .error .zero
        else .error .outside := by
      rw [bind_assoc]
      apply iphcPut_bind_error
      intro hFits
      rw [encodeSrc_eq (room_of_cons hFits) hSrcExt, hSrc]
      rfl
    rw [hZero]
    simp only [List.length_cons, Option.bind_eq_bind, Option.bind_none]
    congr 1
    simp only [eq_iff_iff]
    omega
  | some src =>
    have hPut : (iphcPut room [] (iphcDisp env hdr :: cidBits env hdr :: iphcFields env hdr) >>=
          encodeSrc env room hdr) =
        iphcPut room []
          (iphcDisp env hdr :: (cidBits env hdr ||| src.bits) :: iphcSrcOut env hdr src) := by
      apply iphcPut_stage
      · intro hFits
        rw [encodeSrc_eq (room_of_cons hFits) hSrcExt, hSrc]
        exact iphcPut_eq
      · simp [iphcSrcOut]
    have hDstExt : ctxNonZero (iphcDstCtx env hdr) = true → iphcSrcOut env hdr src ≠ [] := by
      intro h hNil
      have hFields : iphcFields env hdr ≠ [] := iphcFields_ne_nil (by simp [cidExt, h])
      rcases List.append_eq_nil_iff.mp hNil with ⟨hMod, _⟩
      have hLen := congrArg List.length hMod
      rw [List.length_modify] at hLen
      exact hFields (List.eq_nil_of_length_eq_zero hLen)
    have hLenSrc :
        (iphcSrcOut env hdr src).length = (iphcFields env hdr).length + src.bytes.length := by
      simp [iphcSrcOut]
    rw [hPut]
    cases hDst : dstPart env hdr with
    | none =>
      rw [iphcPut_bind_error (f := encodeDst env room hdr)]
      · simp only [List.length_cons, hLenSrc, Option.bind_eq_bind, Option.bind_some,
          Option.bind_none]
        congr 1
        simp only [eq_iff_iff]
        omega
      · intro hFits
        rw [encodeDst_eq (room_of_cons hFits) hDstExt, hDst]
    | some dst =>
      have hAll : (iphcPut room []
            (iphcDisp env hdr :: (cidBits env hdr ||| src.bits) :: iphcSrcOut env hdr src) >>=
            encodeDst env room hdr) = iphcPut room [] (iphcOut env hdr src dst) := by
        apply iphcPut_stage
        · intro hFits
          rw [encodeDst_eq (room_of_cons hFits) hDstExt, hDst]
          exact iphcPut_eq
        · simp [iphcOut]
      have hLen : (iphcOut env hdr src dst).length =
            2 + (iphcFields env hdr).length + src.bytes.length + dst.bytes.length := by
        simp only [iphcOut, List.length_cons, List.length_append, List.length_modify, hLenSrc]
        omega
      rw [hAll, iphcPut]
      simp only [List.length_nil, Nat.zero_add, hLen, List.nil_append, Option.bind_eq_bind,
        Option.bind_some]

end

end Riot
