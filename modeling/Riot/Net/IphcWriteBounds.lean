import Riot.Net.IphcEncoding
import Riot.Net.IphcLengths
import Riot.Net.SixlowpanIphcSend

/-
  What compression writes into the dispatch.

  The size of the dispatch is counted from the types of the
  snips, but what is written follows the next header fields. So
  nothing is written outside exactly when the lengths that the
  headers get fit into the size that was counted.
-/

open ByteBuffer

----
-- Lengths of Compressed Headers
----

namespace Riot

section

variable (env : IphcSendEnv)

/- The size of the headers, when there is memory enough. -/
def countedSize : List PktSnip → Nat
| [] => 0
| hdr :: pkt =>
  if compressible env hdr then
    if hdr.type = .undef then 8
    else hdr.data.length + countedSize pkt
  else 0

def udpSentLen
    (hdr : PktSnip) : Nat :=
  let srcPort := fromNetwork [snipByte env hdr 0, snipByte env hdr 1]
  let dstPort := fromNetwork [snipByte env hdr 2, snipByte env hdr 3]
  if srcPort &&& 0xfff0 = 0xf0b0 ∧ dstPort &&& 0xfff0 = 0xf0b0 then
    4
  else if dstPort &&& 0xff00 = 0xf000 ∨
      srcPort &&& 0xff00 = 0xf000 then
    6
  else 7

def extHdrLen
    (hdr : PktSnip) : Nat :=
  (snipByte env hdr 1).toNat * 8 + 8

/- One byte more, unless the next header is compressed. -/
def extSentLen
    (hdr : PktSnip) (nh : UInt8) : Nat :=
  extHdrLen env hdr + (if extNhCompressed env hdr nh then 0 else 1)

/- The next header, and the snip behind as an IPHC header. -/
def ipv6SentLen
    (hdr next : PktSnip) : Nat :=
  (nhcIpv6Nh env (snipByte env hdr 6)).length + iphcLen env.toIphcSend (ipv6HdrOf env next)

def withoutHeader
    (hdr : PktSnip) (pkt : List PktSnip) (size : Nat) : List PktSnip :=
  if hdr.data.length > size then
    { hdr with data := hdr.data.drop size } :: pkt
  else pkt

/- The next headers from `pos` on fit into the dispatch. -/
def NextFits
    (room : Nat) : Nat → Nat → UInt8 → List PktSnip → Prop
| 0, _, _, _ => True
| _ + 1, _, _, [] => True
| n + 1, pos, nh, hdr :: pkt =>
  compressibleNh env.nhc nh = true →
  if nh = protnumUdp then
    8 ≤ hdr.data.length → pos + udpSentLen env hdr ≤ room
  else if nh = protnumIpv6 then
    40 ≤ hdr.data.length → pos + (nhcIpv6Nh env (snipByte env hdr 6)).length ≤ room ∧
      ∀ next rest, pkt = next :: rest → pos + ipv6SentLen env hdr next ≤ room ∧
        ((iphcResult env.toIphcSend
          (ipv6HdrOf env next)).isSome = true →
          NextFits room n
            ((pos + ipv6SentLen env hdr next) % 2 ^ 16)
            (snipByte env hdr 6) (withoutHeader hdr pkt 40))
  else
    extHdrLen env hdr ≤ hdr.data.length → extHdrLen env hdr ≤ 257 →
      pos + extSentLen env hdr nh ≤ room ∧ (extNhCompressed env hdr nh = true →
        NextFits room n
          ((pos + extSentLen env hdr nh) % 2 ^ 16)
          (snipByte env hdr 0)
          (withoutHeader hdr pkt (extHdrLen env hdr)))

/- All compressed headers fit into the size that is counted. -/
def SendFits
    (pkt : List PktSnip) : Prop :=
  countedSize env pkt ≠ 0 → ∀ first rest, pkt = first :: rest →
      iphcLen env.toIphcSend (ipv6HdrOf env first) ≤ countedSize env pkt + 1 ∧
      ((iphcResult env.toIphcSend
        (ipv6HdrOf env first)).isSome = true →
        NextFits env (countedSize env pkt + 1)
          (encodeRounds rest)
          (iphcLen env.toIphcSend (ipv6HdrOf env first))
          (ipv6HdrOf env first).nh rest)

end

----
-- One Next Header
----

section

variable {env : IphcSendEnv} {round limit : Nat} {full : Prop}
variable {st : NhcEncodeState} {hdr : PktSnip} {pkt : List PktSnip}

theorem nhcPut_outcome
    {dispatch bs : List UInt8} {pos : Nat} (hIn : pos + bs.length ≤ limit) :
    EndsWith (readErr dispatch.length limit full)
      (fun d => d.length = dispatch.length ∧ pos + bs.length ≤ dispatch.length)
      (nhcPut dispatch pos bs) := by
  unfold nhcPut
  by_cases hFits : pos + bs.length ≤ dispatch.length
  · rcases length_writeBytes dispatch bs pos hFits with ⟨d, hWrite, hLen⟩
    rw [hWrite]
    exact ⟨hLen, hFits⟩
  · have hNone : writeBytes dispatch pos bs = none := if_neg hFits
    rw [hNone]
    exact Nat.lt_of_lt_of_le (Nat.not_le.mp hFits) hIn

theorem removeHeader_outcome
    {size room : Nat} (hMark : full → ∀ k, env.mark k = true) :
    EndsWith (readErr room limit full) (fun p => p = withoutHeader hdr pkt size)
      (removeHeader env round hdr pkt size) := by
  unfold removeHeader withoutHeader
  split
  · split
    · exact rfl
    · rename_i hNo
      apply EndsWith.error
      intro hFull
      exact hNo (hMark hFull round)
  · exact rfl

theorem length_nhcUdpEncode :
    (nhcUdpEncode env hdr).length = udpSentLen env hdr := by
  unfold nhcUdpEncode udpSentLen
  dsimp only
  split
  · rfl
  · split
    · rename_i hDst
      rw [if_pos (Or.inl hDst)]
      rfl
    · rename_i hDst
      split
      · rename_i hSrc
        rw [if_pos (Or.inr hSrc)]
        rfl
      · rename_i hSrc
        rw [if_neg (by simp [hDst, hSrc])]
        rfl

/- UDP is the last of the chain. -/
theorem nhcUdpEncodeSnip_outcome
    (hPkt : st.pkt = hdr :: pkt) (hLen : 8 ≤ hdr.data.length)
    (hMark : full → ∀ k, env.mark k = true)
    (hIn : st.inlinePos + udpSentLen env hdr ≤ limit) :
    EndsWith (readErr st.dispatch.length limit full)
      (fun st' => st'.nh = protnumReserved ∧ st.inlinePos + udpSentLen env hdr ≤ st.dispatch.length)
      (nhcUdpEncodeSnip env round st) := by
  rw [← length_nhcUdpEncode] at hIn ⊢
  unfold nhcUdpEncodeSnip
  rw [hPkt]
  dsimp only
  rw [if_neg (Nat.not_lt.mpr hLen)]
  apply EndsWith.bind (nhcPut_outcome hIn)
  rintro dispatch ⟨_, hFits⟩
  apply EndsWith.bind (removeHeader_outcome hMark)
  rintro _ rfl
  exact ⟨rfl, hFits⟩

/- The next header to go on with behind an extension header. -/
def extNext
    (env : IphcSendEnv) (hdr : PktSnip) (nh : UInt8) : UInt8 :=
  if extNhCompressed env hdr nh then snipByte env hdr 0
  else protnumReserved

theorem nhcIpv6ExtEncode_eq
    {nh eid : UInt8} (hEid : extEid nh = some eid)
    (hShort : extHdrLen env hdr ≤ 257) :
    ∃ bs, nhcIpv6ExtEncode env hdr (extHdrLen env hdr) nh =
        .ok (some (bs, extNext env hdr nh)) ∧ bs.length = extSentLen env hdr nh := by
  have hMin : 8 ≤ extHdrLen env hdr := Nat.le_add_left 8 _
  unfold nhcIpv6ExtEncode
  dsimp only
  rw [if_neg (by omega), hEid]
  dsimp only
  unfold extNext extSentLen
  split
  · refine ⟨_, rfl, ?_⟩
    simp only [List.length_append, List.length_cons,
      List.length_nil, List.length_map, List.length_range]
    omega
  · refine ⟨_, rfl, ?_⟩
    simp only [List.length_append, List.length_cons,
      List.length_nil, List.length_map, List.length_range]
    omega

theorem nhcIpv6ExtEncodeSnip_outcome
    {eid : UInt8} (hPkt : st.pkt = hdr :: pkt)
    (hLen : extHdrLen env hdr ≤ hdr.data.length) (hShort : extHdrLen env hdr ≤ 257)
    (hEid : extEid st.nh = some eid) (hMark : full → ∀ k, env.mark k = true)
    (hIn : st.inlinePos + extSentLen env hdr st.nh ≤ limit) :
    EndsWith (readErr st.dispatch.length limit full) (fun st' =>
        st'.dispatch.length = st.dispatch.length ∧
        st'.inlinePos = (st.inlinePos + extSentLen env hdr st.nh) % 2 ^ 16 ∧
        st'.pkt = withoutHeader hdr pkt (extHdrLen env hdr) ∧ st'.nh = extNext env hdr st.nh ∧
        st.inlinePos + extSentLen env hdr st.nh ≤ st.dispatch.length)
      (nhcIpv6ExtEncodeSnip env round st) := by
  have hMin : 8 ≤ extHdrLen env hdr := Nat.le_add_left 8 _
  rcases nhcIpv6ExtEncode_eq hEid hShort with ⟨bs, hEncode, hBytes⟩
  rw [← hBytes] at hIn ⊢
  unfold nhcIpv6ExtEncodeSnip
  rw [hPkt]
  dsimp only
  change EndsWith _ _ (if hdr.data.length < 2 ∨ hdr.data.length < extHdrLen env hdr then _ else _)
  rw [if_neg (by omega)]
  change EndsWith _ _ (nhcIpv6ExtEncode env hdr (extHdrLen env hdr) st.nh >>= _)
  rw [hEncode, ok_bind]
  apply EndsWith.bind (nhcPut_outcome hIn)
  rintro dispatch ⟨hSame, hFits⟩
  apply EndsWith.bind (removeHeader_outcome hMark)
  rintro _ rfl
  exact ⟨hSame, rfl, rfl, rfl, hFits⟩

/- A header that is too long ends the chain. -/
theorem nhcIpv6ExtEncodeSnip_long
    (hPkt : st.pkt = hdr :: pkt) (hLen : extHdrLen env hdr ≤ hdr.data.length)
    (hLong : 257 < extHdrLen env hdr) :
    nhcIpv6ExtEncodeSnip env round st = .ok { st with nh := protnumReserved } := by
  have hEncode : nhcIpv6ExtEncode env hdr (extHdrLen env hdr) st.nh = .ok none := by
    unfold nhcIpv6ExtEncode
    exact if_pos (by omega)
  unfold nhcIpv6ExtEncodeSnip
  rw [hPkt]
  change (if hdr.data.length < 2 ∨ hdr.data.length < extHdrLen env hdr then _ else _) = _
  rw [if_neg (by omega)]
  change (nhcIpv6ExtEncode env hdr (extHdrLen env hdr) st.nh >>= _) = _
  rw [hEncode, ok_bind]

/- The bytes that the encoder returns are those counted. -/
theorem length_of_iphcResult
    {senv : IphcSend} {h : Ipv6Hdr} {out : List UInt8}
    (hResult : iphcResult senv h = some out) :
    out.length = iphcLen senv h := by
  unfold iphcResult at hResult
  unfold iphcLen
  cases hSrc : srcPart senv h with
  | none => simp [hSrc] at hResult
  | some src =>
    cases hDst : dstPart senv h with
    | none => simp [hSrc, hDst] at hResult
    | some dst =>
      simp only [hSrc, hDst, Option.bind_eq_bind, Option.bind_some, Option.some.injEq] at hResult
      rw [← hResult]
      simp only [iphcOut, iphcSrcOut, List.length_cons, List.length_append, List.length_modify]
      omega

/- The encoder of an IPv6 header in the room that is left. -/
theorem iphcIpv6Encode_outcome
    {senv : IphcSend} {h : Ipv6Hdr} {room pos : Nat} (hPos : pos ≤ room)
    (hIid : full → (iphcResult senv h).isSome = true ∨ room < pos + iphcLen senv h)
    (hIn : pos + iphcLen senv h ≤ limit) :
    EndsWith (readErr room limit full)
      (fun out => out.length = iphcLen senv h ∧ (iphcResult senv h).isSome = true ∧
        pos + iphcLen senv h ≤ room)
      (iphcIpv6Encode senv (room - pos) h) := by
  rw [iphcIpv6Encode_eq]
  by_cases hFits : iphcLen senv h ≤ room - pos
  · rw [if_pos hFits]
    cases hResult : iphcResult senv h with
    | none =>
      apply EndsWith.error
      intro hFull
      rcases hIid hFull with hSome | hOver
      · rw [hResult] at hSome
        cases hSome
      · omega
    | some out => exact ⟨length_of_iphcResult hResult, rfl, by omega⟩
  · rw [if_neg hFits]
    apply EndsWith.error
    show room < limit
    omega

theorem nhcIpv6EncodeSnip_outcome
    {next : PktSnip} {rest : List PktSnip} (hPkt : st.pkt = hdr :: next :: rest)
    (hLen : 40 ≤ hdr.data.length) (hMark : full → ∀ k, env.mark k = true)
    (hIid : full → (iphcResult env.toIphcSend (ipv6HdrOf env next)).isSome = true ∨
        st.dispatch.length < st.inlinePos + ipv6SentLen env hdr next)
    (hIn : st.inlinePos + ipv6SentLen env hdr next ≤ limit) :
    EndsWith (readErr st.dispatch.length limit full) (fun st' =>
        st'.dispatch.length = st.dispatch.length ∧
        st'.inlinePos = (st.inlinePos + ipv6SentLen env hdr next) % 2 ^ 16 ∧
        st'.pkt = withoutHeader hdr (next :: rest) 40 ∧ st'.nh = snipByte env hdr 6 ∧
        (iphcResult env.toIphcSend (ipv6HdrOf env next)).isSome = true ∧
        st.inlinePos + ipv6SentLen env hdr next ≤ st.dispatch.length)
      (nhcIpv6EncodeSnip env round st) := by
  unfold ipv6SentLen at hIid hIn ⊢
  unfold nhcIpv6EncodeSnip
  rw [hPkt]
  dsimp only
  rw [if_neg (Nat.not_lt.mpr hLen)]
  apply EndsWith.bind (nhcPut_outcome (by omega))
  rintro dispatch ⟨hSame, hFits⟩
  rw [hSame]
  apply EndsWith.bind (iphcIpv6Encode_outcome hFits (fun hFull => by
        rcases hIid hFull with hSome | hOver
        · exact Or.inl hSome
        · exact Or.inr (by omega)) (by omega))
  rintro iphc ⟨hBytes, hSome, hAll⟩
  have hPut : EndsWith (readErr dispatch.length limit full) _
        (nhcPut dispatch (st.inlinePos + (nhcIpv6Nh env (snipByte env hdr 6)).length) iphc) :=
    nhcPut_outcome (by omega)
  rw [hSame] at hPut
  apply EndsWith.bind hPut
  rintro dispatch' ⟨hSame', _⟩
  apply EndsWith.bind (removeHeader_outcome hMark)
  rintro _ rfl
  refine ⟨hSame', ?_, rfl, rfl, hSome, by omega⟩
  rw [hBytes, Nat.add_assoc]

end

----
-- The Chain
----

section

variable {env : IphcSendEnv} {n room limit : Nat} {st : NhcEncodeState}
variable {hdr : PktSnip} {pkt : List PktSnip}

/-
  The loop writes outside only if this condition fails, and then
  it does so if there is memory for the snips.
-/
def LoopSpec
    (env : IphcSendEnv) (n : Nat) (st : NhcEncodeState) (fits : Prop) : Prop :=
  (nhcEncodeLoop env n st = .error .outside → ¬ fits) ∧
  ((∀ k, env.mark k = true) → ¬ fits → nhcEncodeLoop env n st = .error .outside)

theorem loopSpec_of_ok
    {fits : Prop} (hOk : nhcEncodeLoop env n st ≠ .error .outside) (hFits : fits) :
    LoopSpec env n st fits :=
  ⟨fun h => absurd h hOk, fun _ h => absurd hFits h⟩

/- Behind the last header the loop ends. -/
theorem nhcEncodeLoop_reserved
    (hNh : st.nh = protnumReserved) :
    nhcEncodeLoop env n st = .ok st := by
  cases n with
  | zero => rfl
  | succ n =>
    have hComp : compressibleNh env.nhc st.nh = false := by
      rw [hNh]
      cases env.nhc <;> rfl
    rw [nhcEncodeLoop, hComp, if_neg (by decide)]

section

variable (hComp : compressibleNh env.nhc st.nh = true)

include hComp

/- One round and those behind it. -/
theorem loopSpec_succ
    {fits fitsNext full : Prop} (hFits : fits ↔ limit ≤ room ∧ fitsNext)
    (hFull : (∀ k, env.mark k = true) → ¬ fits → full)
    (hOut : EndsWith (readErr room limit full)
        (fun st' => limit ≤ room ∧ LoopSpec env n st' fitsNext)
        (nhcEncodeStep env n st)) :
    LoopSpec env (n + 1) st fits := by
  unfold LoopSpec
  rw [nhcEncodeLoop, if_pos hComp]
  cases hStep : nhcEncodeStep env n st with
  | ok st' =>
    rw [hStep] at hOut
    rcases hOut with ⟨hIn, hLoop, hBack⟩
    rw [ok_bind]
    refine ⟨?_, ?_⟩
    · intro hErr hAll
      exact hLoop hErr (hFits.mp hAll).2
    · intro hMark hNot
      apply hBack hMark
      intro hNext
      exact hNot (hFits.mpr ⟨hIn, hNext⟩)
  | error e =>
    rw [hStep] at hOut
    rw [error_bind]
    cases e with
    | outside =>
      refine ⟨?_, fun _ _ => rfl⟩
      intro _ hAll
      exact Nat.not_le.mpr hOut (hFits.mp hAll).1
    | zero =>
      refine ⟨fun h => (by cases h), ?_⟩
      intro hMark hNot
      exact absurd (hFull hMark hNot) hOut
    | assertion => exact False.elim hOut

theorem loopSpec_assertion
    {fits : Prop} (hStep : nhcEncodeStep env n st = .error .assertion)
    (hFits : fits) :
    LoopSpec env (n + 1) st fits := by
  apply loopSpec_of_ok _ hFits
  rw [nhcEncodeLoop, if_pos hComp, hStep, error_bind]
  intro hErr
  cases hErr

theorem loopSpec_udp
    (hNh : st.nh = protnumUdp) (hPkt : st.pkt = hdr :: pkt) :
    LoopSpec env (n + 1) st
      (8 ≤ hdr.data.length → st.inlinePos + udpSentLen env hdr ≤ st.dispatch.length) := by
  have hStep : nhcEncodeStep env n st = nhcUdpEncodeSnip env n st := if_pos hNh
  by_cases hLen : 8 ≤ hdr.data.length
  · have hFits : (8 ≤ hdr.data.length → st.inlinePos + udpSentLen env hdr ≤ st.dispatch.length) ↔
        st.inlinePos + udpSentLen env hdr ≤ st.dispatch.length ∧ True := by
      simp [hLen]
    apply loopSpec_succ hComp hFits (fun hMark _ => hMark)
    rw [hStep]
    apply EndsWith.mono (nhcUdpEncodeSnip_outcome hPkt hLen id (Nat.le_refl _))
    · intro e hErr
      exact hErr
    · rintro st' ⟨hEnd, hIn⟩
      refine ⟨hIn, loopSpec_of_ok ?_ trivial⟩
      rw [nhcEncodeLoop_reserved hEnd]
      intro hErr
      cases hErr
  · apply loopSpec_assertion hComp _ (fun h => absurd h hLen)
    rw [hStep, nhcUdpEncodeSnip, hPkt]
    exact if_pos (Nat.not_le.mp hLen)

end

theorem exists_extEid
    {nhc : Bool} {nh : UInt8} (hComp : compressibleNh nhc nh = true)
    (hUdp : nh ≠ protnumUdp) (hIpv6 : nh ≠ protnumIpv6) :
    ∃ eid, extEid nh = some eid := by
  simp only [compressibleNh, Bool.and_eq_true, Bool.or_eq_true, beq_iff_eq] at hComp
  rcases hComp.2 with (((((h | h) | h) | h) | h) | h) | h
  · rw [h]
    exact ⟨_, rfl⟩
  · exact absurd h hUdp
  · exact absurd h hIpv6
  · rw [h]
    exact ⟨_, rfl⟩
  · rw [h]
    exact ⟨_, rfl⟩
  · rw [h]
    exact ⟨_, rfl⟩
  · rw [h]
    exact ⟨_, rfl⟩

theorem loopSpec_ext
    (hComp : compressibleNh env.nhc st.nh = true) (hUdp : st.nh ≠ protnumUdp)
    (hIpv6 : st.nh ≠ protnumIpv6) (hPkt : st.pkt = hdr :: pkt)
    (ih :
      ∀ st', LoopSpec env n st' (NextFits env st'.dispatch.length n st'.inlinePos st'.nh st'.pkt)) :
    LoopSpec env (n + 1) st (extHdrLen env hdr ≤ hdr.data.length → extHdrLen env hdr ≤ 257 →
        st.inlinePos + extSentLen env hdr st.nh ≤ st.dispatch.length ∧
        (extNhCompressed env hdr st.nh = true → NextFits env st.dispatch.length n
            ((st.inlinePos + extSentLen env hdr st.nh) % 2 ^ 16)
            (snipByte env hdr 0)
            (withoutHeader hdr pkt (extHdrLen env hdr)))) := by
  have hStep : nhcEncodeStep env n st = nhcIpv6ExtEncodeSnip env n st :=
    (if_neg hUdp).trans (if_neg hIpv6)
  by_cases hLen : extHdrLen env hdr ≤ hdr.data.length
  · by_cases hShort : extHdrLen env hdr ≤ 257
    · rcases exists_extEid hComp hUdp hIpv6 with ⟨eid, hEid⟩
      apply loopSpec_succ hComp
        (forall_prop_of_true hLen |>.trans (forall_prop_of_true hShort)) (fun hMark _ => hMark)
      rw [hStep]
      apply EndsWith.mono (nhcIpv6ExtEncodeSnip_outcome hPkt hLen hShort hEid id (Nat.le_refl _))
      · intro e hErr
        exact hErr
      · rintro st' ⟨hSame, hPos, hRest, hNext, hIn⟩
        refine ⟨hIn, ?_⟩
        unfold extNext at hNext
        cases hMore : extNhCompressed env hdr st.nh with
        | true =>
          have hSpec := ih st'
          rw [hMore, if_pos rfl] at hNext
          rw [hSame, hPos, hRest, hNext] at hSpec
          rw [forall_prop_of_true rfl]
          exact hSpec
        | false =>
          rw [hMore, if_neg (by decide)] at hNext
          apply loopSpec_of_ok
          · rw [nhcEncodeLoop_reserved hNext]
            intro hErr
            cases hErr
          · intro hOff
            cases hOff
    · apply loopSpec_of_ok _ (fun _ h => absurd h hShort)
      rw [nhcEncodeLoop, if_pos hComp, hStep,
        nhcIpv6ExtEncodeSnip_long hPkt hLen (Nat.not_le.mp hShort), ok_bind,
        nhcEncodeLoop_reserved rfl]
      intro hErr
      cases hErr
  · apply loopSpec_assertion hComp _ (fun h => absurd h hLen)
    rw [hStep, nhcIpv6ExtEncodeSnip, hPkt]
    exact if_pos (Or.inr (Nat.not_le.mp hLen))

theorem loopSpec_ipv6
    (hComp : compressibleNh env.nhc st.nh = true) (hNh : st.nh = protnumIpv6)
    (hPkt : st.pkt = hdr :: pkt)
    (ih :
      ∀ st', LoopSpec env n st' (NextFits env st'.dispatch.length n st'.inlinePos st'.nh st'.pkt)) :
    LoopSpec env (n + 1) st (40 ≤ hdr.data.length →
        st.inlinePos + (nhcIpv6Nh env (snipByte env hdr 6)).length ≤ st.dispatch.length ∧
        ∀ next rest, pkt = next :: rest →
          st.inlinePos + ipv6SentLen env hdr next ≤ st.dispatch.length ∧
          ((iphcResult env.toIphcSend (ipv6HdrOf env next)).isSome = true →
            NextFits env st.dispatch.length n
              ((st.inlinePos + ipv6SentLen env hdr next) % 2 ^ 16)
              (snipByte env hdr 6)
              (withoutHeader hdr pkt 40))) := by
  have hStep : nhcEncodeStep env n st = nhcIpv6EncodeSnip env n st := by
    unfold nhcEncodeStep
    rw [if_neg (by rw [hNh]; decide), if_pos hNh]
  by_cases hLen : 40 ≤ hdr.data.length
  · rw [forall_prop_of_true hLen]
    cases pkt with
    | nil =>
      have hHead : nhcIpv6EncodeSnip env n st = (nhcPut st.dispatch st.inlinePos
              (nhcIpv6Nh env (snipByte env hdr 6)) >>=
              fun _ => .error .assertion) := by
        rw [nhcIpv6EncodeSnip, hPkt]
        exact if_neg (Nat.not_lt.mpr hLen)
      by_cases hIn : st.inlinePos + (nhcIpv6Nh env (snipByte env hdr 6)).length ≤ st.dispatch.length
      · apply loopSpec_assertion hComp
        · rcases length_writeBytes st.dispatch _ st.inlinePos hIn with ⟨d, hWrite, _⟩
          rw [hStep, hHead, nhcPut, hWrite, ok_bind]
        · refine ⟨hIn, ?_⟩
          intro next rest hNil
          cases hNil
      · have hOutside : nhcEncodeLoop env (n + 1) st = .error .outside := by
          have hNone :
              writeBytes st.dispatch st.inlinePos (nhcIpv6Nh env (snipByte env hdr 6)) = none :=
            if_neg hIn
          rw [nhcEncodeLoop, if_pos hComp, hStep, hHead, nhcPut, hNone, error_bind, error_bind]
        exact ⟨fun _ hFits => hIn hFits.1, fun _ _ => hOutside⟩
    | cons next rest =>
      have hFits :
          (st.inlinePos + (nhcIpv6Nh env (snipByte env hdr 6)).length ≤ st.dispatch.length ∧
          ∀ next' rest', next :: rest = next' :: rest' →
            st.inlinePos + ipv6SentLen env hdr next' ≤ st.dispatch.length ∧
            ((iphcResult env.toIphcSend (ipv6HdrOf env next')).isSome = true →
              NextFits env st.dispatch.length n
                ((st.inlinePos + ipv6SentLen env hdr next') % 2 ^ 16)
                (snipByte env hdr 6)
                (withoutHeader hdr (next :: rest) 40))) ↔
          st.inlinePos + ipv6SentLen env hdr next ≤ st.dispatch.length ∧
          ((iphcResult env.toIphcSend (ipv6HdrOf env next)).isSome = true →
            NextFits env st.dispatch.length n
              ((st.inlinePos + ipv6SentLen env hdr next) % 2 ^ 16)
              (snipByte env hdr 6)
              (withoutHeader hdr (next :: rest) 40)) := by
        constructor
        · intro hAll
          exact hAll.2 next rest rfl
        · intro hNext
          refine ⟨?_, ?_⟩
          · have hIn := hNext.1
            unfold ipv6SentLen at hIn
            omega
          · rintro _ _ ⟨⟩
            exact hNext
      have hOut : EndsWith (readErr st.dispatch.length (st.inlinePos + ipv6SentLen env hdr next)
            ((∀ k, env.mark k = true) ∧ ((iphcResult env.toIphcSend
                (ipv6HdrOf env next)).isSome = true ∨
                st.dispatch.length < st.inlinePos + ipv6SentLen env hdr next)))
            _ (nhcIpv6EncodeSnip env n st) :=
        nhcIpv6EncodeSnip_outcome hPkt hLen (fun h => h.1) (fun h => h.2) (Nat.le_refl _)
      rw [← hStep] at hOut
      apply loopSpec_succ hComp hFits ?_ (hOut.mono (fun _ h => h) ?_)
      · intro hMark hNot
        refine ⟨hMark, ?_⟩
        by_contra hNone
        rw [not_or, Nat.not_lt] at hNone
        exact hNot (hFits.mpr ⟨hNone.2, fun h => absurd h hNone.1⟩)
      · rintro st' ⟨hSame, hPos, hRest, hNext, hSome, hIn⟩
        have hSpec := ih st'
        rw [hSame, hPos, hRest, hNext] at hSpec
        rw [forall_prop_of_true hSome]
        exact ⟨hIn, hSpec⟩
  · apply loopSpec_assertion hComp _ (fun h => absurd h hLen)
    rw [hStep, nhcIpv6EncodeSnip, hPkt]
    exact if_pos (Nat.not_le.mp hLen)

/- The chain, by induction over the rounds. -/
theorem nhcEncodeLoop_outside
    (n : Nat) (st : NhcEncodeState) :
    LoopSpec env n st (NextFits env st.dispatch.length n st.inlinePos st.nh st.pkt) := by
  induction n generalizing st with
  | zero =>
    apply loopSpec_of_ok _ trivial
    intro hErr
    cases hErr
  | succ n ih =>
    cases hComp : compressibleNh env.nhc st.nh with
    | false =>
      apply loopSpec_of_ok
      · rw [nhcEncodeLoop, hComp, if_neg (by decide)]
        intro hErr
        cases hErr
      · cases st.pkt with
        | nil => trivial
        | cons hdr pkt =>
          intro hOn
          rw [hComp] at hOn
          cases hOn
    | true =>
      cases hPkt : st.pkt with
      | nil =>
        apply loopSpec_assertion hComp _ trivial
        unfold nhcEncodeStep nhcUdpEncodeSnip nhcIpv6EncodeSnip nhcIpv6ExtEncodeSnip
        rw [hPkt]
        dsimp only
        rw [ite_self, ite_self]
      | cons hdr pkt =>
        unfold NextFits
        rw [forall_prop_of_true hComp]
        by_cases hUdp : st.nh = protnumUdp
        · rw [if_pos hUdp]
          exact loopSpec_udp hComp hUdp hPkt
        · rw [if_neg hUdp]
          by_cases hIpv6 : st.nh = protnumIpv6
          · rw [if_pos hIpv6]
            exact loopSpec_ipv6 hComp hIpv6 hPkt ih
          · rw [if_neg hIpv6]
            exact loopSpec_ext hComp hUdp hIpv6 hPkt ih

end

----
-- The End of the Chain
----

section

variable {env : IphcSendEnv} {n round size : Nat} {st st' : NhcEncodeState}
variable {hdr : PktSnip} {pkt pkt' : List PktSnip}

theorem pktLen_removeHeader
    (hRemove : removeHeader env round hdr pkt size = .ok pkt') (hPos : 0 < size)
    (hLen : size ≤ hdr.data.length) :
    pktLen pkt' < pktLen (hdr :: pkt) := by
  have hCons : pktLen (hdr :: pkt) = hdr.data.length + pktLen pkt := rfl
  unfold removeHeader at hRemove
  split at hRemove
  · split at hRemove
    · cases hRemove
      have hRest : pktLen ({ hdr with data := hdr.data.drop size } ::
            pkt) = (hdr.data.drop size).length + pktLen pkt :=
        rfl
      rw [hRest, hCons, List.length_drop]
      omega
    · cases hRemove
  · cases hRemove
    omega

/- A step is the last one or it takes a header. -/
theorem nhcEncodeStep_less
    (hStep : nhcEncodeStep env round st = .ok st') :
    st'.nh = protnumReserved ∨ pktLen st'.pkt < pktLen st.pkt := by
  unfold nhcEncodeStep at hStep
  split at hStep
  · left
    unfold nhcUdpEncodeSnip at hStep
    split at hStep
    · cases hStep
    · split at hStep
      · cases hStep
      · dsimp only at hStep
        rcases bind_eq_ok hStep with ⟨dispatch, _, hStep⟩
        rcases bind_eq_ok hStep with ⟨rest, _, hStep⟩
        cases hStep
        rfl
  · split at hStep
    · right
      unfold nhcIpv6EncodeSnip at hStep
      split at hStep
      · cases hStep
      · rename_i hdr pkt hPkt
        rw [hPkt]
        dsimp only at hStep
        split at hStep
        · cases hStep
        · rename_i hLen
          rcases bind_eq_ok hStep with ⟨dispatch, _, hStep⟩
          split at hStep
          · cases hStep
          · rcases bind_eq_ok hStep with ⟨iphc, _, hStep⟩
            rcases bind_eq_ok hStep with ⟨dispatch', _, hStep⟩
            rcases bind_eq_ok hStep with ⟨rest, hRest, hStep⟩
            cases hStep
            exact pktLen_removeHeader hRest (by omega) (by omega)
    · unfold nhcIpv6ExtEncodeSnip at hStep
      split at hStep
      · cases hStep
      · rename_i hdr pkt hPkt
        rw [hPkt]
        dsimp only at hStep
        split at hStep
        · cases hStep
        · rename_i hLen
          rcases bind_eq_ok hStep with ⟨res, _, hStep⟩
          cases res with
          | none =>
            cases hStep
            exact Or.inl rfl
          | some r =>
            right
            rcases bind_eq_ok hStep with ⟨dispatch, _, hStep⟩
            rcases bind_eq_ok hStep with ⟨rest, hRest, hStep⟩
            cases hStep
            exact pktLen_removeHeader hRest (by omega) (by omega)

/- The rounds suffice for the whole chain. -/
theorem nhcEncodeLoop_done
    (hRounds : encodeRounds st.pkt ≤ n) (hLoop : nhcEncodeLoop env n st = .ok st') :
    compressibleNh env.nhc st'.nh = false := by
  have hReserved : compressibleNh env.nhc protnumReserved = false := by
    cases env.nhc <;> rfl
  unfold encodeRounds at hRounds
  induction n generalizing st with
  | zero => omega
  | succ n ih =>
    unfold nhcEncodeLoop at hLoop
    split at hLoop
    · rcases bind_eq_ok hLoop with ⟨st₁, hStep, hLoop⟩
      rcases nhcEncodeStep_less hStep with hEnd | hLess
      · rw [nhcEncodeLoop_reserved hEnd] at hLoop
        cases hLoop
        rw [hEnd]
        exact hReserved
      · exact ih (by omega) hLoop
    · rename_i hComp
      cases hLoop
      simpa using hComp

end

----
-- Whole Packets
----

/- Another outcome of all allocations. -/
def IphcSendEnv.withMemory
    (env : IphcSendEnv) (startWrite : Nat → Bool) (alloc : Bool)
    (mark : Nat → Bool) : IphcSendEnv :=
  { env with startWrite := startWrite, alloc := alloc, mark := mark }

/- Whatever memory there is, nothing is written outside. -/
def SendSafe
    (env : IphcSendEnv) (pkt : List PktSnip) : Prop :=
  ∀ startWrite alloc mark, iphcEncode (env.withMemory startWrite alloc mark) pkt ≠ .error .outside

section

variable {env : IphcSendEnv} {pkt : List PktSnip} {i size : Nat}

theorem dispatchSize_outcome :
    EndsWith (fun e => e = .zero ∧ ∃ k, env.startWrite k = false)
      (fun size => size = countedSize env pkt)
      (dispatchSize env i pkt) := by
  induction pkt generalizing i with
  | nil => exact rfl
  | cons hdr pkt ih =>
    unfold dispatchSize countedSize
    by_cases hComp : compressible env hdr = true
    · rw [if_pos hComp, if_pos hComp]
      by_cases hStart : env.startWrite i = true
      · rw [if_pos hStart]
        by_cases hUndef : hdr.type = .undef
        · rw [if_pos hUndef, if_pos hUndef]
          exact rfl
        · rw [if_neg hUndef, if_neg hUndef]
          apply EndsWith.bind ih
          rintro _ rfl
          exact rfl
      · rw [if_neg hStart]
        exact ⟨rfl, i, by simpa using hStart⟩
    · rw [if_neg hComp, if_neg hComp]
      exact rfl

/- What is done with a dispatch of this size. -/
def encodeInto
    (env : IphcSendEnv) (size : Nat) (first : PktSnip) (pkt : List PktSnip) :
    Except IphcErr (List UInt8 × List PktSnip) := do
  let iphc ← iphcIpv6Encode env.toIphcSend (size + 1) (ipv6HdrOf env first)
  let st ← nhcEncodeLoop env (encodeRounds pkt)
    { dispatch :=
        iphc ++ List.replicate (size + 1 - iphc.length) 0
      inlinePos := iphc.length
      pkt := pkt
      nh := (ipv6HdrOf env first).nh }
  .ok (st.dispatch.take st.inlinePos, st.pkt)

/- Writing outside is the same as not fitting. -/
theorem encodeInto_outside
    (first : PktSnip) (size : Nat) :
    (encodeInto env size first pkt = .error .outside →
      ¬ (iphcLen env.toIphcSend (ipv6HdrOf env first) ≤ size + 1 ∧ ((iphcResult env.toIphcSend
          (ipv6HdrOf env first)).isSome = true →
          NextFits env (size + 1) (encodeRounds pkt)
            (iphcLen env.toIphcSend (ipv6HdrOf env first))
            (ipv6HdrOf env first).nh pkt))) ∧ ((∀ k, env.mark k = true) →
      ¬ (iphcLen env.toIphcSend (ipv6HdrOf env first) ≤ size + 1 ∧ ((iphcResult env.toIphcSend
          (ipv6HdrOf env first)).isSome = true →
          NextFits env (size + 1) (encodeRounds pkt)
            (iphcLen env.toIphcSend (ipv6HdrOf env first))
            (ipv6HdrOf env first).nh pkt)) →
      encodeInto env size first pkt = .error .outside) := by
  unfold encodeInto
  rw [iphcIpv6Encode_eq]
  by_cases hLen : iphcLen env.toIphcSend (ipv6HdrOf env first) ≤ size + 1
  · rw [if_pos hLen]
    cases hResult : iphcResult env.toIphcSend (ipv6HdrOf env first) with
    | none =>
      dsimp only
      rw [error_bind]
      refine ⟨fun h => (by cases h), ?_⟩
      intro _ hNot
      exact absurd ⟨hLen, fun h => (by cases h)⟩ hNot
    | some iphc =>
      dsimp only
      rw [ok_bind]
      have hBytes := length_of_iphcResult hResult
      have hSpec : LoopSpec env (encodeRounds pkt) _ _ := nhcEncodeLoop_outside (encodeRounds pkt)
          { dispatch := iphc ++ List.replicate (size + 1 - iphc.length) 0
            inlinePos := iphc.length
            pkt := pkt
            nh := (ipv6HdrOf env first).nh }
      dsimp only at hSpec
      rw [List.length_append, List.length_replicate,
        Nat.add_sub_cancel' (by omega), hBytes] at hSpec
      rw [hBytes]
      rcases hSpec with ⟨hOut, hBack⟩
      refine ⟨?_, ?_⟩
      · intro hErr hFits
        apply hOut _ (hFits.2 rfl)
        cases hLoop : nhcEncodeLoop env (encodeRounds pkt) _ with
        | ok st =>
          rw [hLoop, ok_bind] at hErr
          cases hErr
        | error e =>
          rw [hLoop, error_bind] at hErr
          cases hErr
          rfl
      · intro hMark hNot
        rw [hBack hMark, error_bind]
        intro hFits
        exact hNot ⟨hLen, fun _ => hFits⟩
  · rw [if_neg hLen, error_bind]
    exact ⟨fun _ h => hLen h.1, fun _ _ => rfl⟩

/- The encoder is this once the dispatch is allocated. -/
theorem iphcEncode_outside
    (hErr : iphcEncode env pkt = .error .outside) :
    countedSize env pkt ≠ 0 ∧ ∃ first rest, pkt = first :: rest ∧
        encodeInto env (countedSize env pkt) first rest = .error .outside := by
  have hSize : EndsWith _ _ (dispatchSize env 0 pkt) := dispatchSize_outcome
  unfold iphcEncode at hErr
  cases hDispatch : dispatchSize env 0 pkt with
  | error e =>
    rw [hDispatch] at hSize
    rw [hDispatch, error_bind, hSize.1] at hErr
    cases hErr
  | ok size =>
    rw [hDispatch] at hSize
    rw [hDispatch, ok_bind] at hErr
    change size = countedSize env pkt at hSize
    subst hSize
    split at hErr
    · cases hErr
    · rename_i hPos
      split at hErr
      · cases hErr
      · cases pkt with
        | nil => cases hErr
        | cons first rest => exact ⟨hPos, first, rest, rfl, hErr⟩

theorem iphcEncode_eq
    {first : PktSnip} {rest : List PktSnip} (hStart : ∀ k, env.startWrite k = true)
    (hAlloc : env.alloc = true) (hPos : countedSize env (first :: rest) ≠ 0) :
    iphcEncode env (first :: rest) = encodeInto env (countedSize env (first :: rest)) first
        rest := by
  have hSize : EndsWith _ _ (dispatchSize env 0 (first :: rest)) := dispatchSize_outcome
  unfold iphcEncode
  cases hDispatch : dispatchSize env 0 (first :: rest) with
  | error e =>
    rw [hDispatch] at hSize
    rcases hSize with ⟨_, k, hNo⟩
    rw [hStart k] at hNo
    cases hNo
  | ok size =>
    rw [hDispatch] at hSize
    change size = countedSize env (first :: rest) at hSize
    subst hSize
    rw [ok_bind, if_neg hPos, if_neg (by rw [hAlloc]; decide)]
    rfl

/- What fits does not depend on the memory there is. -/
theorem countedSize_withMemory
    {startWrite mark : Nat → Bool} {alloc : Bool} :
    countedSize (env.withMemory startWrite alloc mark) pkt = countedSize env pkt := by
  induction pkt with
  | nil => rfl
  | cons hdr pkt ih =>
    simp only [countedSize, ih]
    rfl

theorem nextFits_withMemory
    {startWrite mark : Nat → Bool} {alloc : Bool} {room n pos : Nat} {nh : UInt8} :
    NextFits (env.withMemory startWrite alloc mark) room n pos
      nh pkt = NextFits env room n pos nh pkt := by
  induction n generalizing pos nh pkt with
  | zero => rfl
  | succ n ih =>
    cases pkt with
    | nil => rfl
    | cons hdr pkt =>
      simp only [NextFits, ih]
      rfl

theorem sendFits_withMemory
    {startWrite mark : Nat → Bool} {alloc : Bool} :
    SendFits (env.withMemory startWrite alloc mark) pkt = SendFits env pkt := by
  simp only [SendFits, countedSize_withMemory, nextFits_withMemory]
  rfl

/- A packet that does not fit is written outside. -/
theorem sendFits_of_ne_outside
    (hStart : ∀ k, env.startWrite k = true) (hAlloc : env.alloc = true)
    (hMark : ∀ k, env.mark k = true)
    (hSafe : iphcEncode env pkt ≠ .error .outside) :
    SendFits env pkt := by
  intro hPos first rest hPkt
  subst hPkt
  by_contra hNot
  apply hSafe
  rw [iphcEncode_eq hStart hAlloc hPos]
  exact (encodeInto_outside first _).2 hMark hNot

theorem ne_outside_of_sendFits
    (hFits : SendFits env pkt) :
    iphcEncode env pkt ≠ .error .outside := by
  intro hErr
  rcases iphcEncode_outside hErr with ⟨hPos, first, rest, rfl, hInto⟩
  exact (encodeInto_outside first _).1 hInto (hFits hPos first rest rfl)

/-
  Nothing is written outside of the dispatch exactly if the
  compressed headers fit into what was counted.
-/
theorem sendSafe_iff_sendFits
    (env : IphcSendEnv) (pkt : List PktSnip) :
    SendSafe env pkt ↔ SendFits env pkt := by
  constructor
  · intro hSafe
    have hFits :=
      sendFits_of_ne_outside (fun _ => rfl) rfl (fun _ => rfl)
        (hSafe (fun _ => true) true (fun _ => true))
    rwa [sendFits_withMemory] at hFits
  · intro hFits startWrite alloc mark
    apply ne_outside_of_sendFits
    rwa [sendFits_withMemory]

/- A forwarding node without contexts. -/
def forwardEnv : IphcSendEnv :=
  { ctxs := fun _ => ⟨fun _ => 0, 0, false⟩
    nhc := true
    ifaceIid := some (fun _ => 0)
    dstIid := some (fun _ => 0)
    dstL2addrLen := 2
    garbage := fun _ => 0
    ipv6Ext := true
    udp := true
    beyond := fun _ => 0
    startWrite := fun _ => true
    alloc := true
    mark := fun _ => true }

/- A hop-by-hop header of 64 bytes in a snip without a type. -/
def forwardedPkt : List PktSnip :=
  [⟨.ipv6, [0x60, 0, 0, 0, 0, 64, 0, 64] ++ (0x20 :: List.replicate 15 1) ++
      (0x20 :: List.replicate 15 2)⟩, ⟨.undef, [58, 7] ++ List.replicate 62 0⟩]

theorem not_sendSafe_forwardedPkt :
    ¬ SendSafe forwardEnv forwardedPkt := by
  intro hSafe
  apply hSafe (fun _ => true) true (fun _ => true)
  decide +kernel

end

end Riot
