import Riot.Net.IphcLengths
import Riot.Net.SixlowpanIphcRecv

/-
  What reception reads of a frame.

  No function checks the size of the frame. So everything that
  is read is in the frame exactly when the frame is as long as
  the lengths that its own bits announce.
-/

----
-- Announced Lengths
----

namespace Riot

/- The place of the length of an extension header. -/
def extLenPos
    (nhc : UInt8) (p : Nat) : Nat :=
  if nhc &&& 0x01 ≠ 0 then p + 1 else p + 2

def udpPortsLen
    (nhc : UInt8) : Nat :=
  if nhc &&& 0x03 = 0x00 then 4
  else if nhc &&& 0x03 = 0x01 then 3
  else if nhc &&& 0x03 = 0x02 then 3
  else 1

/- Ports and checksum, unless it is elided. -/
def udpNhcLen
    (nhc : UInt8) : Nat :=
  udpPortsLen nhc + (if nhc &&& 0x04 ≠ 0 then 0 else 2)

def ExtEid
    (nhc : UInt8) : Prop :=
  nhc &&& 0x0e = 0x00 ∨ nhc &&& 0x0e = 0x02 ∨ nhc &&& 0x0e = 0x04 ∨ nhc &&& 0x0e = 0x06 ∨
    nhc &&& 0x0e = 0x08

instance
    (nhc : UInt8) :
    Decidable (ExtEid nhc) :=
  inferInstanceAs (Decidable (_ ∨ _))

def ExtId
    (nhc : UInt8) : Prop :=
  nhc &&& 0xf8 = 0xe0 ∨ nhc &&& 0xf8 = 0xe8

instance
    (nhc : UInt8) :
    Decidable (ExtId nhc) :=
  inferInstanceAs (Decidable (_ ∨ _))

/- The compressed next headers from `p` on are in the frame. -/
inductive NhcFits
    (data : List UInt8) : Nat → Prop where
  | other
      {p : Nat}
      {b : UInt8}
      (hByte : data[p]? = some b)
      (hExt : ¬ ExtId b)
      (hUdp : b &&& 0xf8 ≠ 0xf0) :
      NhcFits data p
  | udp
      {p : Nat}
      {b : UInt8}
      (hByte : data[p]? = some b)
      (hExt : ¬ ExtId b)
      (hUdp : b &&& 0xf8 = 0xf0)
      (hLen : p + 1 + udpNhcLen b ≤ data.length) :
      NhcFits data p
  | ext
      {p : Nat}
      {b n : UInt8}
      (hByte : data[p]? = some b)
      (hExt : ExtId b)
      (hEid : ExtEid b)
      (hExtLen : data[extLenPos b p]? = some n)
      (hLen : extLenPos b p + 1 + n.toNat ≤ data.length)
      (hNext : b &&& 0x01 ≠ 0 → NhcFits data (extLenPos b p + 1 + n.toNat)) :
      NhcFits data p
  | ipv6
      {p : Nat}
      {b iphc1 iphc2 : UInt8}
      (hByte : data[p]? = some b)
      (hExt : ExtId b)
      (hEid : b &&& 0x0e = 0x0e)
      (hFirst : data[p + 1]? = some iphc1)
      (hSecond : data[p + 2]? = some iphc2)
      (hLen : p + 1 + iphcHdrLen iphc1 iphc2 + iphcOverread iphc2 ≤ data.length)
      (hNext : iphc1 &&& 0x04 ≠ 0 → NhcFits data (p + 1 + iphcHdrLen iphc1 iphc2)) :
      NhcFits data p
  | unknown
      {p : Nat}
      {b : UInt8}
      (hByte : data[p]? = some b)
      (hExt : ExtId b)
      (hNotExt : ¬ ExtEid b)
      (hNotIpv6 : b &&& 0x0e ≠ 0x0e) :
      NhcFits data p

/- All headers are in the frame. -/
def IphcFits
    (nhc : Bool) (data : List UInt8) : Prop :=
  ∃ iphc1 iphc2, data[0]? = some iphc1 ∧ data[1]? = some iphc2 ∧
    iphcHdrLen iphc1 iphc2 + iphcOverread iphc2 ≤ data.length ∧
    (nhc = true → iphc1 &&& 0x04 ≠ 0 → NhcFits data (iphcHdrLen iphc1 iphc2))

----
-- One Header
----

section

variable {env : IphcRecvEnv} {data : List UInt8} {limit p : Nat} {full : Prop}
variable {st : NhcState} {b n iphc1 iphc2 : UInt8}

theorem iphcByte_of_some
    (hByte : data[p]? = some b) :
    iphcByte data p = .ok b := by
  rw [iphcByte, hByte]

theorem iphcByte_of_none
    (hByte : data[p]? = none) :
    iphcByte data p = .error .outside := by
  rw [iphcByte, hByte]

theorem snipRealloc_outcome
    {ipv6 : Ipv6Snip} {size : Nat} (hAll : full → ∀ k, env.realloc k = true) :
    EndsWith (readErr data.length limit full) (fun _ => True) (snipRealloc env ipv6 size) := by
  unfold snipRealloc
  split
  · split
    · exact trivial
    · rename_i hNo
      apply EndsWith.error
      intro hFull
      exact hNo (hAll hFull size)
  · exact trivial

theorem nhcExtProtnum_outcome
    (hEid : ExtEid b) :
    EndsWith (readErr data.length limit full) (fun _ => True) (nhcExtProtnum (b &&& 0x0e)) := by
  rcases hEid with h | h | h | h | h
  · rw [h]
    exact trivial
  · rw [h]
    exact trivial
  · rw [h]
    exact trivial
  · rw [h]
    exact trivial
  · rw [h]
    exact trivial

/- The next header field, with the place of the length. -/
theorem nhcExtNh_outcome
    {ipv6 : Ipv6Snip} {uncomp : Nat} (hPos : 0 < uncomp)
    (hIn : extLenPos b p ≤ limit) :
    EndsWith (readErr data.length limit full)
      (fun r => r.2.2 = extLenPos b p ∧ (0 < r.2.1 ↔ b &&& 0x01 ≠ 0))
      (nhcExtNh data b ipv6 uncomp (p + 1)) := by
  unfold nhcExtNh
  unfold extLenPos at hIn ⊢
  by_cases hNh : b &&& 0x01 = 0
  · rw [if_neg (not_not.mpr hNh)] at hIn ⊢
    rw [if_pos hNh]
    apply EndsWith.bind (iphcByte_outcome (by omega))
    intro nh _
    refine ⟨rfl, ?_⟩
    simp [hNh]
  · rw [if_neg hNh, if_pos hNh]
    refine ⟨rfl, ?_⟩
    simp [hNh, hPos]

theorem nhcExtLen_eq :
    nhcExtLen data b (p + 1) = iphcByte data (extLenPos b p) := by
  unfold nhcExtLen extLenPos
  split <;> rfl

/- An extension header, up to the end that it announces. -/
theorem nhcIpv6ExtDecode_outcome
    (hByte : data[st.payloadOffset]? = some b) (hEid : ExtEid b)
    (hExtLen : data[extLenPos b st.payloadOffset]? = some n)
    (hPos : 0 < st.uncompHdrLen) (hAll : full → ∀ k, env.realloc k = true)
    (hIn : extLenPos b st.payloadOffset + 1 + n.toNat ≤ limit) :
    EndsWith (readErr data.length limit full)
      (fun st' =>
        st'.payloadOffset = extLenPos b st.payloadOffset + 1 + n.toNat ∧
        st'.payloadOffset ≤ data.length ∧ (0 < st'.prevNhOffset ↔ b &&& 0x01 ≠ 0) ∧
        0 < st'.uncompHdrLen)
      (nhcIpv6ExtDecode env data st) := by
  unfold nhcIpv6ExtDecode
  rw [iphcByte_of_some hByte]
  apply EndsWith.bind (EndsWith.ok rfl)
  rintro _ rfl
  dsimp only
  rw [nhcExtLen_eq, iphcByte_of_some hExtLen]
  apply EndsWith.bind (EndsWith.ok rfl)
  rintro _ rfl
  apply EndsWith.bind (snipRealloc_outcome hAll)
  intro ipv6 _
  apply EndsWith.bind (nhcExtProtnum_outcome hEid)
  intro protnum _
  apply EndsWith.bind (nhcExtNh_outcome hPos (by omega))
  rintro ⟨ipv6', prev, offset⟩ ⟨rfl, hPrev⟩
  dsimp only
  apply EndsWith.bind (iphcBytes_outcome (by omega))
  intro bs hRead
  exact ⟨rfl, hRead, hPrev, Nat.add_pos_left hPos _⟩

/- An encapsulated header, up to the end that it announces. -/
theorem nhcIpv6HdrDecode_outcome
    (hFirst : data[st.payloadOffset + 1]? = some iphc1)
    (hSecond : data[st.payloadOffset + 2]? = some iphc2)
    (hAll : full → ∀ k, env.realloc k = true)
    (hFull : full → env.toIphcRecv.Complete)
    (hIn : st.payloadOffset + 1 + iphcHdrLen iphc1 iphc2 + iphcOverread iphc2 ≤ limit) :
    EndsWith (readErr data.length limit full)
      (fun st' =>
        st'.payloadOffset = st.payloadOffset + 1 + iphcHdrLen iphc1 iphc2 ∧
        (iphcOverread iphc2 = 0 ∨
          st.payloadOffset + 1 + iphcHdrLen iphc1 iphc2 + iphcOverread iphc2 ≤ data.length) ∧
        (0 < st'.prevNhOffset ↔ iphc1 &&& 0x04 ≠ 0) ∧ 0 < st'.uncompHdrLen)
      (nhcIpv6HdrDecode env data st) := by
  unfold nhcIpv6HdrDecode
  dsimp only
  apply EndsWith.bind (snipRealloc_outcome hAll)
  intro ipv6 _
  apply EndsWith.bind
    (iphcIpv6Decode_outcome (iphcByte_of_some hFirst) (iphcByte_of_some hSecond) hFull hIn)
  rintro ⟨hdr, len⟩ ⟨rfl, hOver⟩
  dsimp only
  rw [iphcByte_of_some hFirst]
  apply EndsWith.bind (EndsWith.ok rfl)
  rintro _ rfl
  refine ⟨rfl, hOver, ?_, by simp [sizeofIpv6Hdr]⟩
  dsimp only
  split
  · rename_i hNh
    simp [hNh, ipv6HdrNh]
  · rename_i hNh
    simp only [Nat.lt_irrefl, false_iff]
    exact hNh

theorem nhcUdpPorts_outcome
    (hIn : p + udpPortsLen b ≤ limit) :
    EndsWith (readErr data.length limit full)
      (fun r => r.2 = p + udpPortsLen b ∧ r.2 ≤ data.length)
      (nhcUdpPorts data b p) := by
  unfold nhcUdpPorts
  unfold udpPortsLen at hIn ⊢
  split
  · rename_i hForm
    rw [if_pos hForm] at hIn
    apply EndsWith.bind (iphcByte_outcome (by omega))
    intro s₀ _
    apply EndsWith.bind (iphcByte_outcome (by omega))
    intro s₁ _
    apply EndsWith.bind (iphcByte_outcome (by omega))
    intro d₀ _
    apply EndsWith.bind (iphcByte_outcome (by omega))
    intro d₁ hRead
    exact ⟨rfl, hRead⟩
  · rename_i hForm₀
    rw [if_neg hForm₀] at hIn
    split
    · rename_i hForm
      rw [if_pos hForm] at hIn
      apply EndsWith.bind (iphcByte_outcome (by omega))
      intro s₀ _
      apply EndsWith.bind (iphcByte_outcome (by omega))
      intro s₁ _
      apply EndsWith.bind (iphcByte_outcome (by omega))
      intro d hRead
      exact ⟨rfl, hRead⟩
    · rename_i hForm₁
      rw [if_neg hForm₁] at hIn
      split
      · rename_i hForm
        rw [if_pos hForm] at hIn
        apply EndsWith.bind (iphcByte_outcome (by omega))
        intro s _
        apply EndsWith.bind (iphcByte_outcome (by omega))
        intro d₀ _
        apply EndsWith.bind (iphcByte_outcome (by omega))
        intro d₁ hRead
        exact ⟨rfl, hRead⟩
      · rename_i hForm₂
        rw [if_neg hForm₂] at hIn
        apply EndsWith.bind (iphcByte_outcome (by omega))
        intro tmp hRead
        exact ⟨rfl, hRead⟩

/- With an elided checksum 0 is returned behind the ports. -/
theorem nhcUdpDecode_outcome
    (hByte : data[st.payloadOffset]? = some b)
    (hAll : full → ∀ k, env.realloc k = true)
    (hShort : full → b &&& 0x04 ≠ 0 → data.length < st.payloadOffset + 1 + udpNhcLen b)
    (hIn : st.payloadOffset + 1 + udpNhcLen b ≤ limit) :
    EndsWith (readErr data.length limit full)
      (fun st' =>
        st'.payloadOffset = st.payloadOffset + 1 + udpNhcLen b ∧
        st'.payloadOffset ≤ data.length)
      (nhcUdpDecode env data st) := by
  unfold nhcUdpDecode
  unfold udpNhcLen at hShort hIn ⊢
  rw [iphcByte_of_some hByte]
  apply EndsWith.bind (EndsWith.ok rfl)
  rintro _ rfl
  apply EndsWith.bind (snipRealloc_outcome hAll)
  intro ipv6 _
  apply EndsWith.bind (nhcUdpPorts_outcome (by omega))
  rintro ⟨ports, offset⟩ ⟨rfl, hPorts⟩
  dsimp only at hPorts ⊢
  by_cases hElided : b &&& 0x04 ≠ 0
  · rw [if_pos hElided] at hShort
    rw [if_pos hElided, if_pos hElided]
    apply EndsWith.error
    intro hFull
    have hLen := hShort hFull hElided
    omega
  · rw [if_neg hElided] at hIn
    rw [if_neg hElided, if_neg hElided]
    apply EndsWith.bind (iphcByte_outcome (by omega))
    intro c₀ _
    apply EndsWith.bind (iphcByte_outcome (by omega))
    intro c₁ hRead
    exact ⟨by dsimp only; omega, hRead⟩

end

----
-- Frames That Are Long Enough
----

section

variable {env : IphcRecvEnv} {data : List UInt8} {st : NhcState}

theorem nhcIpv6Decode_ext
    {b : UInt8} (hByte : data[st.payloadOffset]? = some b) (hEid : ExtEid b) :
    nhcIpv6Decode env data st = nhcIpv6ExtDecode env data st := by
  unfold nhcIpv6Decode
  rw [iphcByte_of_some hByte, ok_bind]
  exact if_pos hEid

theorem nhcIpv6Decode_ipv6
    {b : UInt8} (hByte : data[st.payloadOffset]? = some b)
    (hEid : b &&& 0x0e = 0x0e) :
    nhcIpv6Decode env data st = nhcIpv6HdrDecode env data st := by
  unfold nhcIpv6Decode
  rw [iphcByte_of_some hByte, ok_bind, hEid]
  rfl

theorem nhcIpv6Decode_unknown
    {b : UInt8} (hByte : data[st.payloadOffset]? = some b) (hNotExt : ¬ ExtEid b)
    (hNotIpv6 : b &&& 0x0e ≠ 0x0e) :
    nhcIpv6Decode env data st = .ok st := by
  unfold nhcIpv6Decode
  rw [iphcByte_of_some hByte, ok_bind]
  exact (if_neg hNotExt).trans (if_neg hNotIpv6)

theorem nhcStep_ext
    {b : UInt8} (hByte : data[st.payloadOffset]? = some b) (hExt : ExtId b) :
    nhcStep env data st = (do
        let st ← nhcIpv6Decode env data st
        .ok (st, decide (st.prevNhOffset > 0))) := by
  unfold nhcStep
  rw [iphcByte_of_some hByte, ok_bind]
  exact if_pos hExt

theorem nhcStep_udp
    {b : UInt8} (hByte : data[st.payloadOffset]? = some b) (hExt : ¬ ExtId b)
    (hUdp : b &&& 0xf8 = 0xf0) :
    nhcStep env data st = (do
        let st ← nhcUdpDecode env data st
        .ok (st, false)) := by
  unfold nhcStep
  rw [iphcByte_of_some hByte, ok_bind]
  exact (if_neg hExt).trans (if_pos hUdp)

theorem nhcStep_other
    {b : UInt8} (hByte : data[st.payloadOffset]? = some b) (hExt : ¬ ExtId b)
    (hUdp : b &&& 0xf8 ≠ 0xf0) :
    nhcStep env data st = .ok (st, false) := by
  unfold nhcStep
  rw [iphcByte_of_some hByte, ok_bind]
  exact (if_neg hExt).trans (if_neg hUdp)

/- The state from which the chain goes on. -/
structure NhcGoing
    (st : NhcState) : Prop where
  uncomp : 0 < st.uncompHdrLen
  prev : 0 < st.prevNhOffset

/- One header of a chain that fits. -/
theorem nhcStep_safe
    (hFits : NhcFits data st.payloadOffset) (hGoing : NhcGoing st) :
    EndsWith (readErr data.length data.length False)
      (fun r =>
        (r.2 = false → r.1.payloadOffset ≤ data.length) ∧
        (r.2 = true → NhcFits data r.1.payloadOffset ∧ NhcGoing r.1))
      (nhcStep env data st) := by
  generalize hOff : st.payloadOffset = p at hFits
  cases hFits with
  | other hByte hExt hUdp =>
    subst hOff
    have hLt := (List.getElem?_eq_some_iff.mp hByte).1
    rw [nhcStep_other hByte hExt hUdp]
    refine ⟨fun _ => Nat.le_of_lt hLt, ?_⟩
    intro hMore
    cases hMore
  | udp hByte hExt hUdp hLen =>
    subst hOff
    rw [nhcStep_udp hByte hExt hUdp]
    apply EndsWith.bind (nhcUdpDecode_outcome hByte False.elim False.elim hLen)
    rintro st' ⟨_, hIn⟩
    refine ⟨fun _ => hIn, ?_⟩
    intro hMore
    cases hMore
  | ext hByte hExt hEid hExtLen hLen hNext =>
    subst hOff
    rw [nhcStep_ext hByte hExt, nhcIpv6Decode_ext hByte hEid]
    apply EndsWith.bind (nhcIpv6ExtDecode_outcome hByte hEid hExtLen hGoing.uncomp False.elim hLen)
    rintro st' ⟨hEnd, hIn, hPrev, hUncomp⟩
    refine ⟨fun _ => hIn, ?_⟩
    intro hMore
    have hNh := of_decide_eq_true hMore
    rw [hEnd]
    exact ⟨hNext (hPrev.mp hNh), hUncomp, hNh⟩
  | ipv6 hByte hExt hEid hFirst hSecond hLen hNext =>
    subst hOff
    rw [nhcStep_ext hByte hExt, nhcIpv6Decode_ipv6 hByte hEid]
    apply EndsWith.bind (nhcIpv6HdrDecode_outcome hFirst hSecond False.elim False.elim hLen)
    rintro st' ⟨hEnd, _, hPrev, hUncomp⟩
    refine ⟨?_, ?_⟩
    · intro _
      rw [hEnd]
      omega
    · intro hMore
      have hNh := of_decide_eq_true hMore
      rw [hEnd]
      exact ⟨hNext (hPrev.mp hNh), hUncomp, hNh⟩
  | unknown hByte hExt hNotExt hNotIpv6 =>
    subst hOff
    rw [nhcStep_ext hByte hExt, nhcIpv6Decode_unknown hByte hNotExt hNotIpv6, ok_bind]
    refine ⟨?_, ?_⟩
    · intro hMore
      exact absurd hGoing.prev (of_decide_eq_false hMore)
    · intro _
      exact ⟨.unknown hByte hExt hNotExt hNotIpv6, hGoing⟩

/- The whole chain, by induction over the rounds. -/
theorem nhcLoop_safe
    {fuel : Nat} (hFits : NhcFits data st.payloadOffset) (hGoing : NhcGoing st) :
    EndsWith (readErr data.length data.length False)
      (fun r => ∀ st', r = some st' → st'.payloadOffset ≤ data.length)
      (nhcLoop env data fuel st) := by
  induction fuel generalizing st with
  | zero =>
    intro st' hNone
    cases hNone
  | succ fuel ih =>
    apply EndsWith.bind (nhcStep_safe hFits hGoing)
    rintro ⟨st', more⟩ ⟨hEnd, hNext⟩
    cases more with
    | true => exact ih (hNext rfl).1 (hNext rfl).2
    | false =>
      intro st'' hSome
      cases hSome
      exact hEnd rfl

end

----
-- Frames That Are Too Short
----

/- A read outside, or an end outside of the frame. -/
def HeadersBad
    (data : List UInt8) (r : Except IphcErr (Option NhcState)) : Prop :=
  r = .error .outside ∨ ∃ st, r = .ok (some st) ∧ data.length < st.payloadOffset

section

variable {env : IphcRecvEnv} {data : List UInt8} {st st' : NhcState} {fuel : Nat}

/- With everything looked up only a read can fail. -/
theorem ok_or_outside
    {α : Type} {P : α → Prop} {size limit : Nat} {r : Except IphcErr α}
    (hOut : EndsWith (readErr size limit True) P r) :
    (∃ a, r = .ok a ∧ P a) ∨ r = .error .outside := by
  cases r with
  | ok a => exact Or.inl ⟨a, rfl, hOut⟩
  | error e =>
    cases e with
    | outside => exact Or.inr rfl
    | zero => exact absurd trivial hOut
    | assertion => exact False.elim hOut

theorem bad_of_step_outside
    (hStep : nhcStep env data st = .error .outside) :
    HeadersBad data (nhcLoop env data 1 st) := by
  left
  rw [nhcLoop, hStep, error_bind]

theorem bad_of_step_end
    (hStep : nhcStep env data st = .ok (st', false))
    (hEnd : data.length < st'.payloadOffset) :
    HeadersBad data (nhcLoop env data 1 st) := by
  right
  refine ⟨st', ?_, hEnd⟩
  rw [nhcLoop, hStep, ok_bind]
  rfl

theorem bad_of_step_more
    (hStep : nhcStep env data st = .ok (st', true))
    (hBad : HeadersBad data (nhcLoop env data fuel st')) :
    HeadersBad data (nhcLoop env data (fuel + 1) st) := by
  rw [nhcLoop, hStep, ok_bind]
  exact hBad

theorem nhcStep_of_none
    (hByte : data[st.payloadOffset]? = none) :
    nhcStep env data st = .error .outside := by
  unfold nhcStep
  rw [iphcByte_of_none hByte, error_bind]

/- The kinds of headers in the chain. -/
theorem nhc_kinds
    (b : UInt8) :
    (¬ ExtId b ∧ b &&& 0xf8 ≠ 0xf0) ∨ (¬ ExtId b ∧ b &&& 0xf8 = 0xf0) ∨ (ExtId b ∧ ExtEid b) ∨
    (ExtId b ∧ b &&& 0x0e = 0x0e) ∨ (ExtId b ∧ ¬ ExtEid b ∧ b &&& 0x0e ≠ 0x0e) := by
  by_cases hExt : ExtId b
  · by_cases hEid : ExtEid b
    · exact Or.inr (Or.inr (Or.inl ⟨hExt, hEid⟩))
    · by_cases hIpv6 : b &&& 0x0e = 0x0e
      · exact Or.inr (Or.inr (Or.inr (Or.inl ⟨hExt, hIpv6⟩)))
      · exact Or.inr (Or.inr (Or.inr (Or.inr ⟨hExt, hEid, hIpv6⟩)))
  · by_cases hUdp : b &&& 0xf8 = 0xf0
    · exact Or.inr (Or.inl ⟨hExt, hUdp⟩)
    · exact Or.inl ⟨hExt, hUdp⟩

/- A chain that fits begins in the frame. -/
theorem nhcFits_lt
    {p : Nat} (hFits : NhcFits data p) :
    p < data.length := by
  cases hFits with
  | other hByte => exact (List.getElem?_eq_some_iff.mp hByte).1
  | udp hByte => exact (List.getElem?_eq_some_iff.mp hByte).1
  | ext hByte => exact (List.getElem?_eq_some_iff.mp hByte).1
  | ipv6 hByte => exact (List.getElem?_eq_some_iff.mp hByte).1
  | unknown hByte => exact (List.getElem?_eq_some_iff.mp hByte).1

variable (hAll : ∀ k, env.realloc k = true) (hFull : env.toIphcRecv.Complete)

include hAll in
theorem udp_fits_or_bad
    {b : UInt8} (hByte : data[st.payloadOffset]? = some b) (hExt : ¬ ExtId b)
    (hUdp : b &&& 0xf8 = 0xf0) :
    NhcFits data st.payloadOffset ∨ ∃ fuel, HeadersBad data (nhcLoop env data fuel st) := by
  by_cases hLen : st.payloadOffset + 1 + udpNhcLen b ≤ data.length
  · exact Or.inl (.udp hByte hExt hUdp hLen)
  · have hShort := Nat.not_le.mp hLen
    have hOut : EndsWith (readErr data.length _ True) _ (nhcUdpDecode env data st) :=
      nhcUdpDecode_outcome hByte (fun _ => hAll) (fun _ _ => hShort) (Nat.le_refl _)
    refine Or.inr ⟨1, bad_of_step_outside ?_⟩
    rw [nhcStep_udp hByte hExt hUdp]
    rcases ok_or_outside hOut with ⟨st', _, hEnd, hIn⟩ | hErr
    · rw [hEnd] at hIn
      exact absurd hIn hLen
    · rw [hErr, error_bind]

variable
  (hRest :
    ∀ st', st.payloadOffset < st'.payloadOffset → NhcGoing st' →
      NhcFits data st'.payloadOffset ∨ ∃ fuel, HeadersBad data (nhcLoop env data fuel st'))

theorem lt_extLenPos
    (b : UInt8) (p : Nat) :
    p < extLenPos b p := by
  unfold extLenPos
  split <;> omega

include hAll hRest in
theorem ext_fits_or_bad
    {b : UInt8} (hByte : data[st.payloadOffset]? = some b) (hExt : ExtId b)
    (hEid : ExtEid b) (hGoing : NhcGoing st) :
    NhcFits data st.payloadOffset ∨ ∃ fuel, HeadersBad data (nhcLoop env data fuel st) := by
  have hStep : nhcStep env data st = _ := nhcStep_ext hByte hExt
  rw [nhcIpv6Decode_ext hByte hEid] at hStep
  cases hExtLen : data[extLenPos b st.payloadOffset]? with
  | none =>
    refine Or.inr ⟨1, bad_of_step_outside ?_⟩
    rw [hStep, nhcIpv6ExtDecode, iphcByte_of_some hByte, ok_bind]
    dsimp only
    rw [nhcExtLen_eq, iphcByte_of_none hExtLen, error_bind, error_bind]
  | some n =>
    have hOut : EndsWith (readErr data.length _ True) _ (nhcIpv6ExtDecode env data st) :=
      nhcIpv6ExtDecode_outcome hByte hEid hExtLen hGoing.uncomp (fun _ => hAll) (Nat.le_refl _)
    rcases ok_or_outside hOut with ⟨st', hOk, hEnd, hIn, hPrev, hUncomp⟩ | hErr
    · rw [hOk, ok_bind] at hStep
      rw [hEnd] at hIn
      by_cases hNh : b &&& 0x01 ≠ 0
      · have hPrevPos := hPrev.mpr hNh
        have hMore : decide (st'.prevNhOffset > 0) = true := decide_eq_true hPrevPos
        have hPos := lt_extLenPos b st.payloadOffset
        rw [hMore] at hStep
        rcases hRest st' (by omega) ⟨hUncomp, hPrevPos⟩ with hFits | ⟨fuel, hBad⟩
        · rw [hEnd] at hFits
          exact Or.inl (.ext hByte hExt hEid hExtLen hIn (fun _ => hFits))
        · exact Or.inr ⟨fuel + 1, bad_of_step_more hStep hBad⟩
      · exact Or.inl (.ext hByte hExt hEid hExtLen hIn (fun h => absurd h hNh))
    · rw [hErr, error_bind] at hStep
      exact Or.inr ⟨1, bad_of_step_outside hStep⟩

/- Without its first two bytes a header is not decoded. -/
theorem nhcIpv6HdrDecode_none
    (hAll : ∀ k, env.realloc k = true)
    (hByte : data[st.payloadOffset + 1]? = none ∨ data[st.payloadOffset + 2]? = none) :
    nhcIpv6HdrDecode env data st = .error .outside := by
  have hSecond : data[st.payloadOffset + 1 + 1]? = none := by
    rw [List.getElem?_eq_none_iff] at hByte ⊢
    rw [List.getElem?_eq_none_iff] at hByte
    omega
  have hOk : ∃ ipv6, snipRealloc env st.ipv6 (st.uncompHdrLen + sizeofIpv6Hdr) = .ok ipv6 := by
    unfold snipRealloc
    rw [hAll, if_pos rfl]
    split
    · exact ⟨_, rfl⟩
    · exact ⟨_, rfl⟩
  rcases hOk with ⟨ipv6, hOk⟩
  unfold nhcIpv6HdrDecode
  dsimp only
  rw [hOk, ok_bind, iphcIpv6Decode, iphcByte_of_none hSecond, error_bind, error_bind]

include hAll hFull hRest in
theorem ipv6_fits_or_bad
    {b : UInt8} (hByte : data[st.payloadOffset]? = some b) (hExt : ExtId b)
    (hEid : b &&& 0x0e = 0x0e) :
    NhcFits data st.payloadOffset ∨ ∃ fuel, HeadersBad data (nhcLoop env data fuel st) := by
  have hStep : nhcStep env data st = _ := nhcStep_ext hByte hExt
  rw [nhcIpv6Decode_ipv6 hByte hEid] at hStep
  cases hFirst : data[st.payloadOffset + 1]? with
  | none =>
    rw [nhcIpv6HdrDecode_none hAll (Or.inl hFirst), error_bind] at hStep
    exact Or.inr ⟨1, bad_of_step_outside hStep⟩
  | some iphc1 =>
    cases hSecond : data[st.payloadOffset + 2]? with
    | none =>
      rw [nhcIpv6HdrDecode_none hAll (Or.inr hSecond), error_bind] at hStep
      exact Or.inr ⟨1, bad_of_step_outside hStep⟩
    | some iphc2 =>
      have hOut : EndsWith (readErr data.length _ True) _ (nhcIpv6HdrDecode env data st) :=
        nhcIpv6HdrDecode_outcome hFirst hSecond (fun _ => hAll) (fun _ => hFull) (Nat.le_refl _)
      rcases ok_or_outside hOut with ⟨st', hOk, hEnd, hOver, hPrev, hUncomp⟩ | hErr
      · rw [hOk, ok_bind] at hStep
        by_cases hNh : iphc1 &&& 0x04 ≠ 0
        · have hPrevPos := hPrev.mpr hNh
          have hMore : decide (st'.prevNhOffset > 0) = true := decide_eq_true hPrevPos
          rw [hMore] at hStep
          rcases hRest st' (by omega) ⟨hUncomp, hPrevPos⟩ with hFits | ⟨fuel, hBad⟩
          · -- the next header is in the frame
            have hNext := nhcFits_lt hFits
            rw [hEnd] at hFits
            exact Or.inl (.ipv6 hByte hExt hEid hFirst hSecond (by omega) (fun _ => hFits))
          · exact Or.inr ⟨fuel + 1, bad_of_step_more hStep hBad⟩
        · have hStop : decide (st'.prevNhOffset > 0) = false :=
            decide_eq_false (fun h => hNh (hPrev.mp h))
          rw [hStop] at hStep
          by_cases hIn : st'.payloadOffset ≤ data.length
          · exact Or.inl (.ipv6 hByte hExt hEid hFirst hSecond (by omega) (fun h => absurd h hNh))
          · exact Or.inr ⟨1, bad_of_step_end hStep (Nat.not_le.mp hIn)⟩
      · rw [hErr, error_bind] at hStep
        exact Or.inr ⟨1, bad_of_step_outside hStep⟩

omit hRest in
include hAll hFull in
/-
  With everything looked up, a chain that does not fit is read
  outside of the frame. Each header moves the offset on, so the
  induction is over the bytes behind it.
-/
theorem nhcLoop_fits_or_bad
    (k : Nat) (hLeft : data.length - st.payloadOffset < k) (hGoing : NhcGoing st) :
    NhcFits data st.payloadOffset ∨ ∃ fuel, HeadersBad data (nhcLoop env data fuel st) := by
  induction k generalizing st with
  | zero => omega
  | succ k ih =>
    cases hByte : data[st.payloadOffset]? with
    | none => exact Or.inr ⟨1, bad_of_step_outside (nhcStep_of_none hByte)⟩
    | some b =>
      have hLt := (List.getElem?_eq_some_iff.mp hByte).1
      have hRest : ∀ st', st.payloadOffset < st'.payloadOffset → NhcGoing st' →
            NhcFits data st'.payloadOffset ∨ ∃ fuel, HeadersBad data (nhcLoop env data fuel st') :=
        fun st' hMoved => ih (by omega)
      rcases nhc_kinds b with
        ⟨hExt, hUdp⟩ | ⟨hExt, hUdp⟩ | ⟨hExt, hEid⟩ | ⟨hExt, hEid⟩ | ⟨hExt, hNotExt, hNotIpv6⟩
      · exact Or.inl (.other hByte hExt hUdp)
      · exact udp_fits_or_bad hAll hByte hExt hUdp
      · exact ext_fits_or_bad hAll hRest hByte hExt hEid hGoing
      · exact ipv6_fits_or_bad hAll hFull hRest hByte hExt hEid
      · exact Or.inl (.unknown hByte hExt hNotExt hNotIpv6)

end

----
-- Reception
----

/-
  Whatever the receiver knows and whatever memory there is,
  nothing is read outside of the frame, and the headers end in
  it.
-/
def RecvSafe
    (nhc : Bool) (data : List UInt8) : Prop :=
  ∀ env : IphcRecvEnv, env.nhc = nhc → ∀ fuel, iphcRecv env data fuel ≠ .error .outside ∧
    ∀ st, iphcHeaders env data fuel = .ok (some st) → st.payloadOffset ≤ data.length

section

variable {env : IphcRecvEnv} {nhc : Bool} {data : List UInt8} {fuel : Nat}

theorem iphcHeaders_safe
    (hFits : IphcFits env.nhc data) :
    EndsWith (fun e => e ≠ .outside)
      (fun r => ∀ st, r = some st → st.payloadOffset ≤ data.length)
      (iphcHeaders env data fuel) := by
  rcases hFits with ⟨iphc1, iphc2, hFirst, hSecond, hLen, hNext⟩
  have hErr : ∀ e, readErr data.length data.length False e → e ≠ .outside := by
    rintro _ hRead rfl
    exact Nat.lt_irrefl _ hRead
  unfold iphcHeaders
  cases env.ipv6 with
  | none => exact EndsWith.error (by decide)
  | some ipv6 =>
    dsimp only
    split
    · exact EndsWith.error (by decide)
    · have hHdr : EndsWith (readErr data.length data.length False) _
            (iphcIpv6Decode env.toIphcRecv data 0) :=
        iphcIpv6Decode_outcome (iphcByte_of_some hFirst)
          (iphcByte_of_some hSecond) False.elim
          (by rw [Nat.zero_add]; exact hLen)
      apply EndsWith.bind (hHdr.mono hErr (fun _ h => h))
      rintro ⟨hdr, n⟩ ⟨rfl, _⟩
      dsimp only
      rw [iphcByte_of_some hFirst, ok_bind]
      split
      · rename_i hNh
        rw [Bool.and_eq_true, decide_eq_true_eq] at hNh
        have hLoop :
            EndsWith (readErr data.length data.length False) _ (nhcLoop env data fuel _) :=
          @nhcLoop_safe env data
            { ipv6 := ipv6.put 0 hdr.toBytes
              uncompHdrLen := sizeofIpv6Hdr
              prevNhOffset := ipv6HdrNh
              payloadOffset := iphcHdrLen iphc1 iphc2 }
            fuel (hNext hNh.1 hNh.2)
            ⟨Nat.succ_pos 39, Nat.succ_pos 5⟩
        exact hLoop.mono hErr (fun _ h => h)
      · intro st hSome
        cases hSome
        dsimp only
        omega

theorem recvRealloc_outcome
    {ipv6 : Ipv6Snip} {size : Nat} :
    EndsWith (fun e => e ≠ .outside) (fun _ => True) (recvRealloc env ipv6 size) := by
  unfold recvRealloc
  split
  · exact trivial
  · split
    · exact trivial
    · exact EndsWith.error (by decide)

theorem iphcRecv_safe
    (hFits : IphcFits env.nhc data) :
    EndsWith (fun e => e ≠ .outside) (fun _ => True) (iphcRecv env data fuel) := by
  apply EndsWith.bind (iphcHeaders_safe hFits)
  intro r hEnd
  cases r with
  | none => exact trivial
  | some st =>
    have hIn := hEnd st rfl
    have hLeft : sizeSub data.length st.payloadOffset = data.length - st.payloadOffset := if_pos hIn
    dsimp only
    apply EndsWith.bind recvRealloc_outcome
    intro ipv6 _
    have hRead : EndsWith (readErr data.length data.length False)
          (fun _ => _)
          (iphcBytes data st.payloadOffset (sizeSub data.length st.payloadOffset)) :=
      iphcBytes_outcome (by rw [hLeft]; omega)
    apply EndsWith.bind (hRead.mono _ (fun _ h => h))
    · intro bs _
      exact trivial
    · rintro _ hErr rfl
      exact Nat.lt_irrefl _ hErr

/- A receiver that knows everything and has memory enough. -/
def fullRecv
    (nhc : Bool) : IphcRecvEnv :=
  { ctxs := fun _ => ⟨fun _ => 0, 1, true⟩
    srcIid := some (fun _ => 0)
    dstIid := some (fun _ => 0)
    nhc := nhc
    rbuf := none
    ipv6 := some ⟨sizeofIpv6Hdr, fun _ => 0⟩
    realloc := fun _ => true }

theorem fullRecv_complete :
    (fullRecv nhc).toIphcRecv.Complete :=
  ⟨fun _ => rfl, rfl, rfl⟩

/- Such a receiver starts with the first header. -/
theorem iphcHeaders_fullRecv :
    iphcHeaders (fullRecv nhc) data fuel = (do
        let (hdr, n) ← iphcIpv6Decode (fullRecv nhc).toIphcRecv data 0
        let iphc1 ← iphcByte data 0
        if nhc && iphc1 &&& 0x04 ≠ 0 then
          nhcLoop (fullRecv nhc) data fuel
            { ipv6 := Ipv6Snip.put ⟨sizeofIpv6Hdr, fun _ => 0⟩ 0
                hdr.toBytes
              uncompHdrLen := sizeofIpv6Hdr
              prevNhOffset := ipv6HdrNh
              payloadOffset := n }
        else
          .ok (some
            { ipv6 := Ipv6Snip.put ⟨sizeofIpv6Hdr, fun _ => 0⟩ 0
                hdr.toBytes
              uncompHdrLen := sizeofIpv6Hdr
              prevNhOffset := ipv6HdrNh
              payloadOffset := n })) := by
  rfl

theorem not_bad_of_recvSafe
    (hSafe : RecvSafe nhc data) :
    ¬ HeadersBad data (iphcHeaders (fullRecv nhc) data fuel) := by
  rcases hSafe (fullRecv nhc) rfl fuel with ⟨hReads, hEnd⟩
  rintro (hErr | ⟨st, hOk, hBeyond⟩)
  · apply hReads
    rw [iphcRecv, hErr, error_bind]
  · exact Nat.not_le.mpr hBeyond (hEnd st hOk)

/- A header that is not there is read all the same. -/
theorem iphcFits_of_not_bad
    (hGood : ∀ fuel, ¬ HeadersBad data (iphcHeaders (fullRecv nhc) data fuel)) :
    IphcFits nhc data := by
  simp only [iphcHeaders_fullRecv] at hGood
  cases hSecond : data[1]? with
  | none =>
    apply False.elim
    apply hGood 0
    left
    rw [iphcIpv6Decode, iphcByte_of_none hSecond, error_bind, error_bind]
  | some iphc2 =>
    have hTwo := (List.getElem?_eq_some_iff.mp hSecond).1
    have hFirst : data[0]? = some data[0] := List.getElem?_eq_getElem (by omega)
    have hOut :
        EndsWith (readErr data.length _ True) _ (iphcIpv6Decode (fullRecv nhc).toIphcRecv data 0) :=
      iphcIpv6Decode_outcome (iphcByte_of_some hFirst)
        (iphcByte_of_some hSecond) (fun _ => fullRecv_complete)
        (Nat.le_refl _)
    rcases ok_or_outside hOut with ⟨⟨hdr, n⟩, hOk, rfl, hOver⟩ | hErr
    · rw [hOk] at hGood
      simp only [ok_bind, iphcByte_of_some hFirst] at hGood
      by_cases hNh : nhc = true ∧ data[0] &&& 0x04 ≠ 0
      · have hCond : (nhc && decide (data[0] &&& 0x04 ≠ 0)) = true := by
          simpa using hNh
        simp only [if_pos hCond] at hGood
        rcases @nhcLoop_fits_or_bad (fullRecv nhc) data
          { ipv6 := Ipv6Snip.put ⟨sizeofIpv6Hdr, fun _ => 0⟩ 0
              hdr.toBytes
            uncompHdrLen := sizeofIpv6Hdr
            prevNhOffset := ipv6HdrNh
            payloadOffset := iphcHdrLen data[0] iphc2 }
          (fun _ => rfl) fullRecv_complete _
          (Nat.lt_succ_self _)
          ⟨Nat.succ_pos 39, Nat.succ_pos 5⟩ with
          hFits | ⟨fuel, hBad⟩
        · have hNext := nhcFits_lt hFits
          dsimp only at hNext hOver
          exact ⟨data[0], iphc2, hFirst, hSecond, by omega, fun _ _ => hFits⟩
        · exact absurd hBad (hGood fuel)
      · have hCond : ¬ (nhc && decide (data[0] &&& 0x04 ≠ 0)) = true := by
          simpa using hNh
        simp only [if_neg hCond] at hGood
        refine ⟨data[0], iphc2, hFirst, hSecond, ?_, fun h₁ h₂ => absurd ⟨h₁, h₂⟩ hNh⟩
        by_contra hLen
        apply hGood 0
        right
        refine ⟨_, rfl, ?_⟩
        dsimp only at hOver ⊢
        omega
    · apply False.elim
      apply hGood 0
      left
      rw [hErr, error_bind]

/- Nothing is read outside exactly if the headers fit. -/
theorem recvSafe_iff_iphcFits
    (nhc : Bool) (data : List UInt8) :
    RecvSafe nhc data ↔ IphcFits nhc data := by
  constructor
  · intro hSafe
    exact iphcFits_of_not_bad (fun fuel => not_bad_of_recvSafe hSafe)
  · intro hFits env hNhc fuel
    subst hNhc
    refine ⟨?_, ?_⟩
    · intro hErr
      have hOut : EndsWith _ _ (iphcRecv env data fuel) := iphcRecv_safe hFits
      rw [hErr] at hOut
      exact hOut rfl
    · intro st hOk
      have hOut : EndsWith _ _ (iphcHeaders env data fuel) := iphcHeaders_safe hFits
      rw [hOk] at hOut
      exact hOut st rfl

/- Both addresses from the link layer, and no chain. -/
example : IphcFits true [0x7a, 0x33, 58] :=
  ⟨0x7a, 0x33, rfl, rfl, by decide, fun _ h => absurd rfl h⟩

/- A frame of one byte is read behind its end. -/
theorem not_recvSafe_one_byte :
    ¬ RecvSafe true [0x60] := by
  intro hSafe
  rcases hSafe (fullRecv true) rfl 0 with ⟨hReads, _⟩
  exact hReads rfl

end

end Riot
