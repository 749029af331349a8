import Riot.Net.SixlowpanFragRb

/-
  The reassembly of fragments of any length.

  The code does not compare the size of a received frame with
  the size of its headers. It subtracts them as unsigned
  numbers of the width of `size_t`, and it reads on in the
  memory behind the frame. Here `_rbuf_add` first says what it
  is going to do, so that a copy can be judged before it is
  made.
-/

open ByteBuffer

----
-- Frames in Memory
----

namespace Riot

/- A received fragment, and what lies behind it. -/
structure FragMem where
  frame : FragFrame
  behind : Nat → UInt8

namespace FragMem

variable (w : Nat) (m : FragMem)

def size : Nat :=
  m.frame.data.length

def byte
    (pos : Nat) : UInt8 :=
  (m.frame.data[pos]?).getD (m.behind (pos - m.size))

def sixlowpanFrag1Is : Bool :=
  m.byte 0 &&& 0xf8 == 0xc0

def sixlowpanFragNIs : Bool :=
  m.byte 0 &&& 0xf8 == 0xe0

def sixlowpanFragDatagramSize : Nat :=
  fromNetwork [m.byte 0, m.byte 1] &&& 0x07ff

def sixlowpanFragDatagramTag : Nat :=
  fromNetwork [m.byte 2, m.byte 3]

def sixlowpanFragOffset : Nat :=
  (m.byte 4).toNat * 8

def sixlowpanIphcIs
    (pos : Nat) : Bool :=
  m.byte pos &&& 0xe0 == 0x60

def key : FragKey :=
  ⟨m.frame.src, m.frame.dst, m.sixlowpanFragDatagramSize, m.sixlowpanFragDatagramTag⟩

----
-- Adding a Fragment
----

/- A difference of two numbers of type `size_t`. -/
def sizeSub
    (a b : Nat) : Nat :=
  (a + (2 ^ w - b)) % 2 ^ w

def validOffset
    (offset : Nat) : Bool :=
  (m.sixlowpanFrag1Is && offset == 0) || (m.sixlowpanFragNIs && offset == m.sixlowpanFragOffset)

/- Where the payload of a fragment starts. -/
def sixloFragPayload : Nat :=
  if m.sixlowpanFrag1Is then 4 else 5

def sixloFragSize
    (offset pos : Nat) : Nat :=
  if offset == 0 then
    if m.byte pos == sixlowpanUncomp then
      sizeSub w (sizeSub w m.size 4) 1
    else
      sizeSub w m.size 4
  else
    sizeSub w m.size 5

/-
  A copy of `size` bytes at `pos` in the frame, to `offset` in
  the packet of the datagram.
-/
structure Copy where
  offset : Nat
  pos : Nat
  size : Nat
deriving DecidableEq, Repr

end FragMem

/- What is left to do with the fragment. -/
inductive FragAction where
  | error
  | again
  | duplicate (k : Nat)
  | iphc (k : Nat)
  | copy (k : Nat) (c : FragMem.Copy)
deriving DecidableEq, Repr

namespace FragMem

variable (w : Nat) (cfg : FragRbConfig) (env again : FragRbEnv) (s : FragRb) (m : FragMem)

/- How the data of a new interval is added. -/
def rbufAddPayload
    (k offset fragSize pos : Nat) : FragAction :=
  if offset == 0 then
    if m.sixlowpanIphcIs pos && cfg.iphcRecv.isSome then
      .iphc k
    else if m.byte pos == sixlowpanUncomp then
      .copy k ⟨offset, pos + 1, fragSize⟩
    else
      .copy k ⟨offset, pos, fragSize⟩
  else
    .copy k ⟨offset, pos, fragSize⟩

/- Add the size of a fragment to the entry. -/
def addCurrentSize
    (k fragSize : Nat) : FragRb :=
  { s with
    rbuf := Function.update s.rbuf k
      { s.rbuf k with currentSize := ((s.rbuf k).currentSize + fragSize % 2 ^ 16) % 2 ^ 16 } }

/- Add a fragment to the entry of its datagram. -/
def rbufAddTo
    (k offset fragSize pos : Nat) :
    Option (FragRb × FragAction) := do
  if (offset + fragSize) % 2 ^ w >
      (s.rbuf k).datagramSize then
    let s ← fragRbRemove cfg s k
    some (s, .error)
  else
    match (← checkFragments s fragSize offset
        (cfg.rbufIntSize + 1) (s.links (.head k))) with
    | .again =>
      let s ← fragRbRemove cfg s k
      some (s, .again)
    | .duplicate => some (s, .duplicate k)
    | .success =>
      match rbufUpdateInts cfg s k offset fragSize with
      | some s =>
        some (addCurrentSize s k fragSize, m.rbufAddPayload cfg k offset fragSize pos)
      | none =>
        let s ← fragRbRemove cfg s k
        some (s, .error)

def rbufAdd
    (offset : Nat) : Option (FragRb × FragAction) := do
  if m.validOffset offset then
    let pos := m.sixloFragPayload
    let fragSize := m.sixloFragSize w offset pos
    let s ← fragRbGc cfg env.gcNowUsec s
    let (s, res) ← rbufGet cfg env s m.key
    match res with
    | none => some (s, .error)
    | some k => rbufAddTo w cfg s m k offset fragSize pos
  else
    none

----
-- Reception
----

/-
  A copy that leaves the packet has no result. One that only
  leaves the frame takes what lies behind it.
-/
def copy
    (k : Nat) (c : Copy) : Option (FragRb × RbufAdd) := do
  let pkt ← (s.rbuf k).pkt
  let bs := (List.range c.size).map (fun i => m.byte (c.pos + i))
  let pkt ← writeBytes pkt c.offset bs
  some ({ s with rbuf := Function.update s.rbuf k { s.rbuf k with pkt := some pkt } }, .entry k)

/- Do what is left to do. -/
def perform : FragAction → Option (FragRb × RbufAdd)
| .error => some (s, .error)
| .again => some (s, .again)
| .duplicate k => some (s, .entry k)
| .iphc k => cfg.iphcRecv.bind (rbufAddIphc cfg env s m.frame k)
| .copy k c => copy s m k c

def rbufAddAll
    (offset : Nat) : Option (FragRb × RbufAdd) := do
  let (s, action) ← rbufAdd w cfg env s m offset
  perform cfg env s m action

/- An overlap makes the code add the fragment once more. -/
def fragRbAdd
    (offset : Nat) : Option (FragRb × Option Nat) := do
  let (s, res) ← rbufAddAll w cfg env s m offset
  match res with
  | .entry k => some (s, some k)
  | .error => some (s, none)
  | .again =>
    let (s, res) ← rbufAddAll w cfg again s m offset
    match res with
    | .entry k => some (s, some k)
    | _ => some (s, none)

def gnrcSixlowpanFragRecv
    (netifHdrBuild : Bool) :
    Option (FragRb × Option FragDatagram) := do
  if m.sixlowpanFrag1Is || m.sixlowpanFragNIs then
    let offset :=
      if m.sixlowpanFrag1Is then 0 else m.sixlowpanFragOffset
    let (s, res) ← fragRbAdd w cfg env again s m offset
    match res with
    | some k => fragRbDispatchWhenComplete cfg netifHdrBuild s k
    | none => some (s, none)
  else
    some (s, none)

end FragMem

----
-- Long Frames
----

/-
  On a frame that the code does not leave, this is the
  reception of `SixlowpanFragRb`.
-/
namespace FragMem

section

variable {m : FragMem} {offset pos n : Nat} {b : Bool}

theorem byte_of_getElem?
    {c : UInt8} (h : m.frame.data[pos]? = some c) :
    m.byte pos = c := by
  rw [byte, h]
  rfl

theorem lt_size_of_getElem?
    {c : UInt8} (h : m.frame.data[pos]? = some c) :
    pos < m.size :=
  (List.getElem?_eq_some_iff.mp h).1

theorem readBytes_eq_map
    {bs : List UInt8} (h : readBytes m.frame.data pos n = some bs) :
    bs = (List.range n).map (fun i => m.byte (pos + i)) := by
  unfold readBytes at h
  split at h
  · rename_i hEnd
    cases h
    apply List.ext_getElem?
    intro i
    by_cases hi : i < n
    · have hLt : pos + i < m.frame.data.length := by
        omega
      have hByte := List.getElem?_eq_getElem hLt
      rw [List.getElem?_take_of_lt hi, List.getElem?_drop, List.getElem?_map,
        List.getElem?_range hi, hByte, Option.map_some, byte_of_getElem? hByte]
    · have hi : n ≤ i := Nat.le_of_not_lt hi
      rw [List.getElem?_eq_none (by simp; omega), List.getElem?_eq_none (by simpa using hi)]
  · cases h

theorem sixlowpanFrag1Is_of_frame
    (h : Riot.sixlowpanFrag1Is m.frame.data = some b) :
    m.sixlowpanFrag1Is = b := by
  rcases Option.bind_eq_some_iff.mp h with ⟨c, hc, hb⟩
  rw [sixlowpanFrag1Is, byte_of_getElem? hc]
  exact Option.some.inj hb

theorem sixlowpanFragNIs_of_frame
    (h : Riot.sixlowpanFragNIs m.frame.data = some b) :
    m.sixlowpanFragNIs = b := by
  rcases Option.bind_eq_some_iff.mp h with ⟨c, hc, hb⟩
  rw [sixlowpanFragNIs, byte_of_getElem? hc]
  exact Option.some.inj hb

theorem sixlowpanFragOffset_of_frame
    (h : Riot.sixlowpanFragOffset m.frame.data = some n) :
    m.sixlowpanFragOffset = n ∧ 5 ≤ m.size := by
  rcases Option.bind_eq_some_iff.mp h with ⟨c, hc, hn⟩
  rw [sixlowpanFragOffset, byte_of_getElem? hc]
  exact ⟨Option.some.inj hn, lt_size_of_getElem? hc⟩

theorem key_of_frame
    {k : FragKey} (h : m.frame.key = some k) :
    m.key = k := by
  rcases Option.bind_eq_some_iff.mp h with ⟨size, hSize, h⟩
  rcases Option.bind_eq_some_iff.mp h with ⟨tag, hTag, h⟩
  rcases Option.bind_eq_some_iff.mp hSize with ⟨bs, hbs, hSize⟩
  rcases Option.bind_eq_some_iff.mp hTag with ⟨cs, hcs, hTag⟩
  cases Option.some.inj h
  cases Option.some.inj hSize
  cases Option.some.inj hTag
  rw [readBytes_eq_map hbs, readBytes_eq_map hcs]
  rfl

theorem validOffset_of_frame
    (h : Riot.validOffset m.frame.data offset = some true) :
    m.validOffset offset = true ∧ (offset ≠ 0 → 5 ≤ m.size) := by
  unfold Riot.validOffset at h
  rcases Option.bind_eq_some_iff.mp h with ⟨first, hFirst, h⟩
  have hIs := sixlowpanFrag1Is_of_frame hFirst
  unfold validOffset
  split at h
  · rename_i hBoth
    rw [hIs, hBoth]
    refine ⟨rfl, ?_⟩
    intro hNe
    simp [hNe] at hBoth
  · rcases Option.bind_eq_some_iff.mp h with ⟨nth, hNth, h⟩
    split at h
    · rename_i hIsNth
      rcases Option.bind_eq_some_iff.mp h with ⟨o, ho, h⟩
      rcases sixlowpanFragOffset_of_frame ho with ⟨hOff, hLen⟩
      rw [sixlowpanFragNIs_of_frame hNth, hIsNth, hOff, Option.some.inj h]
      exact ⟨by simp, fun _ => hLen⟩
    · cases h

theorem sixloFragPayload_of_frame
    (h : Riot.sixloFragPayload m.frame.data = some pos) :
    m.sixloFragPayload = pos ∧ 4 ≤ pos := by
  rcases Option.bind_eq_some_iff.mp h with ⟨b, hb, h⟩
  rw [sixloFragPayload, sixlowpanFrag1Is_of_frame hb]
  cases b with
  | true =>
    cases h
    exact ⟨rfl, Nat.le_refl 4⟩
  | false =>
    cases h
    exact ⟨rfl, by omega⟩

theorem sizeSub_eq
    {w a c : Nat} (hLe : c ≤ a) (hLt : a < 2 ^ w) :
    sizeSub w a c = a - c := by
  have hSum : a + (2 ^ w - c) = a - c + 2 ^ w := by
    omega
  rw [sizeSub, hSum, Nat.add_mod_right]
  exact Nat.mod_eq_of_lt (by omega)

theorem sixloFragSize_of_frame
    {w : Nat} (hLt : m.size < 2 ^ w) (hPos : 4 ≤ pos)
    (hLong : offset ≠ 0 → 5 ≤ m.size)
    (h : Riot.sixloFragSize m.frame.data offset pos = some n) :
    m.sixloFragSize w offset pos = n ∧ n ≤ m.size := by
  unfold Riot.sixloFragSize at h
  unfold sixloFragSize
  by_cases hZero : offset = 0
  · subst hZero
    rcases Option.bind_eq_some_iff.mp h with ⟨c, hc, h⟩
    have hEnd := lt_size_of_getElem? hc
    have hFour := sizeSub_eq (show 4 ≤ m.size by omega) hLt
    rw [byte_of_getElem? hc, hFour, sizeSub_eq (show 1 ≤ m.size - 4 by omega) (by omega)]
    simp only [beq_self_eq_true, if_true]
    split at h
    · rename_i hUncomp
      cases h
      rw [if_pos hUncomp]
      exact ⟨rfl, by unfold size; omega⟩
    · rename_i hUncomp
      cases h
      rw [if_neg hUncomp]
      exact ⟨rfl, by unfold size; omega⟩
  · have hFive := sizeSub_eq (hLong hZero) hLt
    simp only [beq_iff_eq, hZero, if_false] at h ⊢
    cases h
    exact ⟨hFive, by unfold size; omega⟩

end

section

variable {w : Nat} {cfg : FragRbConfig} {env again : FragRbEnv} {s : FragRb}
variable {m : FragMem} {k offset fragSize pos : Nat}

theorem copy_of_frame
    {r : FragRb × RbufAdd}
    (h : rbufAddData s m.frame k offset fragSize pos = some r) :
    copy s m k ⟨offset, pos, fragSize⟩ = some r := by
  rcases Option.bind_eq_some_iff.mp h with ⟨pkt, hPkt, h⟩
  rcases Option.bind_eq_some_iff.mp h with ⟨bs, hbs, h⟩
  cases readBytes_eq_map hbs
  unfold copy
  rw [hPkt]
  exact h

theorem rbufAddPayload_of_frame
    {r : FragRb × RbufAdd}
    (h : Riot.rbufAddPayload cfg env s m.frame k offset fragSize pos = some r) :
    perform cfg env s m (m.rbufAddPayload cfg k offset fragSize pos) = some r := by
  unfold Riot.rbufAddPayload at h
  unfold rbufAddPayload
  split at h
  · rename_i hZero
    rw [if_pos hZero]
    rcases Option.bind_eq_some_iff.mp h with ⟨isIphc, hIs, h⟩
    rcases Option.bind_eq_some_iff.mp hIs with ⟨c, hc, hIs⟩
    have hByte := byte_of_getElem? hc
    have hIphc : m.sixlowpanIphcIs pos = isIphc := by
      rw [sixlowpanIphcIs, hByte]
      exact Option.some.inj hIs
    rw [hIphc]
    split at h
    · rename_i recv hRecv
      cases isIphc with
      | false => cases hRecv
      | true =>
        have hRecv : cfg.iphcRecv = some recv := hRecv
        rw [hRecv]
        simp only [Option.isSome_some, Bool.and_self, if_true, perform, hRecv, Option.bind_some]
        exact h
    · rename_i hRecv
      have hNot : (isIphc && cfg.iphcRecv.isSome) = false := by
        cases isIphc with
        | false => rfl
        | true =>
          have hRecv : cfg.iphcRecv = none := hRecv
          rw [hRecv]
          rfl
      rw [hNot, hByte]
      rw [hc] at h
      simp only [Option.bind_eq_bind, Option.bind_some] at h
      split at h
      · rename_i hUncomp
        rw [if_pos hUncomp]
        exact copy_of_frame h
      · rename_i hUncomp
        rw [if_neg hUncomp]
        exact copy_of_frame h
  · rename_i hZero
    rw [if_neg hZero]
    exact copy_of_frame h

theorem rbufAddTo_of_frame
    {r : FragRb × RbufAdd} (hSum : offset + fragSize < 2 ^ w)
    (h : Riot.rbufAddTo cfg env s m.frame k offset fragSize pos = some r) :
    (rbufAddTo w cfg s m k offset fragSize pos).bind
      (fun x => perform cfg env x.1 m x.2) = some r := by
  unfold Riot.rbufAddTo at h
  unfold rbufAddTo
  rw [Nat.mod_eq_of_lt hSum]
  split at h
  · rename_i hBig
    rw [if_pos hBig]
    rcases Option.bind_eq_some_iff.mp h with ⟨s', hRm, h⟩
    rw [hRm]
    exact h
  · rename_i hBig
    rw [if_neg hBig]
    rcases Option.bind_eq_some_iff.mp h with ⟨res, hCheck, h⟩
    rw [hCheck]
    cases res with
    | again =>
      rcases Option.bind_eq_some_iff.mp h with ⟨s', hRm, h⟩
      simp only [Option.bind_eq_bind, Option.bind_some, hRm]
      exact h
    | duplicate => exact h
    | success =>
      dsimp only at h
      simp only [Option.bind_eq_bind, Option.bind_some]
      cases hUpdate : rbufUpdateInts cfg s k offset fragSize with
      | none =>
        rw [hUpdate] at h
        rcases Option.bind_eq_some_iff.mp h with ⟨s', hRm, h⟩
        simp only [hRm, Option.bind_some]
        exact h
      | some s' =>
        rw [hUpdate] at h
        exact rbufAddPayload_of_frame h

theorem rbufAdd_of_frame
    {r : FragRb × RbufAdd} (hLt : m.size + 2 ^ 11 ≤ 2 ^ w)
    (hOffset : offset < 2 ^ 11)
    (h : Riot.rbufAdd cfg env s m.frame offset = some r) :
    rbufAddAll w cfg env s m offset = some r := by
  unfold Riot.rbufAdd at h
  rcases Option.bind_eq_some_iff.mp h with ⟨valid, hValid, h⟩
  cases valid with
  | false => cases h
  | true =>
    rcases validOffset_of_frame hValid with ⟨hValid, hLong⟩
    rcases Option.bind_eq_some_iff.mp h with ⟨pos, hPos, h⟩
    rcases Option.bind_eq_some_iff.mp h with ⟨n, hn, h⟩
    rcases Option.bind_eq_some_iff.mp h with ⟨key, hKey, h⟩
    rcases Option.bind_eq_some_iff.mp h with ⟨s', hGc, h⟩
    rcases Option.bind_eq_some_iff.mp h with ⟨got, hGet, h⟩
    rcases sixloFragPayload_of_frame hPos with ⟨hPos, hFour⟩
    have hSize : m.size < 2 ^ w := by
      omega
    rcases sixloFragSize_of_frame hSize hFour hLong hn with ⟨hn, hLe⟩
    unfold rbufAddAll rbufAdd
    simp only [hValid, if_true, hPos, hn, key_of_frame hKey,
      hGc, hGet, Option.bind_eq_bind, Option.bind_some]
    rcases got with ⟨s₁, none | k⟩
    · exact h
    · exact rbufAddTo_of_frame (by omega) h

theorem fragRbAdd_of_frame
    {r : FragRb × Option Nat} (hLt : m.size + 2 ^ 11 ≤ 2 ^ w)
    (hOffset : offset < 2 ^ 11)
    (h : Riot.fragRbAdd cfg env again s m.frame offset = some r) :
    fragRbAdd w cfg env again s m offset = some r := by
  unfold Riot.fragRbAdd at h
  unfold fragRbAdd
  rcases Option.bind_eq_some_iff.mp h with ⟨x, hAdd, h⟩
  rw [rbufAdd_of_frame hLt hOffset hAdd]
  rcases x with ⟨s', res⟩
  cases res with
  | entry k => exact h
  | error => exact h
  | again =>
    rcases Option.bind_eq_some_iff.mp h with ⟨x, hAgain, h⟩
    simp only [Option.bind_eq_bind, Option.bind_some, rbufAdd_of_frame hLt hOffset hAgain]
    exact h

theorem gnrcSixlowpanFragRecv_of_frame
    {netifHdrBuild : Bool} {r : FragRb × Option FragDatagram}
    (hLt : m.size + 2 ^ 11 ≤ 2 ^ w)
    (h : Riot.gnrcSixlowpanFragRecv cfg env again netifHdrBuild s m.frame = some r) :
    gnrcSixlowpanFragRecv w cfg env again s m netifHdrBuild = some r := by
  unfold Riot.gnrcSixlowpanFragRecv at h
  unfold gnrcSixlowpanFragRecv
  rcases Option.bind_eq_some_iff.mp h with ⟨first, hFirst, h⟩
  rcases Option.bind_eq_some_iff.mp h with ⟨nth, hNth, h⟩
  have hIsFirst := sixlowpanFrag1Is_of_frame hFirst
  have hIsNth := sixlowpanFragNIs_of_frame hNth
  rw [hIsFirst, hIsNth]
  split at h
  · rename_i hIs
    rw [if_pos hIs]
    cases first with
    | true =>
      rcases Option.bind_eq_some_iff.mp h with ⟨x, hAdd, h⟩
      have hAdd := fragRbAdd_of_frame hLt (by omega) hAdd
      simp only [if_true, hAdd, Option.bind_eq_bind, Option.bind_some]
      exact h
    | false =>
      rcases Option.bind_eq_some_iff.mp h with ⟨o, ho, h⟩
      rcases Option.bind_eq_some_iff.mp h with ⟨x, hAdd, h⟩
      rcases sixlowpanFragOffset_of_frame ho with ⟨hO, _⟩
      have hSmall : o < 2 ^ 11 := by
        rw [← hO]
        unfold sixlowpanFragOffset
        have hByte := (m.byte 4).toNat_lt
        omega
      have hAdd := fragRbAdd_of_frame hLt hSmall hAdd
      simp only [Bool.false_eq_true, if_false, hO, hAdd, Option.bind_eq_bind, Option.bind_some]
      exact h
  · rename_i hIs
    rw [if_neg hIs]
    exact h

end

end FragMem

end Riot
