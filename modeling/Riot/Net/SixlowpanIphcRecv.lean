import Riot.Net.SixlowpanIphc

/-
  Reception of a compressed packet: the IPHC header and the
  chain of compressed next headers behind it.

  The headers are written into the data of the snip `ipv6`. The
  loop over the chain has a bound on its rounds, since a header
  of an unknown kind is read again and again.
-/

open ByteBuffer

----
-- The Uncompressed Packet
----

namespace Riot

structure Ipv6Snip where
  size : Nat
  data : Nat → UInt8

namespace Ipv6Snip

def put
    (snip : Ipv6Snip) (pos : Nat) (bs : List UInt8) : Ipv6Snip :=
  { snip with
    data := fun i =>
      if pos ≤ i ∧ i < pos + bs.length then bs.getD (i - pos) 0
      else snip.data i }

end Ipv6Snip

def Ipv6Hdr.toBytes
    (hdr : Ipv6Hdr) : List UInt8 :=
  List.ofFn hdr.vTcFl ++ htons hdr.len ++ [hdr.nh, hdr.hl] ++ List.ofFn hdr.src ++ List.ofFn hdr.dst

def sizeofIpv6Hdr : Nat := 40
def sizeofIpv6Ext : Nat := 2
def sizeofUdpHdr : Nat := 8
def ipv6ExtLenUnit : Nat := 8

/- The places of fields in their headers. -/
def ipv6HdrLen : Nat := 4
def ipv6HdrNh : Nat := 6

/- What the receiver knows, with the outcomes of reallocs. -/
structure IphcRecvEnv extends IphcRecv where
  nhc : Bool
  -- the size of the datagram, if it is one in fragments
  rbuf : Option Nat
  -- its packet or a fresh one, if there is memory
  ipv6 : Option Ipv6Snip
  realloc : Nat → Bool

/- How far the headers are decoded. -/
structure NhcState where
  ipv6 : Ipv6Snip
  uncompHdrLen : Nat
  prevNhOffset : Nat
  payloadOffset : Nat

/- A difference in 16 bits. -/
def sub16
    (a b : Nat) : Nat :=
  (a % 2 ^ 16 + 2 ^ 16 - b % 2 ^ 16) % 2 ^ 16

/- A difference of sizes, which may wrap around. -/
def sizeSub
    (a b : Nat) : Nat :=
  if b ≤ a then a - b else a + 2 ^ 32 - b

section

variable (env : IphcRecvEnv) (data : List UInt8)

def snipRealloc
    (ipv6 : Ipv6Snip) (size : Nat) : Except IphcErr Ipv6Snip :=
  if ipv6.size < size then
    if env.realloc size then .ok { ipv6 with size := size }
    else .error .zero
  else .ok ipv6

----
-- Extension Headers
----

def nhcExtProtnum
    (eid : UInt8) : Except IphcErr UInt8 :=
  if eid = 0x00 then .ok protnumIpv6ExtHopopt
  else if eid = 0x02 then .ok protnumIpv6ExtRh
  else if eid = 0x04 then .ok protnumIpv6ExtFrag
  else if eid = 0x06 then .ok protnumIpv6ExtDst
  else if eid = 0x08 then .ok protnumIpv6ExtMob
  else .error .zero

/- The length comes after the next header, if there is one. -/
def nhcExtLen
    (nhc : UInt8) (offset : Nat) : Except IphcErr UInt8 :=
  if nhc &&& 0x01 ≠ 0 then iphcByte data offset
  else iphcByte data (offset + 1)

/- The next header, with the place of the next such field. -/
def nhcExtNh
    (nhc : UInt8) (ipv6 : Ipv6Snip) (uncomp offset : Nat) :
    Except IphcErr (Ipv6Snip × Nat × Nat) := do
  if nhc &&& 0x01 = 0 then
    let nh ← iphcByte data offset
    .ok (ipv6.put uncomp [nh], 0, offset + 1)
  else
    .ok (ipv6, uncomp, offset)

def nhcIpv6ExtDecode
    (st : NhcState) : Except IphcErr NhcState := do
  let nhc ← iphcByte data st.payloadOffset
  let offset := st.payloadOffset + 1
  let extLen ← nhcExtLen data nhc offset
  let len := sizeofIpv6Ext + extLen.toNat
  let ipv6 ← snipRealloc env st.ipv6 (st.uncompHdrLen + len)
  let protnum ← nhcExtProtnum (nhc &&& 0x0e)
  let ipv6 := ipv6.put st.prevNhOffset [protnum]
  let (ipv6, prev, offset) ← nhcExtNh data nhc ipv6 st.uncompHdrLen offset
  let offset := offset + 1
  let units := sizeSub len ipv6ExtLenUnit / ipv6ExtLenUnit
  let ipv6 := ipv6.put (st.uncompHdrLen + 1) [UInt8.ofNat units]
  let bs ← iphcBytes data offset extLen.toNat
  .ok { ipv6 := ipv6.put (st.uncompHdrLen + sizeofIpv6Ext) bs
        uncompHdrLen := st.uncompHdrLen + len
        prevNhOffset := prev
        payloadOffset := offset + extLen.toNat }

/- An encapsulated IPv6 header. -/
def nhcIpv6HdrDecode
    (st : NhcState) : Except IphcErr NhcState := do
  let offset := st.payloadOffset + 1
  let ipv6 ← snipRealloc env st.ipv6 (st.uncompHdrLen + sizeofIpv6Hdr)
  let (hdr, n) ← iphcIpv6Decode env.toIphcRecv data offset
  let ipv6 := ipv6.put st.uncompHdrLen hdr.toBytes
  let ipv6 := ipv6.put st.prevNhOffset [protnumIpv6]
  let iphc1 ← iphcByte data offset
  let prev :=
    if iphc1 &&& 0x04 ≠ 0 then st.uncompHdrLen + ipv6HdrNh else 0
  let offset := offset + n
  let payloadLen :=
    match env.rbuf with
    | some size => sub16 size (st.uncompHdrLen + sizeofIpv6Hdr)
    | none => sub16 (data.length + st.uncompHdrLen) (sizeofIpv6Hdr + offset)
  .ok { ipv6 := ipv6.put (st.uncompHdrLen + ipv6HdrLen)
          (htons payloadLen)
        uncompHdrLen := st.uncompHdrLen + sizeofIpv6Hdr
        prevNhOffset := prev
        payloadOffset := offset }

def nhcIpv6Decode
    (st : NhcState) : Except IphcErr NhcState := do
  let nhc ← iphcByte data st.payloadOffset
  let eid := nhc &&& 0x0e
  if eid = 0x00 ∨ eid = 0x02 ∨ eid = 0x04 ∨ eid = 0x06 ∨
      eid = 0x08 then
    nhcIpv6ExtDecode env data st
  else if eid = 0x0e then
    nhcIpv6HdrDecode env data st
  else
    -- an unknown kind of header, which is not skipped
    .ok st

----
-- UDP
----

/- Both ports of a UDP header. -/
def nhcUdpPorts
    (nhc : UInt8) (offset : Nat) : Except IphcErr (List UInt8 × Nat) := do
  if nhc &&& 0x03 = 0x00 then
    let s₀ ← iphcByte data offset
    let s₁ ← iphcByte data (offset + 1)
    let d₀ ← iphcByte data (offset + 2)
    let d₁ ← iphcByte data (offset + 3)
    .ok ([s₀, s₁, d₀, d₁], offset + 4)
  else if nhc &&& 0x03 = 0x01 then
    let s₀ ← iphcByte data offset
    let s₁ ← iphcByte data (offset + 1)
    let d ← iphcByte data (offset + 2)
    .ok ([s₀, s₁] ++ htons (d.toNat + 0xf000), offset + 3)
  else if nhc &&& 0x03 = 0x02 then
    let s ← iphcByte data offset
    let d₀ ← iphcByte data (offset + 1)
    let d₁ ← iphcByte data (offset + 2)
    .ok (htons (s.toNat + 0xf000) ++ [d₀, d₁], offset + 3)
  else
    let tmp ← iphcByte data offset
    .ok (htons ((tmp >>> 4).toNat + 0xf0b0) ++ htons ((tmp &&& 0x0f).toNat + 0xf0b0), offset + 1)

def nhcUdpDecode
    (st : NhcState) : Except IphcErr NhcState := do
  let nhc ← iphcByte data st.payloadOffset
  let ipv6 ← snipRealloc env st.ipv6 (st.uncompHdrLen + sizeofUdpHdr)
  let (ports, offset) ← nhcUdpPorts data nhc (st.payloadOffset + 1)
  if nhc &&& 0x04 ≠ 0 then
    -- an elided checksum is not supported
    .error .zero
  else
    let c₀ ← iphcByte data offset
    let c₁ ← iphcByte data (offset + 1)
    let offset := offset + 2
    let payloadLen :=
      match env.rbuf with
      | some size => sub16 size st.uncompHdrLen
      | none => sub16 (data.length + sizeofUdpHdr) offset
    let ipv6 := ipv6.put st.uncompHdrLen (ports ++ htons payloadLen ++ [c₀, c₁])
    .ok { ipv6 := ipv6.put st.prevNhOffset [protnumUdp]
          uncompHdrLen := st.uncompHdrLen + sizeofUdpHdr
          prevNhOffset := st.prevNhOffset
          payloadOffset := offset }

----
-- Reception
----

/- One header of the chain, and whether another one follows. -/
def nhcStep
    (st : NhcState) : Except IphcErr (NhcState × Bool) := do
  let b ← iphcByte data st.payloadOffset
  if b &&& 0xf8 = 0xe0 ∨ b &&& 0xf8 = 0xe8 then
    let st ← nhcIpv6Decode env data st
    .ok (st, st.prevNhOffset > 0)
  else if b &&& 0xf8 = 0xf0 then
    let st ← nhcUdpDecode env data st
    .ok (st, false)
  else
    .ok (st, false)

/- The chain, as far as a number of rounds goes. -/
def nhcLoop :
    Nat → NhcState → Except IphcErr (Option NhcState)
| 0, _ => .ok none
| n + 1, st => do
    let (st, more) ← nhcStep env data st
    if more then nhcLoop n st else .ok (some st)

/- All compressed headers of a frame. -/
def iphcHeaders
    (fuel : Nat) : Except IphcErr (Option NhcState) := do
  match env.ipv6 with
  | none => .error .zero
  | some ipv6 =>
    if ipv6.size < sizeofIpv6Hdr then
      .error .assertion
    else
      let (hdr, n) ← iphcIpv6Decode env.toIphcRecv data 0
      let st :=
        { ipv6 := ipv6.put 0 hdr.toBytes
          uncompHdrLen := sizeofIpv6Hdr
          prevNhOffset := ipv6HdrNh
          payloadOffset := n }
      let iphc1 ← iphcByte data 0
      if env.nhc && iphc1 &&& 0x04 ≠ 0 then
        nhcLoop env data fuel st
      else
        .ok (some st)

/- Space for the payload of a packet that came in one piece. -/
def recvRealloc
    (ipv6 : Ipv6Snip) (size : Nat) : Except IphcErr Ipv6Snip :=
  match env.rbuf with
  | some _ => .ok ipv6
  | none =>
    if env.realloc size then .ok { ipv6 with size := size }
    else .error .zero

def iphcRecv
    (fuel : Nat) : Except IphcErr (Option Ipv6Snip) := do
  match ← iphcHeaders env data fuel with
  | none => .ok none
  | some st =>
    let payloadLen :=
      match env.rbuf with
      | some size => sub16 size sizeofIpv6Hdr
      | none => sub16 (data.length + st.uncompHdrLen) (st.payloadOffset + sizeofIpv6Hdr)
    let ipv6 ← recvRealloc env st.ipv6 (st.uncompHdrLen + payloadLen)
    let ipv6 := ipv6.put ipv6HdrLen (htons payloadLen)
    let bs ← iphcBytes data st.payloadOffset (sizeSub data.length st.payloadOffset)
    .ok (some (ipv6.put st.uncompHdrLen bs))

end

end Riot
