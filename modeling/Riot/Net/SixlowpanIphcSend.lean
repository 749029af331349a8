import Riot.Net.SixlowpanIphc

/-
  Compression of a whole packet: the IPHC header and the chain
  of compressed next headers behind it.

  The headers are written into the data of the snip `dispatch`,
  whose size is counted before from the types and sizes of the
  snips of the packet.
-/

open ByteBuffer

----
-- Packets
----

namespace Riot

inductive NetType where
  | undef
  | ipv6
  | ipv6Ext
  | udp
  | other
deriving DecidableEq, Repr

structure PktSnip where
  type : NetType
  data : List UInt8
deriving DecidableEq

/- What the sender knows, with the outcomes of allocations. -/
structure IphcSendEnv extends IphcSend where
  -- the modules for extension headers and for UDP
  ipv6Ext : Bool
  udp : Bool
  -- the memory behind the data of a snip
  beyond : Nat → UInt8
  startWrite : Nat → Bool
  alloc : Bool
  mark : Nat → Bool

section

variable (env : IphcSendEnv)

def compressible
    (hdr : PktSnip) : Bool :=
  match hdr.type with
  | .undef => true
  | .ipv6 => true
  | .ipv6Ext => env.nhc && env.ipv6Ext
  | .udp => env.nhc && env.udp
  | .other => false

/- The size of the headers, as far as they are compressible. -/
def dispatchSize :
    Nat → List PktSnip → Except IphcErr Nat
| _, [] => .ok 0
| i, hdr :: pkt => do
    if compressible env hdr then
      if env.startWrite i then
        if hdr.type = .undef then
          -- most likely UDP
          .ok 8
        else
          let size ← dispatchSize (i + 1) pkt
          .ok (hdr.data.length + size)
      else
        .error .zero
    else
      .ok 0

/- A byte of a snip or of the memory behind it. -/
def snipByte
    (hdr : PktSnip) (i : Nat) : UInt8 :=
  hdr.data.getD i (env.beyond i)

def ipv6HdrOf
    (hdr : PktSnip) : Ipv6Hdr :=
  { vTcFl := fun i => snipByte env hdr i.val
    len := fromNetwork [snipByte env hdr 4, snipByte env hdr 5]
    nh := snipByte env hdr 6
    hl := snipByte env hdr 7
    src := fun i => snipByte env hdr (8 + i.val)
    dst := fun i => snipByte env hdr (24 + i.val) }

/- The packet without a header in front. -/
def removeHeader
    (round : Nat) (hdr : PktSnip) (pkt : List PktSnip)
    (expHdrSize : Nat) : Except IphcErr (List PktSnip) :=
  if hdr.data.length > expHdrSize then
    if env.mark round then
      .ok ({ hdr with data := hdr.data.drop expHdrSize } :: pkt)
    else .error .zero
  else .ok pkt

----
-- Next Headers
----

def protnumReserved : UInt8 := 255

/- Write at a place of the dispatch. -/
def nhcPut
    (dispatch : List UInt8) (pos : Nat) (bs : List UInt8) : Except IphcErr (List UInt8) :=
  match writeBytes dispatch pos bs with
  | some dispatch => .ok dispatch
  | none => .error .outside

def extEid
    (protnum : UInt8) : Option UInt8 :=
  if protnum = protnumIpv6ExtHopopt then some 0x00
  else if protnum = protnumIpv6ExtRh then some 0x02
  else if protnum = protnumIpv6ExtFrag then some 0x04
  else if protnum = protnumIpv6ExtDst then some 0x06
  else if protnum = protnumIpv6ExtMob then some 0x08
  else none

def ipv6ExtFragGetOffset
    (hdr : PktSnip) : Nat :=
  fromNetwork [snipByte env hdr 2, snipByte env hdr 3] &&& 0xfff8

/- Whether the next header is compressed, too. -/
def extNhCompressed
    (hdr : PktSnip) (protnum : UInt8) : Bool :=
  compressibleNh env.nhc (snipByte env hdr 0) &&
    (protnum ≠ protnumIpv6ExtFrag || ipv6ExtFragGetOffset env hdr == 0)

/-
  The bytes of an extension header and the next header to go on
  with. Long headers are not compressed.
-/
def nhcIpv6ExtEncode
    (hdr : PktSnip) (extLen : Nat) (protnum : UInt8) :
    Except IphcErr (Option (List UInt8 × UInt8)) :=
  let nh := snipByte env hdr 0
  let len := extLen - 2
  if len > 255 then
    .ok none
  else
    match extEid protnum with
    | none => .error .zero
    | some eid =>
      let opts := (List.range len).map (fun i => snipByte env hdr (2 + i))
      if extNhCompressed env hdr protnum then
        .ok (some ([0xe0 ||| eid ||| 0x01, UInt8.ofNat len] ++ opts, nh))
      else
        .ok (some ([0xe0 ||| eid, nh, UInt8.ofNat len] ++ opts, protnumReserved))

/- The bytes of a UDP header. -/
def nhcUdpEncode
    (hdr : PktSnip) : List UInt8 :=
  let s₀ := snipByte env hdr 0
  let s₁ := snipByte env hdr 1
  let d₀ := snipByte env hdr 2
  let d₁ := snipByte env hdr 3
  let srcPort := fromNetwork [s₀, s₁]
  let dstPort := fromNetwork [d₀, d₁]
  let checksum := [snipByte env hdr 6, snipByte env hdr 7]
  if srcPort &&& 0xfff0 = 0xf0b0 ∧ dstPort &&& 0xfff0 = 0xf0b0 then
    [0xf3, UInt8.ofNat (dstPort - 0xf0b0 + ((srcPort - 0xf0b0) <<< 4))] ++ checksum
  else if dstPort &&& 0xff00 = 0xf000 then
    [0xf1, s₀, s₁, UInt8.ofNat (dstPort - 0xf000)] ++ checksum
  else if srcPort &&& 0xff00 = 0xf000 then
    [0xf2, UInt8.ofNat (srcPort - 0xf000), d₀, d₁] ++ checksum
  else
    [0xf0, s₀, s₁, d₀, d₁] ++ checksum

/- How far the next headers are compressed. -/
structure NhcEncodeState where
  dispatch : List UInt8
  inlinePos : Nat
  pkt : List PktSnip
  nh : UInt8

variable (round : Nat) (st : NhcEncodeState)

def nhcUdpEncodeSnip : Except IphcErr NhcEncodeState :=
  match st.pkt with
  | [] => .error .assertion
  | hdr :: pkt => do
      if hdr.data.length < 8 then
        .error .assertion
      else
        let bs := nhcUdpEncode env hdr
        let dispatch ← nhcPut st.dispatch st.inlinePos bs
        let pkt ← removeHeader env round hdr pkt 8
        .ok { dispatch := dispatch
              inlinePos := (st.inlinePos + bs.length) % 2 ^ 16
              pkt := pkt
              nh := protnumReserved }

def nhcIpv6ExtEncodeSnip : Except IphcErr NhcEncodeState :=
  match st.pkt with
  | [] => .error .assertion
  | hdr :: pkt => do
      let extLen := (snipByte env hdr 1).toNat * 8 + 8
      if hdr.data.length < 2 ∨ hdr.data.length < extLen then
        .error .assertion
      else
        match ← nhcIpv6ExtEncode env hdr extLen st.nh with
        | none => .ok { st with nh := protnumReserved }
        | some (bs, nh) =>
          let dispatch ← nhcPut st.dispatch st.inlinePos bs
          let pkt ← removeHeader env round hdr pkt extLen
          .ok { dispatch := dispatch
                inlinePos := (st.inlinePos + bs.length) % 2 ^ 16
                pkt := pkt
                nh := nh }

/- What comes before an encapsulated header. -/
def nhcIpv6Nh
    (nh : UInt8) : List UInt8 :=
  if compressibleNh env.nhc nh then [0xe1] else [0xe0, nh]

/-
  An encapsulated IPv6 header. The encoder takes the snip after
  the one that it is given.
-/
def nhcIpv6EncodeSnip : Except IphcErr NhcEncodeState :=
  match st.pkt with
  | [] => .error .assertion
  | hdr :: pkt => do
      let nh := snipByte env hdr 6
      if hdr.data.length < 40 then
        .error .assertion
      else
        let bs := nhcIpv6Nh env nh
        let dispatch ← nhcPut st.dispatch st.inlinePos bs
        let pos := st.inlinePos + bs.length
        match pkt with
        | [] => .error .assertion
        | next :: _ =>
          let iphc ← iphcIpv6Encode env.toIphcSend (dispatch.length - pos) (ipv6HdrOf env next)
          let dispatch ← nhcPut dispatch pos iphc
          let pkt ← removeHeader env round hdr pkt 40
          .ok { dispatch := dispatch
                inlinePos := (pos + iphc.length) % 2 ^ 16
                pkt := pkt
                nh := nh }

/- One next header. -/
def nhcEncodeStep : Except IphcErr NhcEncodeState :=
  if st.nh = protnumUdp then
    nhcUdpEncodeSnip env round st
  else if st.nh = protnumIpv6 then
    nhcIpv6EncodeSnip env round st
  else
    nhcIpv6ExtEncodeSnip env round st

end

----
-- Sending
----

section

variable (env : IphcSendEnv)

/- The chain, as far as a number of rounds goes. -/
def nhcEncodeLoop :
    Nat → NhcEncodeState → Except IphcErr NhcEncodeState
| 0, st => .ok st
| n + 1, st =>
  if compressibleNh env.nhc st.nh then do
    let st ← nhcEncodeStep env n st
    nhcEncodeLoop n st
  else
    .ok st

def pktLen
    (pkt : List PktSnip) : Nat :=
  (pkt.map (fun hdr => hdr.data.length)).sum

/- Each round but the last takes a header from the packet. -/
def encodeRounds
    (pkt : List PktSnip) : Nat :=
  pktLen pkt + 1

/-
  The dispatch and the packet behind it. The packet begins with
  its IPv6 header.
-/
def iphcEncode
    (pkt : List PktSnip) :
    Except IphcErr (List UInt8 × List PktSnip) := do
  let size ← dispatchSize env 0 pkt
  if size = 0 then
    .error .assertion
  else if env.alloc = false then
    .error .zero
  else
    match pkt with
    | [] => .error .assertion
    | first :: pkt =>
      let hdr := ipv6HdrOf env first
      let iphc ← iphcIpv6Encode env.toIphcSend (size + 1) hdr
      let st ← nhcEncodeLoop env (encodeRounds pkt)
        { dispatch :=
            iphc ++ List.replicate (size + 1 - iphc.length) 0
          inlinePos := iphc.length
          pkt := pkt
          nh := hdr.nh }
      .ok (st.dispatch.take st.inlinePos, st.pkt)

end

end Riot
