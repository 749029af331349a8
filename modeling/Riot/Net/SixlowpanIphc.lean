import Riot.Lib.FinNumerals
import Mathlib.Data.Fin.VecNotation
import Mathlib.Data.Fintype.Basic
import Mathlib.Data.List.FinRange
import Riot.Lib.ByteBuffer

/-
  Header compression of 6LoWPAN: the IPv6 header as an IPHC
  header.

  The encoder appends to the bytes `iphc_hdr` that are written
  so far, so `inline_pos` is their number. It may write `room`
  bytes. The decoder reads a frame at a base.

  Key definitions include:
    * `Ipv6Addr`
    * `Ipv6Hdr`
    * `SixlowpanCtx`
    * `ctxLookupAddr`
    * `iphcIpv6Encode`
    * `iphcIpv6Decode`
-/

open ByteBuffer

----
-- Addresses
----

namespace Riot

abbrev Ipv6Addr := Fin 16 → UInt8

/- An interface identifier. -/
abbrev Eui64 := Fin 8 → UInt8

namespace Ipv6Addr

def isUnspecified
    (a : Ipv6Addr) : Bool :=
  a = fun _ => 0

def isMulticast
    (a : Ipv6Addr) : Bool :=
  a 0 = 0xff

def linkLocalPfx : Ipv6Addr :=
  fun i => if i = 0 then 0xfe else if i = 1 then 0x80 else 0

def isLinkLocal
    (a : Ipv6Addr) : Bool :=
  (∀ i : Fin 16, i < 8 → a i = linkLocalPfx i) || (a.isMulticast && a 1 &&& 0x0f == 0x02)

def setLinkLocalPrefix
    (a : Ipv6Addr) : Ipv6Addr :=
  fun i => if i < 8 then linkLocalPfx i else a i

/- The lower half, `u64[1]`. -/
def iid
    (a : Ipv6Addr) : Eui64 :=
  fun j => a (j.natAdd 8)

def setIid
    (a : Ipv6Addr) (iid : Eui64) : Ipv6Addr :=
  fun i => if h : 8 ≤ i.val then iid ⟨i.val - 8, by omega⟩ else a i

/- The 16 bytes of an address in a frame. -/
def ofBytes
    (bs : List UInt8) : Ipv6Addr :=
  fun i => bs.getD i.val 0

end Ipv6Addr

def Eui64.ofBytes
    (bs : List UInt8) : Eui64 :=
  fun j => bs.getD j.val 0

/- The identifier ::ff:fe00:XXXX of a short address. -/
def Eui64.ofShort
    (bs : List UInt8) : Eui64 :=
  ![0, 0, 0, 0xff, 0xfe, 0, bs.getD 0 0, bs.getD 1 0]

/- The leading zero bits, in the loop over `j`. -/
def leadingZeros : Nat → UInt8 → Nat
| 0, _ => 0
| n + 1, x =>
  if x &&& 0x80 = 0 then 1 + leadingZeros n (x <<< 1) else 0

def matchPrefixFrom
    (a b : Ipv6Addr) : List (Fin 16) → Nat
| [] => 0
| i :: is =>
  if a i = b i then 8 + matchPrefixFrom a b is
  else leadingZeros 8 (a i ^^^ b i)

def ipv6AddrMatchPrefix
    (a b : Ipv6Addr) : Nat :=
  matchPrefixFrom a b (List.finRange 16)

/- The byte `j` after ipv6_addr_init_prefix. -/
def initPrefixByte
    (bits j : Nat) (out pfx : UInt8) : UInt8 :=
  if j < bits / 8 then pfx
  else if j = bits / 8 ∧ bits % 8 ≠ 0 then
    let mask := (0xff : UInt8) <<< UInt8.ofNat (8 - (bits - bits / 8 * 8))
    (out &&& ~~~mask) ||| (pfx &&& mask)
  else out

def ipv6AddrInitPrefix
    (out pfx : Ipv6Addr) (bits : Nat) : Ipv6Addr :=
  fun i => initPrefixByte (min bits 128) i.val (out i) (pfx i)

----
-- IPv6 Headers
----

structure Ipv6Hdr where
  vTcFl : Fin 4 → UInt8
  len : Nat
  nh : UInt8
  hl : UInt8
  src : Ipv6Addr
  dst : Ipv6Addr
deriving DecidableEq

namespace Ipv6Hdr

variable (hdr : Ipv6Hdr)

def getVersion : UInt8 :=
  hdr.vTcFl 0 >>> 4

def getTc : UInt8 :=
  ((hdr.vTcFl 0 &&& 0x0f) <<< 4) ||| ((hdr.vTcFl 1 &&& 0xf0) >>> 4)

def getTcEcn : UInt8 :=
  (hdr.vTcFl 0 &&& 0x0c) >>> 2

def getTcDscp : UInt8 :=
  ((hdr.vTcFl 0 &&& 0x03) <<< 4) ||| ((hdr.vTcFl 1 &&& 0xf0) >>> 4)

def getFl : Nat :=
  fromNetwork [hdr.vTcFl 0, hdr.vTcFl 1, hdr.vTcFl 2, hdr.vTcFl 3] &&& 0x000fffff

end Ipv6Hdr

/- Version, traffic class and flow label of a header. -/
abbrev VTcFl := Fin 4 → UInt8

namespace VTcFl

variable (v : VTcFl)

def setVersion : VTcFl :=
  ![(v 0 &&& 0x0f) ||| 0x60, v 1, v 2, v 3]

def setTc
    (tc : UInt8) : VTcFl :=
  let hi : UInt8 := tc >>> 4
  let lo : UInt8 := tc <<< 4
  ![(v 0 &&& 0xf0) ||| (0x0f &&& hi), (v 1 &&& 0x0f) ||| (0xf0 &&& lo), v 2, v 3]

def setTcEcn
    (ecn : UInt8) : VTcFl :=
  let hi : UInt8 := ecn <<< 2
  ![(v 0 &&& 0xf3) ||| (0x0c &&& hi), v 1, v 2, v 3]

def setTcDscp
    (dscp : UInt8) : VTcFl :=
  let hi : UInt8 := dscp >>> 4
  let lo : UInt8 := dscp <<< 4
  ![(v 0 &&& 0xfc) ||| (0x03 &&& hi), (v 1 &&& 0x0f) ||| (0xf0 &&& lo), v 2, v 3]

/- A flow label of 0. -/
def clearFl : VTcFl :=
  ![v 0, v 1 &&& 0xf0, 0, 0]

/- Add the bytes of a flow label. -/
def orFl
    (b₁ b₂ b₃ : UInt8) : VTcFl :=
  ![v 0, v 1 ||| (b₁ &&& 0x0f), v 2 ||| b₂, v 3 ||| b₃]

end VTcFl

----
-- Contexts
----

/- A context, whose identifier is its place in the table. -/
structure SixlowpanCtx where
  pfx : Ipv6Addr
  prefixLen : Nat
  -- the flag GNRC_SIXLOWPAN_CTX_FLAGS_COMP
  comp : Bool
deriving DecidableEq

/- The table, with the lifetimes brought up to date. -/
abbrev CtxTable := Fin 16 → SixlowpanCtx

def ctxValid
    (ctx : SixlowpanCtx) : Bool :=
  ctx.prefixLen > 0

/- The loop over the identifiers, with the best match so far. -/
def ctxLookupFrom
    (ctxs : CtxTable) (addr : Ipv6Addr) :
    List (Fin 16) → Nat → Option (Fin 16) → Option (Fin 16)
| [], _, res => res
| id :: ids, best, res =>
  let len := ipv6AddrMatchPrefix (ctxs id).pfx addr
  if ctxValid (ctxs id) && (ctxs id).prefixLen ≤ len &&
      len > best then
    ctxLookupFrom ctxs addr ids len (some id)
  else
    ctxLookupFrom ctxs addr ids best res

def ctxLookupAddr
    (ctxs : CtxTable) (addr : Ipv6Addr) : Option (Fin 16) :=
  ctxLookupFrom ctxs addr (List.finRange 16) 0 none

def ctxLookupId
    (ctxs : CtxTable) (id : UInt8) : Option SixlowpanCtx :=
  if h : id.toNat < 16 then
    if ctxValid (ctxs ⟨id.toNat, h⟩) then
      some (ctxs ⟨id.toNat, h⟩)
    else none
  else none

/- A context that may be used for compression. -/
def ctxForComp
    (ctxs : CtxTable) (addr : Ipv6Addr) : Option (Fin 16) :=
  (ctxLookupAddr ctxs addr).filter (fun id => (ctxs id).comp)

def byteMask
    (n : Nat) : UInt8 :=
  0xff >>> UInt8.ofNat n

def contextOverlapsIid
    (ctxs : CtxTable) (ctx : Option (Fin 16)) (addr : Ipv6Addr) (iid : Eui64) : Bool :=
  match ctx with
  | none => false
  | some id =>
    let len := (ctxs id).prefixLen
    if (ctxs id).comp then false
    else if len = 128 then true
    else
      -- the bytes after the prefix, and its last bits
      len > 64 &&
        (∀ j : Fin 8, len / 8 + 1 ≤ j.val + 8 → addr (j.natAdd 8) = iid j) &&
        (∀ j : Fin 8, len / 8 = j.val + 8 →
          addr (j.natAdd 8) &&& byteMask (len % 8) = iid j &&& byteMask (len % 8))

----
-- Results
----

inductive IphcErr where
  -- outside of the frame or of the dispatch
  | outside
  -- the function returns 0
  | zero
  | assertion
deriving DecidableEq, Repr

theorem ok_bind
    {α β : Type} (a : α) (f : α → Except IphcErr β) :
    (Except.ok a >>= f) = f a := by
  rfl

theorem error_bind
    {α β : Type} (e : IphcErr) (f : α → Except IphcErr β) :
    (Except.error e >>= f) = .error e := by
  rfl

theorem bind_eq_ok
    {α β : Type} {r : Except IphcErr α} {f : α → Except IphcErr β} {b : β}
    (hBind : (r >>= f) = .ok b) :
    ∃ a, r = .ok a ∧ f a = .ok b := by
  cases r with
  | ok a => exact ⟨a, rfl, hBind⟩
  | error e => cases hBind

/- Write behind the bytes written so far. -/
def iphcPut
    (room : Nat) (out bs : List UInt8) : Except IphcErr (List UInt8) :=
  if out.length + bs.length ≤ room then .ok (out ++ bs)
  else .error .outside

/- Set bits of a byte. -/
def iphcOr
    (room : Nat) (out : List UInt8) (i : Nat) (bits : UInt8) : Except IphcErr (List UInt8) :=
  if i < room then .ok (out.modify i (· ||| bits))
  else .error .outside

def iphcByte
    (data : List UInt8) (i : Nat) : Except IphcErr UInt8 :=
  match data[i]? with
  | some b => .ok b
  | none => .error .outside

def iphcBytes
    (data : List UInt8) (i n : Nat) : Except IphcErr (List UInt8) :=
  match readBytes data i n with
  | some bs => .ok bs
  | none => .error .outside

----
-- Encoding
----

/- What the sender knows besides the packet. -/
structure IphcSend where
  ctxs : CtxTable
  -- whether the module for next header compression is used
  nhc : Bool
  -- the identifiers derived from link-layer addresses
  ifaceIid : Option Eui64
  dstIid : Option Eui64
  dstL2addrLen : Nat
  -- the upper half of a variable that is not initialised
  garbage : Eui64

def protnumIpv6ExtHopopt : UInt8 := 0
def protnumUdp : UInt8 := 17
def protnumIpv6 : UInt8 := 41
def protnumIpv6ExtRh : UInt8 := 43
def protnumIpv6ExtFrag : UInt8 := 44
def protnumIpv6ExtDst : UInt8 := 60
def protnumIpv6ExtMob : UInt8 := 135

def compressibleNh
    (nhc : Bool) (nh : UInt8) : Bool :=
  nhc && (nh == protnumIpv6ExtHopopt || nh == protnumUdp ||
    nh == protnumIpv6 || nh == protnumIpv6ExtRh ||
    nh == protnumIpv6ExtFrag || nh == protnumIpv6ExtDst ||
    nh == protnumIpv6ExtMob)

section

variable (env : IphcSend) (room : Nat) (hdr : Ipv6Hdr)

def iphcSrcCtx : Option (Fin 16) :=
  if hdr.src.isUnspecified then none
  else ctxForComp env.ctxs hdr.src

def iphcDstCtx : Option (Fin 16) :=
  if hdr.dst.isMulticast then none
  else ctxForComp env.ctxs hdr.dst

/- Whether a context other than the first is used. -/
def ctxNonZero
    (ctx : Option (Fin 16)) : Bool :=
  match ctx with
  | some id => id ≠ 0
  | none => false

def encodeTf
    (out : List UInt8) : Except IphcErr (List UInt8) := do
  if hdr.getFl = 0 then
    if hdr.getTc = 0 then
      iphcOr room out 0 0x18
    else
      let out ← iphcOr room out 0 0x10
      iphcPut room out [hdr.getTc]
  else
    let fl := hdr.getFl
    let out ←
      if hdr.getTcDscp = 0 then do
        let out ← iphcOr room out 0 0x08
        iphcPut room out [(hdr.getTcEcn <<< 6) ||| UInt8.ofNat ((fl &&& 0x000f0000) >>> 16)]
      else do
        let out ← iphcOr room out 0 0x00
        let out ← iphcPut room out [hdr.getTc]
        iphcPut room out [UInt8.ofNat ((fl &&& 0x000f0000) >>> 16)]
    let out ← iphcPut room out [UInt8.ofNat ((fl &&& 0x0000ff00) >>> 8)]
    iphcPut room out [UInt8.ofNat (fl &&& 0x000000ff)]

def encodeNh
    (out : List UInt8) : Except IphcErr (List UInt8) :=
  if compressibleNh env.nhc hdr.nh then
    iphcOr room out 0 0x04
  else
    iphcPut room out [hdr.nh]

def encodeHl
    (out : List UInt8) : Except IphcErr (List UInt8) := do
  if hdr.hl = 1 then
    iphcOr room out 0 0x01
  else if hdr.hl = 64 then
    iphcOr room out 0 0x02
  else if hdr.hl = 255 then
    iphcOr room out 0 0x03
  else
    let out ← iphcOr room out 0 0x00
    iphcPut room out [hdr.hl]

/- The bits of an address that depend on its identifier. -/
def encodeIid
    (overlaps : Bool) (addr : Ipv6Addr) (iid : Eui64) (sam64 : UInt8)
    (out : List UInt8) : Except IphcErr (List UInt8) := do
  if addr.iid = iid ∨ overlaps then
    iphcOr room out 1 (3 * sam64)
  else if addr 8 = 0 ∧ addr 9 = 0 ∧ addr 10 = 0 ∧
      addr 11 = 0xff ∧ addr 12 = 0xfe ∧ addr 13 = 0 then
    let out ← iphcOr room out 1 (2 * sam64)
    iphcPut room out [addr 14, addr 15]
  else
    let out ← iphcOr room out 1 sam64
    iphcPut room out (List.ofFn addr.iid)

/- Stateful compression with a context. -/
def encodeCtx
    (ctx : Option (Fin 16)) (bits : UInt8) (cid : Fin 16 → UInt8)
    (out : List UInt8) : Except IphcErr (List UInt8) :=
  match ctx with
  | some id => do
      let out ← iphcOr room out 1 bits
      if id ≠ 0 then
        iphcOr room out 2 (cid id)
      else
        .ok out
  | none => .ok out

def encodeSrc
    (out : List UInt8) : Except IphcErr (List UInt8) := do
  if hdr.src.isUnspecified then
    iphcOr room out 1 0x40
  else
    let ctx := iphcSrcCtx env hdr
    let out ← encodeCtx room ctx 0x40 (fun id => UInt8.ofNat id.val <<< 4) out
    if ctx.isSome || hdr.src.isLinkLocal then
      match env.ifaceIid with
      | none => .error .zero
      | some iid =>
        encodeIid room (contextOverlapsIid env.ctxs ctx hdr.src iid) hdr.src iid 0x10 out
    else
      let out ← iphcOr room out 1 0x00
      iphcPut room out (List.ofFn hdr.src)

/- The full destination address. -/
def encodeDstFull
    (out : List UInt8) : Except IphcErr (List UInt8) := do
  let out ← iphcOr room out 1 0x00
  iphcPut room out (List.ofFn hdr.dst)

/- A multicast address with a unicast prefix. -/
def unicastPrefix : Ipv6Addr :=
  fun i =>
    if h : i.val < 8 then hdr.dst ⟨i.val + 4, by omega⟩
    else env.garbage ⟨i.val - 8, by omega⟩

def iphcMcastCtx : Option (Fin 16) :=
  (ctxForComp env.ctxs (unicastPrefix env hdr)).filter
    (fun id =>
      (env.ctxs id).prefixLen = (hdr.dst 3).toNat)

def encodeMcast
    (out : List UInt8) : Except IphcErr (List UInt8) := do
  let d := hdr.dst
  let out ← iphcOr room out 1 0x08
  if d 2 = 0 ∧ d 3 = 0 ∧ d 4 = 0 ∧ d 5 = 0 ∧ d 6 = 0 ∧
      d 7 = 0 ∧ d 8 = 0 ∧ d 9 = 0 then
    if d 1 = 0x02 ∧ d 10 = 0 ∧ d 11 = 0 ∧ d 12 = 0 ∧
        d 13 = 0 ∧ d 14 = 0 then
      let out ← iphcOr room out 1 0x0b
      iphcPut room out [d 15]
    else if d 10 = 0 ∧ d 11 = 0 ∧ d 12 = 0 then
      let out ← iphcOr room out 1 0x0a
      let out ← iphcPut room out [d 1]
      iphcPut room out [d 13, d 14, d 15]
    else if d 10 = 0 then
      let out ← iphcOr room out 1 0x09
      let out ← iphcPut room out [d 1]
      iphcPut room out [d 11, d 12, d 13, d 14, d 15]
    else
      encodeDstFull room hdr out
  else
    match iphcMcastCtx env hdr with
    | some id =>
      let out ← iphcOr room out 1 0x04
      let out ←
        if id ≠ 0 then iphcOr room out 2 (UInt8.ofNat id.val)
        else .ok out
      let out ← iphcPut room out [d 1]
      let out ← iphcPut room out [d 2]
      iphcPut room out [d 12, d 13, d 14, d 15]
    | none => encodeDstFull room hdr out

def encodeDst
    (out : List UInt8) : Except IphcErr (List UInt8) := do
  if hdr.dst.isMulticast then
    encodeMcast env room hdr out
  else
    let ctx := iphcDstCtx env hdr
    if (ctx.isSome || hdr.dst.isLinkLocal) &&
        env.dstL2addrLen > 0 then
      let out ← encodeCtx room ctx 0x04 (fun id => UInt8.ofNat id.val) out
      match env.dstIid with
      | none => .error .zero
      | some iid =>
        encodeIid room (contextOverlapsIid env.ctxs ctx hdr.dst iid) hdr.dst iid 0x01 out
    else
      encodeDstFull room hdr out

/- The dispatch, with the byte for context identifiers. -/
def encodeDispatch : Except IphcErr (List UInt8) := do
  let out ← iphcPut room [] [0x60]
  let out ← iphcPut room out [0]
  if ctxNonZero (iphcSrcCtx env hdr) ||
      ctxNonZero (iphcDstCtx env hdr) then
    let out ← iphcOr room out 1 0x80
    iphcPut room out [0]
  else
    .ok out

def iphcIpv6Encode : Except IphcErr (List UInt8) := do
  let out ← encodeDispatch env room hdr
  let out ← encodeTf room hdr out
  let out ← encodeNh env room hdr out
  let out ← encodeHl room hdr out
  let out ← encodeSrc env room hdr out
  encodeDst env room hdr out

end

----
-- Decoding
----

/- What the receiver knows besides the frame. -/
structure IphcRecv where
  ctxs : CtxTable
  -- the identifiers derived from link-layer addresses
  srcIid : Option Eui64
  dstIid : Option Eui64

section

variable (env : IphcRecv) (data : List UInt8) (base : Nat)

/- The fields of the traffic class and the flow label. -/
def decodeTf
    (iphc1 : UInt8) (pos : Nat) : Except IphcErr (VTcFl × Nat) := do
  let v := VTcFl.setVersion (fun _ => 0)
  if iphc1 &&& 0x18 = 0x00 then
    let tc ← iphcByte data (base + pos)
    let b₁ ← iphcByte data (base + pos + 1)
    let b₂ ← iphcByte data (base + pos + 2)
    let b₃ ← iphcByte data (base + pos + 3)
    .ok ((v.setTc tc).orFl b₁ b₂ b₃, pos + 4)
  else if iphc1 &&& 0x18 = 0x08 then
    let b₁ ← iphcByte data (base + pos)
    let b₂ ← iphcByte data (base + pos + 1)
    let b₃ ← iphcByte data (base + pos + 2)
    .ok (((v.setTcEcn (b₁ >>> 6)).setTcDscp 0).orFl b₁ b₂ b₃, pos + 3)
  else if iphc1 &&& 0x18 = 0x10 then
    let tc ← iphcByte data (base + pos)
    .ok ((v.setTc tc).clearFl, pos + 1)
  else
    .ok ((v.setTc 0).clearFl, pos)

def decodeNh
    (iphc1 : UInt8) (pos : Nat) : Except IphcErr (UInt8 × Nat) := do
  if iphc1 &&& 0x04 = 0 then
    let nh ← iphcByte data (base + pos)
    .ok (nh, pos + 1)
  else
    .ok (0, pos)

def decodeHl
    (iphc1 : UInt8) (pos : Nat) : Except IphcErr (UInt8 × Nat) := do
  if iphc1 &&& 0x03 = 0x00 then
    let hl ← iphcByte data (base + pos)
    .ok (hl, pos + 1)
  else if iphc1 &&& 0x03 = 0x01 then
    .ok (1, pos)
  else if iphc1 &&& 0x03 = 0x02 then
    .ok (64, pos)
  else
    .ok (255, pos)

/- An identifier and the bytes it takes in the frame. -/
def decodeIid
    (iid : Option Eui64) (mode : UInt8) (pos : Nat) : Except IphcErr (Eui64 × Nat) := do
  if mode = 1 then
    let bs ← iphcBytes data (base + pos) 8
    .ok (Eui64.ofBytes bs, pos + 8)
  else if mode = 2 then
    let bs ← iphcBytes data (base + pos) 2
    .ok (Eui64.ofShort bs, pos + 2)
  else
    match iid with
    | some iid => .ok (iid, pos)
    | none => .error .zero

/- A link-local address. -/
def decodeLocal
    (iid : Option Eui64) (mode : UInt8) (pos : Nat) : Except IphcErr (Ipv6Addr × Nat) := do
  let (iid, pos) ← decodeIid data base iid mode pos
  .ok (Ipv6Addr.setIid (Ipv6Addr.setLinkLocalPrefix (fun _ => 0)) iid, pos)

/- An address with the prefix of a context. -/
def decodeCtx
    (ctx : Option SixlowpanCtx) (iid : Option Eui64) (mode : UInt8)
    (pos : Nat) : Except IphcErr (Ipv6Addr × Nat) := do
  match ctx with
  | none => .error .assertion
  | some ctx =>
    let (iid, pos) ← decodeIid data base iid mode pos
    .ok (ipv6AddrInitPrefix (Ipv6Addr.setIid (fun _ => 0) iid) ctx.pfx ctx.prefixLen, pos)

def decodeFull
    (pos : Nat) : Except IphcErr (Ipv6Addr × Nat) := do
  let bs ← iphcBytes data (base + pos) 16
  .ok (Ipv6Addr.ofBytes bs, pos + 16)

/- The byte for context identifiers, or 0. -/
def decodeCid
    (iphc2 : UInt8) : Except IphcErr UInt8 :=
  if iphc2 &&& 0x80 ≠ 0 then iphcByte data (base + 2)
  else .ok 0

/- The context of the source, when one is needed. -/
def decodeSrcCtx
    (iphc2 : UInt8) :
    Except IphcErr (Option SixlowpanCtx) := do
  if iphc2 &&& 0x40 ≠ 0 then
    let cid ← decodeCid data base iphc2
    let sci := cid >>> 4
    if iphc2 &&& 0x30 ≠ 0 then
      match ctxLookupId env.ctxs sci with
      | some ctx => .ok (some ctx)
      | none => .error .zero
    else
      .ok none
  else
    .ok none

def decodeSrc
    (iphc2 : UInt8) (ctx : Option SixlowpanCtx) (pos : Nat) : Except IphcErr (Ipv6Addr × Nat) :=
  let mode := (iphc2 &&& 0x30) >>> 4
  if iphc2 &&& 0x70 = 0x00 then
    decodeFull data base pos
  else if iphc2 &&& 0x40 = 0 then
    decodeLocal data base env.srcIid mode pos
  else if iphc2 &&& 0x70 = 0x40 then
    .ok (fun _ => 0, pos)
  else
    decodeCtx data base ctx env.srcIid mode pos

/-
  The context of the destination. Without one of its own, that
  of the source stays.
-/
def decodeDstCtx
    (iphc2 : UInt8) (ctx : Option SixlowpanCtx) :
    Except IphcErr (Option SixlowpanCtx) := do
  if iphc2 &&& 0x04 ≠ 0 then
    let cid ← decodeCid data base iphc2
    let dci := cid &&& 0x0f
    if iphc2 &&& 0x0b ≠ 0 then
      match ctxLookupId env.ctxs dci with
      | some ctx => .ok (some ctx)
      | none => .error .zero
    else
      .ok ctx
  else
    .ok ctx

/- Multicast addresses without a context. -/
def decodeMcast
    (mode : UInt8) (pos : Nat) : Except IphcErr (Ipv6Addr × Nat) := do
  if mode = 1 then
    let b ← iphcByte data (base + pos)
    let bs ← iphcBytes data (base + pos + 1) 5
    .ok (fun i =>
      if i = 0 then 0xff else if i = 1 then b
      else if 11 ≤ i then bs.getD (i.val - 11) 0 else 0, pos + 6)
  else if mode = 2 then
    let b ← iphcByte data (base + pos)
    let bs ← iphcBytes data (base + pos + 1) 3
    .ok (fun i =>
      if i = 0 then 0xff else if i = 1 then b
      else if 13 ≤ i then bs.getD (i.val - 13) 0 else 0, pos + 4)
  else
    let b ← iphcByte data (base + pos)
    .ok (fun i =>
      if i = 0 then 0xff else if i = 1 then 0x02
      else if i = 15 then b else 0, pos + 1)

theorem prefixIndex_lt
    {i : Fin 16} (h : i.val < 12) :
    i.val - 4 < 16 := by
  omega

/- A multicast address with the prefix of a context. -/
def decodeUcPrefix
    (ctx : Option SixlowpanCtx) (pos : Nat) : Except IphcErr (Ipv6Addr × Nat) := do
  match ctx with
  | none => .error .assertion
  | some ctx =>
    let len := if ctx.prefixLen > 64 then 64 else ctx.prefixLen
    let b₁ ← iphcByte data (base + pos)
    let b₂ ← iphcByte data (base + pos + 1)
    let bs ← iphcBytes data (base + pos + 2 + 2) 4
    .ok (fun i =>
      if i = 0 then 0xff
      else if i = 1 then b₁
      else if i = 2 then b₂
      else if i = 3 then UInt8.ofNat len
      else if h : i.val < 12 then
        initPrefixByte len (i.val - 4) 0 (ctx.pfx ⟨i.val - 4, prefixIndex_lt h⟩)
      else bs.getD (i.val - 12) 0, pos + 6)

def decodeDst
    (iphc2 : UInt8) (ctx : Option SixlowpanCtx) (pos : Nat) : Except IphcErr (Ipv6Addr × Nat) :=
  let mode := iphc2 &&& 0x03
  if iphc2 &&& 0x07 = 0x00 then
    decodeFull data base pos
  else if iphc2 &&& 0x0c = 0x00 then
    decodeLocal data base env.dstIid mode pos
  else if iphc2 &&& 0x0f = 0x04 then
    .ok (fun _ => 0, pos)
  else if iphc2 &&& 0x0c = 0x04 then
    decodeCtx data base ctx env.dstIid mode pos
  else if iphc2 &&& 0x0c = 0x08 then
    decodeMcast data base mode pos
  else if iphc2 &&& 0x0f = 0x0c then
    decodeUcPrefix data base ctx pos
  else
    -- reserved
    .ok (fun _ => 0, pos)

def iphcIpv6Decode : Except IphcErr (Ipv6Hdr × Nat) := do
  let iphc2 ← iphcByte data (base + 1)
  let iphc1 ← iphcByte data base
  let pos := if iphc2 &&& 0x80 ≠ 0 then 3 else 2
  let (vTcFl, pos) ← decodeTf data base iphc1 pos
  let (nh, pos) ← decodeNh data base iphc1 pos
  let (hl, pos) ← decodeHl data base iphc1 pos
  let ctx ← decodeSrcCtx env data base iphc2
  let (src, pos) ← decodeSrc env data base iphc2 ctx pos
  let ctx ← decodeDstCtx env data base iphc2 ctx
  let (dst, pos) ← decodeDst env data base iphc2 ctx pos
  .ok ({ vTcFl, len := 0, nh, hl, src, dst }, pos)

end

end Riot
