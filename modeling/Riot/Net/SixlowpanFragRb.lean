import Mathlib.Logic.Function.Basic
import Riot.Lib.ByteBuffer
import Riot.Lib.LinkMemory

/-
  The reassembly buffer of 6LoWPAN fragments.

  The intervals of all datagrams share one array, in which an
  interval that ends at 0 is free. The pointer `ints` of an
  entry and the pointer `next` of an interval are links of one
  memory. The result `none` says that an assertion fails, that
  the code reads or writes outside of a packet, or that it
  follows a chain of intervals without end.
-/

open ByteBuffer

----
-- Fragment Headers
----

namespace Riot

/- A received fragment with its link-layer addresses. -/
structure FragFrame where
  src : List UInt8
  dst : List UInt8
  data : List UInt8
deriving DecidableEq, Repr

def sixlowpanUncomp : UInt8 := 0x41

def sixlowpanFrag1Is
    (data : List UInt8) : Option Bool := do
  let disp ← data[0]?
  some (disp &&& 0xf8 == 0xc0)

def sixlowpanFragNIs
    (data : List UInt8) : Option Bool := do
  let disp ← data[0]?
  some (disp &&& 0xf8 == 0xe0)

def sixlowpanFragDatagramSize
    (data : List UInt8) : Option Nat := do
  let dispSize ← readBytes data 0 2
  some (fromNetwork dispSize &&& 0x07ff)

def sixlowpanFragDatagramTag
    (data : List UInt8) : Option Nat := do
  let tag ← readBytes data 2 2
  some (fromNetwork tag)

def sixlowpanFragOffset
    (data : List UInt8) : Option Nat := do
  let offset ← data[4]?
  some (offset.toNat * 8)

def sixlowpanIphcIs
    (data : List UInt8)
    (pos : Nat) : Option Bool := do
  let disp ← data[pos]?
  some (disp &&& 0xe0 == 0x60)

----
-- The Reassembly Buffer
----

/- An interval of received bytes, both ends included. -/
structure FragRbInt where
  start : Nat
  last : Nat
deriving DecidableEq, Repr

structure FragRbEntry where
  src : List UInt8
  dst : List UInt8
  tag : Nat
  datagramSize : Nat
  currentSize : Nat
  arrival : UInt32
  -- the bytes of the packet, or NULL
  pkt : Option (List UInt8)
deriving DecidableEq, Repr

structure FragRb where
  -- `ints` of the entries and `next` of the intervals
  links : LinkMem Nat Nat
  rbufInt : Nat → FragRbInt
  rbuf : Nat → FragRbEntry

def FragRb.init : FragRb where
  links := fun _ => .null
  rbufInt := fun _ => ⟨0, 0⟩
  rbuf := fun _ => ⟨[], [], 0, 0, 0, 0, none⟩

structure FragRbConfig where
  rbufSize : Nat
  rbufIntSize : Nat
  timeoutUs : UInt32
  aggressiveOverride : Bool
  -- reception of IPHC frames, when the module is used
  iphcRecv : Option (FragFrame → Nat → FragRb → Option FragRb)
  rbufSize_pos : 0 < rbufSize

/- What the code around a call decides. -/
structure FragRbEnv where
  gcNowUsec : UInt32
  nowUsec : UInt32
  -- whether the packet buffer has space for the datagram
  pktbufAdd : Bool
  -- what the new packet holds before it is written
  fresh : Nat → UInt8
  -- whether the fragment header can be marked
  pktbufMark : Bool

----
-- Intervals
----

inductive CheckResult where
  | success
  | again
  | duplicate
deriving DecidableEq, Repr

/- The last byte of a fragment, in 16 bits. -/
def fragLast
    (offset fragSize : Nat) : Nat :=
  (offset + fragSize + (2 ^ 16 - 1)) % 2 ^ 16

def rbufIntOverlapPartially
    (i : FragRbInt) (start last : Nat) : Bool :=
  (i.start ≤ last && start ≤ i.last) && (start != i.start || last != i.last)

/- Follow the intervals from a link on. -/
def checkFragments
    (s : FragRb) (fragSize offset : Nat) :
    Nat → Link Nat → Option CheckResult
| 0, _ => none
| _ + 1, .null => some .success
| _ + 1, .mark => none
| fuel + 1, .ref i =>
  if rbufIntOverlapPartially (s.rbufInt i)
      (offset % 2 ^ 16) (fragLast offset fragSize) then
    some .again
  else if (s.rbufInt i).start = offset then
    some .duplicate
  else
    checkFragments s fragSize offset fuel (s.links (.entry i))

def rbufIntGetFree
    (cfg : FragRbConfig) (s : FragRb) : Option Nat :=
  (List.range cfg.rbufIntSize).find? (fun i => (s.rbufInt i).last == 0)

/- The new interval is put in front of the others. -/
def rbufUpdateInts
    (cfg : FragRbConfig) (s : FragRb)
    (k offset fragSize : Nat) : Option FragRb := do
  let new ← rbufIntGetFree cfg s
  some { s with
    rbufInt := Function.update s.rbufInt new ⟨offset % 2 ^ 16, fragLast offset fragSize⟩
    links := (s.links.set (.entry new) (s.links (.head k))).set (.head k) (.ref new) }

def fragRbBaseRm
    (k : Nat) : Nat → FragRb → Option FragRb
| 0, _ => none
| fuel + 1, s =>
  match s.links (.head k) with
  | .ref i =>
    fragRbBaseRm k fuel { s with
      rbufInt := Function.update s.rbufInt i ⟨0, 0⟩
      links := (s.links.set (.entry i) .null).set (.head k) (s.links (.entry i)) }
  | _ =>
    some { s with rbuf := Function.update s.rbuf k { s.rbuf k with datagramSize := 0 } }

def fragRbRemove
    (cfg : FragRbConfig) (s : FragRb)
    (k : Nat) : Option FragRb := do
  let s ← fragRbBaseRm k (cfg.rbufIntSize + 1) s
  some { s with rbuf := Function.update s.rbuf k { s.rbuf k with pkt := none } }

----
-- Entries
----

def fragRbEntryEmpty
    (e : FragRbEntry) : Bool :=
  e.pkt.isNone

/- The entries from `i` on that are too old are removed. -/
def fragRbGcFrom
    (cfg : FragRbConfig) (nowUsec : UInt32) :
    List Nat → FragRb → Option FragRb
| [], s => some s
| i :: is, s =>
  if !fragRbEntryEmpty (s.rbuf i) &&
      nowUsec - (s.rbuf i).arrival > cfg.timeoutUs then do
    let s ← fragRbRemove cfg s i
    fragRbGcFrom cfg nowUsec is s
  else
    fragRbGcFrom cfg nowUsec is s

def fragRbGc
    (cfg : FragRbConfig) (nowUsec : UInt32) (s : FragRb) : Option FragRb :=
  fragRbGcFrom cfg nowUsec (List.range cfg.rbufSize) s

/-
  The tuple that identifies a datagram. An address includes
  its length.
-/
structure FragKey where
  src : List UInt8
  dst : List UInt8
  size : Nat
  tag : Nat
deriving DecidableEq, Repr

def FragRbEntry.key
    (e : FragRbEntry) : FragKey :=
  ⟨e.src, e.dst, e.datagramSize, e.tag⟩

/- What the search of _rbuf_get finds. -/
inductive RbufSearch where
  | found (i : Nat)
  | spots (res oldest : Option Nat)
deriving DecidableEq, Repr

def rbufSearch
    (s : FragRb) (key : FragKey) :
    List Nat → Option Nat → Option Nat → RbufSearch
| [], res, oldest => .spots res oldest
| i :: is, res, oldest =>
  if (s.rbuf i).pkt.isSome && (s.rbuf i).key == key then
    .found i
  else
    let res :=
      if res.isNone && fragRbEntryEmpty (s.rbuf i) then some i
      else res
    let oldest :=
      match oldest with
      | none => some i
      | some o =>
        if (s.rbuf o).arrival - (s.rbuf i).arrival < 2147483647 then some i
        else some o
    rbufSearch s key is res oldest

/- A new packet, of which the first bytes are cleared. -/
def rbufNewPkt
    (env : FragRbEnv) (size : Nat) : List UInt8 :=
  List.replicate (min 8 size) 0 ++ ((List.range size).map env.fresh).drop 8

/- Take an empty spot for a datagram. -/
def rbufTake
    (env : FragRbEnv) (s : FragRb) (key : FragKey) (i : Nat) : FragRb × Option Nat :=
  if env.pktbufAdd then
    ({ s with
      rbuf := Function.update s.rbuf i
        { src := key.src
          dst := key.dst
          tag := key.tag
          datagramSize := key.size
          currentSize := 0
          arrival := env.nowUsec
          pkt := some (rbufNewPkt env key.size) } }, some i)
  else
    (s, none)

def rbufGet
    (cfg : FragRbConfig) (env : FragRbEnv) (s : FragRb)
    (key : FragKey) : Option (FragRb × Option Nat) :=
  match rbufSearch s key (List.range cfg.rbufSize)
      none none with
  | .found i =>
    some ({ s with
      rbuf := Function.update s.rbuf i { s.rbuf i with arrival := env.nowUsec } }, some i)
  | .spots (some i) _ => some (rbufTake env s key i)
  | .spots none none => none
  | .spots none (some o) =>
    if fragRbEntryEmpty (s.rbuf o) then
      none
    else if cfg.aggressiveOverride ||
        env.nowUsec - (s.rbuf o).arrival > cfg.timeoutUs then do
      let s ← fragRbRemove cfg s o
      some (rbufTake env s key o)
    else
      some (s, none)

/- The entry of _rbuf_get_by_tag. -/
def rbufGetByTag
    (cfg : FragRbConfig) (s : FragRb) (src dst : List UInt8) (tag : Nat) : Option Nat :=
  (List.range cfg.rbufSize).find? (fun i =>
    (s.rbuf i).pkt.isSome && (s.rbuf i).tag == tag &&
      (s.rbuf i).src == src && (s.rbuf i).dst == dst)

def fragRbRmByDatagram
    (cfg : FragRbConfig) (s : FragRb) (src dst : List UInt8) (tag : Nat) : Option FragRb :=
  match rbufGetByTag cfg s src dst tag with
  | some k => fragRbRemove cfg s k
  | none => some s

----
-- Adding a Fragment
----

inductive RbufAdd where
  | entry (i : Nat)
  | error
  | again
deriving DecidableEq, Repr

def validOffset
    (data : List UInt8)
    (offset : Nat) : Option Bool := do
  if (← sixlowpanFrag1Is data) && offset == 0 then
    some true
  else if (← sixlowpanFragNIs data) then
    some (offset == (← sixlowpanFragOffset data))
  else
    some false

/- Where the payload of a fragment starts. -/
def sixloFragPayload
    (data : List UInt8) : Option Nat := do
  if (← sixlowpanFrag1Is data) then some 4 else some 5

def sixloFragSize
    (data : List UInt8)
    (offset pos : Nat) : Option Nat := do
  if offset == 0 then
    if (← data[pos]?) == sixlowpanUncomp then
      some (data.length - 4 - 1)
    else
      some (data.length - 4)
  else
    some (data.length - 5)

def FragFrame.key
    (frame : FragFrame) : Option FragKey := do
  let size ← sixlowpanFragDatagramSize frame.data
  let tag ← sixlowpanFragDatagramTag frame.data
  some ⟨frame.src, frame.dst, size, tag⟩

/- Hand the first fragment to the reception of IPHC. -/
def rbufAddIphc
    (cfg : FragRbConfig) (env : FragRbEnv) (s : FragRb) (frame : FragFrame) (k : Nat)
    (recv : FragFrame → Nat → FragRb → Option FragRb) :
    Option (FragRb × RbufAdd) :=
  if env.pktbufMark then do
    let s ← recv frame k s
    if fragRbEntryEmpty (s.rbuf k) then
      some (s, .error)
    else
      some (s, .entry k)
  else do
    let s ← fragRbRemove cfg s k
    some (s, .error)

/- Copy the payload of a fragment into the packet. -/
def rbufAddData
    (s : FragRb) (frame : FragFrame) (k offset fragSize pos : Nat) :
    Option (FragRb × RbufAdd) := do
  let pkt ← (s.rbuf k).pkt
  let bs ← readBytes frame.data pos fragSize
  let pkt ← writeBytes pkt offset bs
  some ({ s with rbuf := Function.update s.rbuf k { s.rbuf k with pkt := some pkt } }, .entry k)

/- Add the data for which an interval was added. -/
def rbufAddPayload
    (cfg : FragRbConfig) (env : FragRbEnv) (s : FragRb) (frame : FragFrame)
    (k offset fragSize pos : Nat) :
    Option (FragRb × RbufAdd) := do
  if offset == 0 then
    let isIphc ← sixlowpanIphcIs frame.data pos
    match (if isIphc then cfg.iphcRecv else none) with
    | some recv => rbufAddIphc cfg env s frame k recv
    | none =>
      if (← frame.data[pos]?) == sixlowpanUncomp then
        rbufAddData s frame k offset fragSize (pos + 1)
      else
        rbufAddData s frame k offset fragSize pos
  else
    rbufAddData s frame k offset fragSize pos

/- Add a fragment to the entry of its datagram. -/
def rbufAddTo
    (cfg : FragRbConfig) (env : FragRbEnv) (s : FragRb) (frame : FragFrame)
    (k offset fragSize pos : Nat) :
    Option (FragRb × RbufAdd) := do
  if offset + fragSize > (s.rbuf k).datagramSize then
    let s ← fragRbRemove cfg s k
    some (s, .error)
  else
    match (← checkFragments s fragSize offset
        (cfg.rbufIntSize + 1) (s.links (.head k))) with
    | .again =>
      let s ← fragRbRemove cfg s k
      some (s, .again)
    | .duplicate => some (s, .entry k)
    | .success =>
      match rbufUpdateInts cfg s k offset fragSize with
      | some s =>
        let e := s.rbuf k
        let size := (e.currentSize + fragSize % 2 ^ 16) % 2 ^ 16
        rbufAddPayload cfg env { s with
          rbuf := Function.update s.rbuf k { e with currentSize := size } }
          frame k offset fragSize pos
      | none =>
        let s ← fragRbRemove cfg s k
        some (s, .error)

def rbufAdd
    (cfg : FragRbConfig) (env : FragRbEnv) (s : FragRb) (frame : FragFrame)
    (offset : Nat) : Option (FragRb × RbufAdd) := do
  if (← validOffset frame.data offset) then
    let pos ← sixloFragPayload frame.data
    let fragSize ← sixloFragSize frame.data offset pos
    let key ← frame.key
    let s ← fragRbGc cfg env.gcNowUsec s
    let (s, res) ← rbufGet cfg env s key
    match res with
    | none => some (s, .error)
    | some k => rbufAddTo cfg env s frame k offset fragSize pos
  else
    none

/- An overlap makes the code add the fragment once more. -/
def fragRbAdd
    (cfg : FragRbConfig) (env again : FragRbEnv) (s : FragRb) (frame : FragFrame)
    (offset : Nat) : Option (FragRb × Option Nat) := do
  let (s, res) ← rbufAdd cfg env s frame offset
  match res with
  | .entry k => some (s, some k)
  | .error => some (s, none)
  | .again =>
    let (s, res) ← rbufAdd cfg again s frame offset
    match res with
    | .entry k => some (s, some k)
    | _ => some (s, none)

----
-- Reception
----

/- A datagram as it is handed to the next layer. -/
structure FragDatagram where
  key : FragKey
  data : List UInt8
deriving DecidableEq, Repr

def fragRbDispatchWhenComplete
    (cfg : FragRbConfig) (netifHdrBuild : Bool) (s : FragRb)
    (k : Nat) : Option (FragRb × Option FragDatagram) := do
  let e := s.rbuf k
  if e.currentSize = e.datagramSize then
    let pkt ← e.pkt
    let s ← fragRbRemove cfg s k
    if netifHdrBuild then
      some (s, some ⟨e.key, pkt⟩)
    else
      some (s, none)
  else
    some (s, none)

def gnrcSixlowpanFragRecv
    (cfg : FragRbConfig) (env again : FragRbEnv) (netifHdrBuild : Bool) (s : FragRb)
    (frame : FragFrame) :
    Option (FragRb × Option FragDatagram) := do
  let isFirst ← sixlowpanFrag1Is frame.data
  let isNth ← sixlowpanFragNIs frame.data
  if isFirst || isNth then
    let offset ←
      if isFirst then some 0
      else sixlowpanFragOffset frame.data
    let (s, res) ← fragRbAdd cfg env again s frame offset
    match res with
    | some k => fragRbDispatchWhenComplete cfg netifHdrBuild s k
    | none => some (s, none)
  else
    some (s, none)

end Riot
