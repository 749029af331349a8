import Mathlib.Algebra.Order.Ring.Nat
import Mathlib.Data.Multiset.AddSub
import Mathlib.Logic.Function.Basic

/-
  Fragmentation of IPv6 packets.

  A chain of snips is modelled as the list of its snips. The
  fragmenter owns references of snips until it releases them or
  hands them on. The result `none` says that an assertion fails,
  that NULL is dereferenced, or that a reference is given back
  that is not there.
-/

----
-- Packets
----

namespace Riot

inductive SnipType where
  | netif
  | ipv6
  | ipv6Ext
  | undef
  | other
deriving DecidableEq, Repr

structure FragSnip where
  id : Nat
  type : SnipType
  data : List UInt8
deriving DecidableEq, Repr

def FragSnip.size
    (p : FragSnip) : Nat :=
  p.data.length

def fragPktLen
    (pkt : List FragSnip) : Nat :=
  (pkt.map FragSnip.size).sum

/- The snips of a chain, one reference each. -/
def snipIds
    (pkt : List FragSnip) : Multiset Nat :=
  ↑(pkt.map FragSnip.id)

/- Where a header has its next header field. -/
def FragSnip.nhPos
    (p : FragSnip) : Option Nat :=
  match p.type with
  | .ipv6 => some 6
  | .ipv6Ext => some 0
  | _ => none

/- The next header field of the last header that has one. -/
def getNh : List FragSnip → Option UInt8
| [] => none
| p :: rest =>
  match getNh rest with
  | some nh => some nh
  | none => p.nhPos.map (fun k => p.data.getD k 0)

def setNh
    (nh : UInt8) : List FragSnip → List FragSnip
| [] => []
| p :: rest =>
  if (getNh rest).isSome then
    p :: setNh nh rest
  else
    match p.nhPos with
    | some k => { p with data := p.data.set k nh } :: rest
    | none => p :: rest

/- Set the length field of the last IPv6 header. -/
def setLen
    (len : UInt16) : List FragSnip → List FragSnip
| [] => []
| p :: rest =>
  if rest.any (fun q => q.type == .ipv6) then
    p :: setLen len rest
  else if p.type = .ipv6 then
    { p with data := (p.data.set 4 (len >>> 8).toUInt8).set 5 len.toUInt8 } :: rest
  else
    p :: rest

def Protnum.ipv6ExtHopopt : UInt8 := 0

def Protnum.ipv6ExtRh : UInt8 := 43

def Protnum.ipv6ExtFrag : UInt8 := 44

def Protnum.reserved : UInt8 := 255

/- Search from a position on for the last such header. -/
def lastPerFragFrom :
    Nat → Option Nat → UInt8 → List FragSnip → Option Nat
| _, _, _, [] => none
| k, last, nh, p :: rest =>
  match p.type with
  | .ipv6 => lastPerFragFrom (k + 1) (some k) (p.data.getD 6 0) rest
  | .ipv6Ext =>
    lastPerFragFrom (k + 1)
      (if nh = Protnum.ipv6ExtHopopt ∨ nh = Protnum.ipv6ExtRh then some k
      else last) (p.data.getD 0 0) rest
  | _ => last

/- The position of the last header that every fragment has. -/
def determineLastPerFrag
    (pkt : List FragSnip) : Option Nat :=
  lastPerFragFrom 1 none Protnum.reserved (pkt.drop 1)

/- The bytes of a fragment header. -/
def fragHdrData
    (nh : UInt8) (offset : UInt16) (more : Bool) (id : UInt32) : List UInt8 :=
  let flags := offset &&& 0xfff8
  [nh, 0, (flags >>> 8).toUInt8, flags.toUInt8 ||| (if more then 1 else 0),
    (id >>> 24).toUInt8, (id >>> 16).toUInt8, (id >>> 8).toUInt8, id.toUInt8]

----
-- Send Buffers
----

structure SndBuf where
  pkt : List FragSnip
  perFrag : List FragSnip
  id : UInt32
  pathMtu : UInt16
  offset : UInt16

def SndBuf.init : SndBuf :=
  ⟨[], [], 0, 0, 0⟩

structure ExtFrag where
  sndBufs : Nat → SndBuf
  lastId : UInt32
  -- references that are to be released or handed on
  owned : Multiset Nat
  nextId : Nat

def ExtFrag.init : ExtFrag :=
  ⟨fun _ => SndBuf.init, 0, 0, 0⟩

/- What the code around a call decides. -/
structure ExtFragEnv where
  -- whether the allocations for a snip succeed
  alloc : Nat → Bool
  -- whether others use a snip, too
  shared : Nat → Bool
  -- whether the messages find a place in the queue
  sendQueued : Bool
  continueQueued : Bool
  random : UInt32

inductive FragMsg where
  | fragSend
      (frag : List FragSnip)
  | fragContinue
      (i : Nat)
deriving DecidableEq, Repr

namespace ExtFrag

variable (env : ExtFragEnv) (s : ExtFrag)

def setBuf
    (i : Nat) (b : SndBuf) : ExtFrag :=
  { s with sndBufs := Function.update s.sndBufs i b }

def sndBufAlloc
    (size : Nat) : Option Nat :=
  (List.range size).find? (fun i =>
    (s.sndBufs i).pkt.isEmpty)

def sndBufDel
    (i : Nat) : ExtFrag :=
  s.setBuf i { s.sndBufs i with perFrag := [], pkt := [] }

----
-- References
----

def hold
    (pkt : List FragSnip) : ExtFrag :=
  { s with owned := s.owned + snipIds pkt }

def release :
    ExtFrag → List FragSnip → Option ExtFrag
| s, [] => some s
| s, p :: rest =>
  if p.id ∈ s.owned then
    release { s with owned := s.owned.erase p.id } rest
  else
    none

def sndBufFree
    (i : Nat) : Option ExtFrag :=
  (release s (s.sndBufs i).perFrag).bind (fun s =>
    (release s (s.sndBufs i).pkt).map (fun s => s.sndBufDel i))

/- A snip that others use is copied. -/
def startWrite
    (p : FragSnip) : ExtFrag × Option FragSnip :=
  if s.owned.count p.id + (if env.shared p.id then 1 else 0) >
      1 then
    if env.alloc s.nextId then
      ({ s with owned := s.nextId ::ₘ s.owned.erase p.id, nextId := s.nextId + 1 },
        some { p with id := s.nextId })
    else
      ({ s with nextId := s.nextId + 1 }, none)
  else
    (s, some p)

/- A fragment header, still without its contents. -/
def extBuild
    (nh : UInt8) : ExtFrag × Option FragSnip :=
  if env.alloc s.nextId then
    ({ s with owned := s.nextId ::ₘ s.owned, nextId := s.nextId + 1 },
      some ⟨s.nextId, .ipv6Ext, [nh, 0, 0, 0, 0, 0, 0, 0]⟩)
  else
    ({ s with nextId := s.nextId + 1 }, none)

/- Split the first bytes off a snip. -/
def mark
    (p : FragSnip) (size : Nat) : ExtFrag × Option (FragSnip × FragSnip) :=
  if env.alloc s.nextId then
    ({ s with owned := s.nextId ::ₘ s.owned, nextId := s.nextId + 1 },
      some (⟨s.nextId, .undef, p.data.take size⟩, { p with data := p.data.drop size }))
  else
    ({ s with nextId := s.nextId + 1 }, none)

----
-- Fragments
----

/-
  Add the headers that every fragment has. If a header cannot be
  copied, it and the ones behind it are left over.
-/
def addPerFrag :
    ExtFrag → List FragSnip → ExtFrag × List FragSnip × List FragSnip
| s, [] => (s, [], [])
| s, p :: rest =>
  match startWrite env s p with
  | (s, none) => (s, [], p :: rest)
  | (s, some p) =>
    let (s, done, todo) := addPerFrag s rest
    (s, p :: done, todo)

/- The bytes that the headers leave, in 16 bits. -/
def remainingAfter
    (pathMtu : UInt16) (hdrs : List FragSnip) : UInt16 :=
  hdrs.foldl (fun remaining p =>
    if p.type = .netif then remaining
    else remaining - UInt16.ofNat p.size) (pathMtu &&& 0xfff8)

structure RestAdded where
  frag : ExtFrag
  parts : List FragSnip
  pkt : List FragSnip
  offset : UInt16
  -- whether the packet buffer is full
  full : Bool

/- Add the rest of the packet, as far as it fits. -/
def addRest
    (lastFragment : Bool) :
    ExtFrag → UInt16 → UInt16 → List FragSnip → RestAdded
| s, _, offset, [] => ⟨s, [], [], offset, false⟩
| s, remaining, offset, p :: rest =>
  if remaining = 0 then
    ⟨s, [], p :: rest, offset, false⟩
  else if lastFragment ∨ p.size ≤ remaining.toNat then
    let r := addRest lastFragment s
      (remaining - UInt16.ofNat p.size)
      (offset + UInt16.ofNat p.size) rest
    { r with parts := p :: r.parts }
  else
    match mark env s p remaining.toNat with
    | (s, none) => ⟨s, [], p :: rest, offset, true⟩
    | (s, some (marked, p)) =>
      -- nothing remains after this snip
      ⟨s, [marked], p :: rest, offset + remaining, false⟩

/- Whether the rest of the packet fits into one fragment. -/
def lastFragment
    (b : SndBuf) : Bool :=
  b.pathMtu.toNat > fragPktLen (b.perFrag.drop 1) + 8 + fragPktLen b.pkt

/- Post the fragment, and the continuation of the packet. -/
def postFragment
    (i : Nat) (last : Bool) (frag : List FragSnip) : ExtFrag × List FragMsg :=
  let s :=
    if env.sendQueued then
      { s with owned := s.owned - snipIds frag }
    else
      s
  let sent := if env.sendQueued then [.fragSend frag] else []
  if last then
    (s.sndBufDel i, sent)
  else
    (s, sent ++
        if env.continueQueued then [.fragContinue i] else [])

/- Everything is given back if the packet buffer is full. -/
def cancel
    (i : Nat) (toSend : List FragSnip) :
    Option (ExtFrag × List FragMsg) :=
  (release s toSend).bind (fun s =>
    (s.sndBufFree i).map (fun s => (s, [])))

/- The fragment from its headers on. -/
def sendFragment
    (i : Nat) (b : SndBuf) (last : Bool) (toSend : List FragSnip) :
    Option (ExtFrag × List FragMsg) :=
  match getNh toSend with
  | none => none
  | some nh =>
    match extBuild env s nh with
    | (s, none) => cancel s i toSend
    | (s, some hdr) =>
      let hdr := { hdr with data := fragHdrData nh b.offset (!last) b.id }
      let toSend := setNh Protnum.ipv6ExtFrag toSend
      let r := addRest env last s (remainingAfter b.pathMtu toSend - 8) b.offset b.pkt
      let s := r.frag.setBuf i { s.sndBufs i with pkt := r.pkt, offset := r.offset }
      let frag := toSend ++ hdr :: r.parts
      if r.full then
        cancel s i frag
      else if toSend.any (fun p => p.type == .ipv6) then
        let len := UInt16.ofNat (fragPktLen (frag.drop 2))
        some (postFragment env s i last (setLen len toSend ++ hdr :: r.parts))
      else
        none

def gnrcIpv6ExtFragSend
    (i : Nat) : Option (ExtFrag × List FragMsg) :=
  let b := s.sndBufs i
  if b.perFrag.isEmpty then
    none
  else
    let last := lastFragment b
    let s :=
      if last then s.setBuf i { b with perFrag := [] }
      else s.hold b.perFrag
    let (s, toSend, todo) := addPerFrag env s b.perFrag
    if todo.isEmpty then
      sendFragment env s i b last toSend
    else
      cancel s i (toSend ++ todo)

/- The parameter is wider than the field it is stored in. -/
def gnrcIpv6ExtFragSendPkt
    (size : Nat) (pkt : List FragSnip) (pathMtu : Nat) : Option (ExtFrag × List FragMsg) :=
  if pkt.head?.any (fun p => p.type == .netif) then
    match s.sndBufAlloc size with
    | none => (release s pkt).map (fun s => (s, []))
    | some i =>
      match determineLastPerFrag pkt with
      | none => none
      | some k =>
        gnrcIpv6ExtFragSend env
          { s.setBuf i
              { pkt := pkt.drop (k + 1)
                perFrag := pkt.take (k + 1)
                id := s.lastId
                pathMtu := UInt16.ofNat pathMtu
                offset := 0 } with
            lastId := s.lastId + env.random } i
  else
    none

end ExtFrag

end Riot
