import Riot.Lib.ByteBuffer
import Riot.Lib.Spans

/-
  Sending a datagram in 6LoWPAN fragments, without the module
  for fragment hints.

  Each call of gnrc_sixlowpan_frag_send sends one fragment and
  puts a message for the next one into the queue of the
  6LoWPAN thread. The result `none` says that the code writes
  outside of the new fragment or reads outside of a snip.
-/

open ByteBuffer

----
-- Fragments
----

namespace Riot

/- An entry of the fragmentation buffer. -/
structure FragFb where
  -- the snips after the interface header, or NULL
  pkt : Option (List (List UInt8))
  datagramSize : Nat
  tag : Nat
  offset : Nat
deriving DecidableEq, Repr

/- A fragment as it is handed to the interface. -/
structure Fragment where
  dispSize : Nat
  tag : Nat
  -- the field of all fragments but the first
  offset : Option Nat
  data : List UInt8
  moreData : Bool
deriving DecidableEq, Repr

def sizeofSixlowpanFrag : Nat := 4

def sizeofSixlowpanFragN : Nat := 5

def sixlowpanFrag1Disp : Nat := 0xc0

def sixlowpanFragNDisp : Nat := 0xe0

/- The length of a fragment with its header. -/
def Fragment.size
    (f : Fragment) : Nat :=
  f.data.length +
    (if f.offset.isNone then sizeofSixlowpanFrag
      else sizeofSixlowpanFragN)

/- What the code around a call decides. -/
structure FragEnv where
  -- whether the snips of the fragment can be allocated
  built : Bool
  -- whether the message for the next fragment is queued
  sent : Bool
  -- what the new snip holds before it is written
  fresh : Nat → UInt8

def floor8
    (length : Nat) : Nat :=
  length &&& 0xfff8

def maxFragSize
    (ifaceMaxFragSize : Nat) : Nat :=
  ifaceMaxFragSize % 2 ^ 8

def payloadDiff
    (fbuf : FragFb) (payloadLen : Nat) : Int :=
  fbuf.datagramSize - payloadLen

def gnrcPktLen
    (snips : List (List UInt8)) : Nat :=
  (snips.map List.length).sum

/-
  The data part of a new fragment of `min size payloadLen`
  bytes, after a header of `hdrLen` bytes, or NULL.
-/
def buildFragPkt
    (env : FragEnv) (payloadLen size hdrLen : Nat) :
    Option (Option (List UInt8)) :=
  let fragmentSize := min size payloadLen
  if env.built then
    if fragmentSize < hdrLen then
      none
    else
      some (some ((List.range (fragmentSize - hdrLen)).map env.fresh))
  else
    some none

/- The size field with its dispatch. -/
def dispSize
    (fbuf : FragFb) (disp : Nat) : Nat :=
  (fbuf.datagramSize % 2 ^ 16) ||| (disp <<< 8)

/- Copy snips into the fragment, up to its maximal size. -/
def copyPktToFrag
    (maxFrag : Nat) :
    List UInt8 → List (List UInt8) → Nat → Option (List UInt8 × Nat)
| data, [], offset => some (data, offset)
| data, s :: snips, offset =>
  if offset < maxFrag then do
    let len := min (maxFrag - offset) s.length
    let data ← writeBytes data offset (s.take len)
    copyPktToFrag maxFrag data snips (offset + len)
  else
    some (data, offset)

/-
  Go to the offset, and copy the rest of a snip that was sent
  in part. The result holds the snips after it.
-/
def copyPartlySent
    (maxFrag offset : Nat) (data : List UInt8) :
    List (List UInt8) → Nat → Option (List UInt8 × Nat × List (List UInt8))
| [], _ => some (data, 0, [])
| s :: snips, offsetCount =>
  if offsetCount = offset then
    some (data, 0, s :: snips)
  else
    let offsetCount := (offsetCount + s.length) % 2 ^ 16
    if offsetCount > offset then do
      let pktOffset := (((offset : Int) - (offsetCount - s.length % 2 ^ 16)) % 2 ^ 16).toNat
      let clen := min maxFrag (s.length - pktOffset)
      let part ← readBytes s pktOffset clen
      let data ← writeBytes data 0 part
      some (data, clen, snips)
    else
      copyPartlySent maxFrag offset data snips offsetCount

----
-- Sending
----

variable (ifaceMaxFragSize : Nat)

/- The maximal data of the first fragment. -/
def firstMaxFrag
    (fbuf : FragFb) (payloadLen : Nat) : Nat :=
  let diff := payloadDiff fbuf payloadLen
  let room := ((maxFragSize ifaceMaxFragSize : Int) + diff - sizeofSixlowpanFrag) % 2 ^ 16
  (((floor8 room.toNat : Int) - diff) % 2 ^ 16).toNat

def sendFirstFragment
    (env : FragEnv) (fbuf : FragFb) (snips : List (List UInt8))
    (payloadLen : Nat) : Option (Nat × Option Fragment) := do
  let maxFrag := firstMaxFrag ifaceMaxFragSize fbuf payloadLen
  let frag ← buildFragPkt env payloadLen (maxFrag + sizeofSixlowpanFrag) sizeofSixlowpanFrag
  match frag with
  | none => some (0, none)
  | some data => do
      let (data, localOffset) ← copyPktToFrag maxFrag data snips 0
      some (localOffset, some
        { dispSize := dispSize fbuf sixlowpanFrag1Disp
          tag := fbuf.tag
          offset := none
          data := data
          moreData := true })

/- The maximal data of the other fragments. -/
def nthMaxFrag : Nat :=
  floor8 (((ifaceMaxFragSize : Int) - sizeofSixlowpanFragN) % 2 ^ 16).toNat

def sendNthFragment
    (env : FragEnv) (fbuf : FragFb) (snips : List (List UInt8))
    (payloadLen : Nat) : Option (Nat × Option Fragment) := do
  let maxFrag := nthMaxFrag ifaceMaxFragSize
  let offset := fbuf.offset
  let frag ← buildFragPkt env
    (payloadLen - offset + sizeofSixlowpanFragN)
    (maxFrag + sizeofSixlowpanFragN) sizeofSixlowpanFragN
  match frag with
  | none => some (0, none)
  | some data => do
      let (data, localOffset, snips) ← copyPartlySent maxFrag offset data snips 0
      let (data, localOffset) ← copyPktToFrag maxFrag data snips localOffset
      let position := (((offset + payloadDiff fbuf payloadLen) / 8) % 2 ^ 8).toNat
      some (localOffset, some
        { dispSize := dispSize fbuf sixlowpanFragNDisp
          tag := fbuf.tag
          offset := some position
          data := data
          moreData := decide (offset + localOffset < payloadLen) })

/- What a call leaves: the entry, and what it has sent. -/
structure FragSend where
  fbuf : FragFb
  fragment : Option Fragment
  -- a message for the next fragment is in the queue
  again : Bool
deriving DecidableEq, Repr

/- Send the next fragment of the entry. -/
def gnrcSixlowpanFragSend
    (env : FragEnv)
    (fbuf : FragFb) : Option FragSend := do
  let snips ← fbuf.pkt
  let payloadLen := gnrcPktLen snips
  let (res, fragment) ←
    if fbuf.offset = 0 then
      sendFirstFragment ifaceMaxFragSize env fbuf snips payloadLen
    else if fbuf.offset < payloadLen then
      sendNthFragment ifaceMaxFragSize env fbuf snips payloadLen
    else
      some (0, none)
  -- all errors, and the end, release the packet
  if res = 0 then
    some ⟨{ fbuf with pkt := none }, fragment, false⟩
  else
    let fbuf := { fbuf with offset := (fbuf.offset + res) % 2 ^ 16 }
    if env.sent then
      some ⟨fbuf, fragment, true⟩
    else
      some ⟨{ fbuf with pkt := none }, fragment, false⟩

/-
  The calls for an entry, as long as there is a message for
  the next one, and the fragments they send.
-/
def fragSendAll
    (env : Nat → FragEnv) :
    Nat → Nat → FragFb → Option (List Fragment × FragFb)
| 0, _, _ => none
| fuel + 1, i, fbuf => do
    let s ← gnrcSixlowpanFragSend ifaceMaxFragSize (env i) fbuf
    if s.again then
      let (fragments, last) ← fragSendAll env fuel (i + 1) s.fbuf
      some (s.fragment.toList ++ fragments, last)
    else
      some (s.fragment.toList, s.fbuf)

end Riot
