import Riot.Lib.FinNumerals
import Riot.Lib.ByteBuffer

/-
  The CoAP parser and the CoAP packet builder of the
  nanocoap module.

  A pointer into a message is the offset of its target from
  the header. The result `none` says that the code reads or
  writes outside of the message's buffer, runs into a failed
  assertion, or does not come to an end.
-/

open ByteBuffer

----
-- Packets
----

namespace Riot

/- The build-time choices the parser depends on. -/
structure NanocoapConfig where
  -- CONFIG_NANOCOAP_NOPTS_MAX
  noptsMax : Nat
  -- whether MODULE_GCOAP is defined
  gcoap : Bool
  -- options_len counts the entries in 16 bits
  noptsMax_lt : noptsMax < 2 ^ 16

/- An entry of the array of option positions. -/
structure CoapOptpos where
  optNum : Nat
  offset : Nat
deriving DecidableEq, Repr

/- The parsing context of a message. -/
structure CoapPkt where
  -- the buffer that starts with the header
  hdr : List UInt8
  token : Option Nat
  payload : Nat
  payloadLen : Nat
  optionsLen : Nat
  -- the entries written so far
  options : List CoapOptpos
  -- read and written with MODULE_GCOAP only
  observeValue : Nat
deriving DecidableEq, Repr

/- The errors of the module. -/
inductive CoapError where
| enoent
| enomem
| enospc
| ebadmsg
deriving DecidableEq, Repr

/- The numbers of the errors. -/
def CoapError.errno : CoapError → Int
| enoent => 2
| enomem => 12
| enospc => 28
| ebadmsg => 77

def sizeofCoapHdr : Nat := 4

def coapTokenLengthMax : Nat := 8

def coapOptObserve : Nat := 6

def uint32Max : Nat := 2 ^ 32 - 1

namespace CoapPkt

def coapGetCodeRaw
    (pkt : CoapPkt) : Option Nat := do
  let code ← pkt.hdr[1]?
  return code.toNat

def coapGetTokenLen
    (pkt : CoapPkt) : Option Nat := do
  let verTTkl ← pkt.hdr[0]?
  return verTTkl.toNat &&& 0xf

def coapGetTotalHdrLen
    (pkt : CoapPkt) : Option Nat := do
  let tkl ← pkt.coapGetTokenLen
  return sizeofCoapHdr + tkl

end CoapPkt

----
-- Values in Option Headers
----

/-
  The value of a nybble of an option header, which may go on
  in the bytes at `pktPos`, and the position after it. An
  error leaves the position where it is.
-/
def decodeValue
    (buf : List UInt8) (val pktPos pktEnd : Nat) : Option (Int × Nat) :=
  let left := pktEnd - pktPos
  match val with
  | 13 =>
    if left < 1 then
      some (-CoapError.enospc.errno, pktPos)
    else do
      let delta ← buf[pktPos]?
      some (delta.toNat + 13, pktPos + 1)
  | 14 =>
    if left < 2 then
      some (-CoapError.enospc.errno, pktPos)
    else do
      let delta ← readBytes buf pktPos 2
      some (fromNetwork delta + 269, pktPos + 2)
  | 15 => some (-CoapError.ebadmsg.errno, pktPos)
  | val => some (val, pktPos)

/- The number in the `nbytes` bytes at `pktPos`. -/
def decodeUint
    (buf : List UInt8) (pktPos nbytes : Nat) : Option Nat :=
  if nbytes = 0 then
    some 0
  else do
    let bs ← readBytes buf pktPos nbytes
    some (fromNetwork bs)

----
-- Reading Options
----

variable (pkt : CoapPkt)

/- The first recorded option of the number, or NULL. -/
def coapFindOption
    (optNum : Nat) : Option Nat :=
  let optpos := (pkt.options.take pkt.optionsLen).find? (fun optpos => optpos.optNum == optNum)
  optpos.map CoapOptpos.offset

/- What _parse_option writes and returns. -/
structure ParsedOption where
  pktPos : Nat
  delta : Nat
  optLen : Int
deriving DecidableEq, Repr

/-
  The attributes of the option at `pktPos`, or NULL at the
  payload marker and past the options. Errors of the fields
  are not checked.
-/
def parseOption
    (pktPos : Nat) : Option (Option ParsedOption) :=
  let hdrEnd := pkt.payload
  if pktPos ≥ hdrEnd then
    some none
  else do
    let optionByte ← pkt.hdr[pktPos]?
    if pktPos + 1 = hdrEnd ∧ optionByte = 0xff then
      some none
    else
      let option := optionByte.toNat
      let (delta, pos) ← decodeValue pkt.hdr (option >>> 4) (pktPos + 1) hdrEnd
      let (optLen, pos) ← decodeValue pkt.hdr (option &&& 0xf) pos hdrEnd
      some (some ⟨pos, (delta % 2 ^ 16).toNat, optLen⟩)

/- Read the 32-bit value of an option. -/
def coapOptGetUint
    (optNum : Nat) : Option (Except CoapError Nat) :=
  match coapFindOption pkt optNum with
  | none => some (.error .enoent)
  | some optPos => do
      -- a NULL result leaves the length at its initial zero
      let parsed ← parseOption pkt optPos
      let optionLen := (parsed.map ParsedOption.optLen).getD 0
      let pktPos := (parsed.map ParsedOption.pktPos).getD 0
      if optionLen ≥ 0 then
        if optionLen > 4 then
          some (.error .enospc)
        else do
          let target ← decodeUint pkt.hdr pktPos optionLen.toNat
          some (.ok target)
      else
        some (.error .ebadmsg)

/- What coap_opt_get_next writes and returns on success. -/
structure NextOption where
  len : Int
  value : Nat
  opt : CoapOptpos
deriving DecidableEq, Repr

/-
  The option at the position `opt`, or the first one, and
  the position that prepares the next call.
-/
def coapOptGetNext
    (opt : CoapOptpos) (initOpt : Bool) : Option (Except CoapError NextOption) := do
  let opt : CoapOptpos ←
    if initOpt then do
      let total ← pkt.coapGetTotalHdrLen
      some ⟨0, total % 2 ^ 16⟩
    else
      some opt
  let parsed ← parseOption pkt opt.offset
  match parsed with
  | none => some (.error .enoent)
  | some p =>
    let offset := ((p.pktPos + p.optLen) % 2 ^ 16).toNat
    some (.ok
      { len := p.optLen
        value := p.pktPos
        opt := ⟨(opt.optNum + p.delta) % 2 ^ 16, offset⟩ })

----
-- Parsing
----

/- The variables of the loop over the options. -/
structure OptionScan where
  pktPos : Nat
  payload : Option Nat
  optionNr : Nat
  options : List CoapOptpos
deriving DecidableEq, Repr

variable (cfg : NanocoapConfig)

/- The loop over the options of a message. -/
def scanOptions
    (buf : List UInt8) :
    Nat → OptionScan → Option (Except CoapError OptionScan)
| 0, _ => none
| fuel + 1, s =>
  let pktEnd := buf.length
  if s.pktPos < pktEnd then do
    let optionByte ← buf[s.pktPos]?
    let pos := s.pktPos + 1
    if optionByte = 0xff then
      some (.ok { s with pktPos := pos, payload := some pos })
    else
      let option := optionByte.toNat
      let (optionDelta, pos) ← decodeValue buf (option >>> 4) pos pktEnd
      if optionDelta < 0 then
        some (.error .ebadmsg)
      else
        let (optionLen, pos) ← decodeValue buf (option &&& 0xf) pos pktEnd
        if optionLen < 0 then
          some (.error .ebadmsg)
        else
          let optionNr := (s.optionNr + optionDelta.toNat) % 2 ^ 32
          let next := pos + optionLen.toNat
          if optionDelta ≠ 0 then
            if s.options.length ≥ cfg.noptsMax then
              some (.error .enomem)
            else
              scanOptions buf fuel
                { s with
                  pktPos := next
                  optionNr := optionNr
                  options := s.options ++ [⟨optionNr % 2 ^ 16, s.pktPos % 2 ^ 16⟩] }
          else
            scanOptions buf fuel
              { s with pktPos := next, optionNr := optionNr }
  else
    some (.ok s)

/- Read the Observe option into the packet. -/
def readObserve
    (pkt : CoapPkt) : Option CoapPkt :=
  if cfg.gcoap then do
    let observe ← coapOptGetUint pkt coapOptObserve
    match observe with
    | .ok v => some { pkt with observeValue := v }
    | .error _ => some { pkt with observeValue := uint32Max }
  else
    some pkt

/- Fill in the packet after the loop over the options. -/
def finishParse
    (buf : List UInt8) (tkl : Nat) (s : OptionScan) : Option (Except CoapError CoapPkt) :=
  if s.pktPos > buf.length then
    some (.error .ebadmsg)
  else do
    let pkt ← readObserve cfg
      { hdr := buf
        token := if tkl = 0 then none else some sizeofCoapHdr
        -- without a marker there is no payload
        payload := s.payload.getD s.pktPos
        payloadLen := (s.payload.map (fun p => (buf.length - p) % 2 ^ 16)).getD 0
        optionsLen := s.options.length % 2 ^ 16
        options := s.options
        observeValue := 0 }
    some (.ok pkt)

/-
  Parse the message in the buffer. What the packet holds
  after an error is left out: no caller reads it.
-/
def coapParse
    (buf : List UInt8) : Option (Except CoapError CoapPkt) :=
  let pkt : CoapPkt := ⟨buf, none, 0, 0, 0, [], 0⟩
  if buf.length < sizeofCoapHdr then
    some (.error .ebadmsg)
  else do
    let code ← pkt.coapGetCodeRaw
    if code = 0 ∧ buf.length > sizeofCoapHdr then
      some (.error .ebadmsg)
    else
      let tkl ← pkt.coapGetTokenLen
      if tkl > coapTokenLengthMax then
        some (.error .ebadmsg)
      else
        let scan ← scanOptions cfg buf (buf.length + 1) ⟨sizeofCoapHdr + tkl, none, 0, []⟩
        match scan with
        | .error e => some (.error e)
        | .ok s => finishParse cfg buf tkl s

----
-- Building
----

/- Build the header of a message in the buffer. -/
def coapBuildHdr
    (hdr : List UInt8) (type : Nat) (token : List UInt8)
    (code id : Nat) : Option (List UInt8 × Nat) :=
  if type > 0x3 ∨ token.length > 0x1f then
    none
  else do
    let verTTkl := (0x1 <<< 6) ||| (type <<< 4) ||| token.length
    let hdr ← writeBytes hdr 0 ([UInt8.ofNat verTTkl, UInt8.ofNat code] ++ htons id)
    let hdr ← writeBytes hdr sizeofCoapHdr token
    some (hdr, sizeofCoapHdr + token.length)

/- A packet that options are added to. -/
def coapPktInit
    (buf : List UInt8)
    (headerLen : Nat) : CoapPkt where
  hdr := buf
  token := some sizeofCoapHdr
  payload := headerLen
  payloadLen := (((buf.length : Int) - headerLen) % 2 ^ 16).toNat
  optionsLen := 0
  options := []
  observeValue := 0

/-
  Write one field of an option header: the nybble into the
  byte at `pos`, and what goes on after it at `offset`. The
  result holds the offset of the next byte to write.
-/
def putDeltaOptlen
    (buf : List UInt8) (pos offset shift val : Nat) :
    Option (List UInt8 × Nat) := do
  let b ← buf[pos]?
  if val < 13 then
    let buf ← writeBytes buf pos [b ||| UInt8.ofNat (val <<< shift)]
    some (buf, offset)
  else if val < 256 + 13 then
    let buf ← writeBytes buf pos [b ||| UInt8.ofNat (13 <<< shift)]
    let buf ← writeBytes buf (pos + offset) [UInt8.ofNat (val - 13)]
    some (buf, offset + 1)
  else
    let buf ← writeBytes buf pos [b ||| UInt8.ofNat (14 <<< shift)]
    let buf ← writeBytes buf (pos + offset) (htons (val - 269))
    some (buf, offset + 2)

/- Write an option and return its length. -/
def coapPutOption
    (buf : List UInt8) (pos lastonum onum : Nat)
    (odata : List UInt8) : Option (List UInt8 × Nat) :=
  if onum < lastonum then
    none
  else do
    let buf ← writeBytes buf pos [0]
    let (buf, n) ← putDeltaOptlen buf pos 1 4 (onum - lastonum)
    let (buf, n) ← putDeltaOptlen buf pos n 0 odata.length
    if odata.length = 0 then
      some (buf, n)
    else do
      let buf ← writeBytes buf (pos + n) odata
      some (buf, n + odata.length)

/- The number of the last option added. -/
def lastonum
    (pkt : CoapPkt) : Nat :=
  ((pkt.options.take pkt.optionsLen).getLast?.map CoapOptpos.optNum).getD 0

/- Add an option to the packet. -/
def addOptPkt
    (pkt : CoapPkt) (optnum : Nat)
    (val : List UInt8) : Option (Except CoapError (Nat × CoapPkt)) :=
  if pkt.optionsLen ≥ cfg.noptsMax then
    some (.error .enospc)
  else if optnum < lastonum pkt then
    none
  else do
    -- a dry run gives the length of the option
    let dummy := [0, 0, 0]
    let (dummy, optlen) ← putDeltaOptlen dummy 0 1 4 (optnum - lastonum pkt)
    let (_, n) ← putDeltaOptlen dummy 0 0 0 val.length
    let optlen := optlen + n + val.length
    if pkt.payloadLen < optlen then
      some (.error .enospc)
    else do
      let (buf, _) ← coapPutOption pkt.hdr pkt.payload (lastonum pkt) optnum val
      some (.ok (optlen,
        { pkt with
          hdr := buf
          options := pkt.options.take pkt.optionsLen ++ [⟨optnum, pkt.payload % 2 ^ 16⟩]
          optionsLen := pkt.optionsLen + 1
          payload := pkt.payload + optlen
          payloadLen := pkt.payloadLen - optlen }))

def coapOptAddOpaque
    (pkt : CoapPkt) (optnum : UInt16)
    (val : List UInt8) : Option (Except CoapError (Nat × CoapPkt)) :=
  addOptPkt cfg pkt optnum.toNat val

/- The number of bytes a number uses, of at most `fuel`. -/
def usedBytes : Nat → Nat → Nat
| 0, _ => 0
| fuel + 1, tmp =>
  if tmp = 0 then 0 else usedBytes fuel (tmp >>> 8) + 1

/- The used bytes of a 32-bit number in network byte order. -/
def encodeUint
    (val : UInt32) : List UInt8 :=
  let size := usedBytes 4 val.toNat
  (htonl val.toNat).drop (4 - size)

def coapOptAddUint
    (pkt : CoapPkt) (optnum : UInt16)
    (value : UInt32) : Option (Except CoapError (Nat × CoapPkt)) :=
  addOptPkt cfg pkt optnum.toNat (encodeUint value)

def coapOptFinishPayload : Nat := 0x0001

/- End the options and return the length of the message. -/
def coapOptFinish
    (pkt : CoapPkt) (flags : UInt16) : Option (Except CoapError (Nat × CoapPkt)) :=
  if flags.toNat &&& coapOptFinishPayload ≠ 0 then
    if pkt.payloadLen = 0 then
      some (.error .enospc)
    else do
      let buf ← writeBytes pkt.hdr pkt.payload [0xff]
      some (.ok (pkt.payload + 1,
        { pkt with hdr := buf, payload := pkt.payload + 1, payloadLen := pkt.payloadLen - 1 }))
  else
    some (.ok (pkt.payload, { pkt with payloadLen := 0 }))

/- Add the payload of the message. -/
def coapPayloadPutBytes
    (pkt : CoapPkt) (data : List UInt8) : Option (Except CoapError (Nat × CoapPkt)) :=
  if pkt.payloadLen < data.length then
    some (.error .enospc)
  else do
    let buf ← writeBytes pkt.hdr pkt.payload data
    some (.ok (data.length,
      { pkt with
        hdr := buf
        payload := pkt.payload + data.length
        payloadLen := pkt.payloadLen - data.length }))

end Riot
