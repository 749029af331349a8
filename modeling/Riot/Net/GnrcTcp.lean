import Riot.Core.Ringbuffer

/-
  The state machine of TCP connections.

  A connection is modelled with the packets of which it owns
  references. The result `none` says that a reference is given
  back that is not there, on which the packet buffer fails an
  assertion. When a timer expires and whether memory is left is
  decided by the environment.
-/

----
-- Sequence Numbers
----

namespace Riot

/- The subtraction of signed numbers wraps around. -/
def lss32Bit
    (x y : UInt32) : Bool :=
  x.toInt32 - y.toInt32 < 0

def leq32Bit
    (x y : UInt32) : Bool :=
  x.toInt32 - y.toInt32 ≤ 0

def insideWnd
    (lEdge seqNum rEdge : UInt32) : Bool :=
  leq32Bit lEdge seqNum && lss32Bit seqNum rEdge

theorem toInt_toInt32_sub
    (x y : UInt32) :
    (x.toInt32 - y.toInt32).toInt = ((x - y).toBitVec).toInt := rfl

theorem lss32Bit_iff
    (x y : UInt32) :
    lss32Bit x y = true ↔ 2 ^ 31 ≤ (x - y).toNat := by
  unfold lss32Bit
  rw [decide_eq_true_iff, Int32.lt_iff_toInt_lt, toInt_toInt32_sub, BitVec.toInt_eq_toNat_cond]
  have hLt := (x - y).toNat_lt
  simp only [UInt32.toNat_toBitVec, Int32.toInt_zero]
  split <;> omega

theorem leq32Bit_iff
    (x y : UInt32) :
    leq32Bit x y = true ↔ x = y ∨ 2 ^ 31 ≤ (x - y).toNat := by
  unfold leq32Bit
  rw [decide_eq_true_iff, Int32.le_iff_toInt_le, toInt_toInt32_sub, BitVec.toInt_eq_toNat_cond]
  have hLt := (x - y).toNat_lt
  have hZero : (x - y).toNat = 0 ↔ x = y := by
    rw [← UInt32.toNat_zero, UInt32.toNat_inj, UInt32.sub_eq_iff_eq_add, UInt32.zero_add]
  simp only [UInt32.toNat_toBitVec, Int32.toInt_zero]
  rw [← hZero]
  split <;> omega

----
-- Segments
----

structure TcpCtl where
  fin : Bool
  syn : Bool
  rst : Bool
  psh : Bool
  ack : Bool
deriving DecidableEq, Repr

def TcpCtl.none : TcpCtl :=
  ⟨false, false, false, false, false⟩

/- A segment, with the bytes of its option field. -/
structure TcpSegment where
  ctl : TcpCtl
  seqNum : UInt32
  ackNum : UInt32
  window : UInt16
  options : List UInt8
  -- the payload, snip by snip
  payload : List (List UInt8)
deriving DecidableEq, Repr

def pktGetPayLen
    (seg : TcpSegment) : UInt32 :=
  UInt32.ofNat (seg.payload.map List.length).sum

def pktGetSegLen
    (seg : TcpSegment) : UInt32 :=
  pktGetPayLen seg + (if seg.ctl.syn then 1 else 0) + (if seg.ctl.fin then 1 else 0)

/- A packet in the packet buffer. -/
structure TcpPkt where
  id : Nat
  seg : TcpSegment
deriving DecidableEq, Repr

----
-- Connections
----

inductive FsmState where
  | closed
  | listen
  | synSent
  | synRcvd
  | established
  | closeWait
  | lastAck
  | finWait1
  | finWait2
  | closing
  | timeWait
deriving DecidableEq, Repr

structure Tcb where
  state : FsmState
  -- the flag STATUS_PASSIVE
  passive : Bool
  sndUna : UInt32
  sndNxt : UInt32
  sndWnd : UInt16
  sndWl1 : UInt32
  sndWl2 : UInt32
  rcvNxt : UInt32
  rcvWnd : UInt16
  iss : UInt32
  irs : UInt32
  mss : UInt16
  pktRetransmit : Option TcpPkt
  -- whether a receive buffer is allocated
  rcvBufRaw : Bool
  rcvBuf : Ringbuffer
  -- the references of packets that the connection owns
  owned : Nat → Nat
  nextId : Nat
  -- the packets that were passed down
  sent : List TcpPkt

/- A connection after gnrc_tcp_tcb_init. -/
def Tcb.init : Tcb where
  state := .closed
  passive := false
  sndUna := 0
  sndNxt := 0
  sndWnd := 0
  sndWl1 := 0
  sndWl2 := 0
  rcvNxt := 0
  rcvWnd := 0
  iss := 0
  irs := 0
  mss := 0
  pktRetransmit := none
  rcvBufRaw := false
  rcvBuf := Ringbuffer.init (fun _ => 0) 0
  owned := fun _ => 0
  nextId := 0
  sent := []

structure TcpConfig where
  mss : UInt16
  defaultWindow : UInt16
  rcvBufSize : Nat
  -- the width of `size_t`
  sizeWidth : Nat

/- What the code around a call decides. -/
structure TcpEnv where
  -- whether the allocations for a packet succeed
  alloc : Nat → Bool
  -- whether a packet can be passed down
  netapiSend : Nat → Bool
  random : UInt32
  -- a free receive buffer
  rcvbufAlloc : Option (Nat → UInt8)
  localPortInUse : Bool
  -- a SYN is for another connection, or from nowhere
  synRefused : Bool

variable (cfg : TcpConfig) (env : TcpEnv) (t : Tcb)

----
-- Packets
----

def pktbufHold
    (id : Nat) : Tcb :=
  { t with owned := Function.update t.owned id (t.owned id + 1) }

def pktbufRelease
    (id : Nat) : Option Tcb :=
  if t.owned id = 0 then
    none
  else
    some { t with owned := Function.update t.owned id (t.owned id - 1) }

/- The option that tells the maximum segment size. -/
def optionBuildMss : List UInt8 :=
  [2, 4, (cfg.mss >>> 8).toUInt8, cfg.mss.toUInt8]

/- The packet that is built. -/
def builtPkt
    (ctl : TcpCtl) (seqNum ackNum : UInt32)
    (payload : List UInt8) : TcpPkt where
  id := t.nextId
  seg :=
    { ctl := ctl
      seqNum := seqNum
      ackNum := ackNum
      window := t.rcvWnd
      options := if ctl.syn then optionBuildMss cfg else []
      payload := if payload.isEmpty then [] else [payload] }

/- The sequence numbers that a packet consumes. -/
def seqConsumed
    (ctl : TcpCtl) (payload : List UInt8) : UInt16 :=
  (if ctl.syn then 1 else 0) + (if ctl.fin then 1 else 0) + UInt16.ofNat payload.length

/- The result holds no packet if an allocation fails. -/
def pktBuild
    (ctl : TcpCtl) (seqNum ackNum : UInt32)
    (payload : List UInt8) : Tcb × Option TcpPkt × UInt16 :=
  if env.alloc t.nextId then
    ({ t with owned := Function.update t.owned t.nextId 1, nextId := t.nextId + 1 },
      some (builtPkt cfg t ctl seqNum ackNum payload), seqConsumed ctl payload)
  else
    ({ t with nextId := t.nextId + 1 }, none, 0)

def pktBuildResetFromPkt
    (seg : TcpSegment) : Tcb × Option TcpPkt :=
  if env.alloc t.nextId then
    ({ t with owned := Function.update t.owned t.nextId 1, nextId := t.nextId + 1 },
      some
        { id := t.nextId
          seg :=
            { ctl :=
                { TcpCtl.none with rst := true, ack := !seg.ctl.ack }
              seqNum := if seg.ctl.ack then seg.ackNum else 0
              ackNum :=
                if seg.ctl.ack then 0
                else pktGetSegLen seg + seg.seqNum
              window := 0
              options := []
              payload := [] } })
  else
    ({ t with nextId := t.nextId + 1 }, none)

/- Every attempt to send consumes a reference. -/
def pktSend
    (pkt : Option TcpPkt) (seqCon : UInt16) (retransmit : Bool) : Option Tcb :=
  match pkt with
  | none => some t
  | some p =>
    let t :=
      if retransmit then t
      else { t with sndNxt := t.sndNxt + seqCon.toUInt32 }
    if env.netapiSend p.id then
      (pktbufRelease t p.id).map (fun t => { t with sent := t.sent ++ [p] })
    else
      pktbufRelease t p.id

/- A reset or a pure acknowledgement is sent only once. -/
def TcpSegment.sentOnce
    (seg : TcpSegment) : Bool :=
  seg.ctl.rst || ((!seg.ctl.syn && !seg.ctl.fin && seg.ctl.ack) && pktGetPayLen seg == 0)

def pktSetupRetransmit
    (pkt : Option TcpPkt) : Tcb :=
  match pkt with
  | none => t
  | some p =>
    if t.pktRetransmit.any (fun q => q.id != p.id) then
      t
    else if p.seg.sentOnce then
      t
    else
      pktbufHold { t with pktRetransmit := some p } p.id

def pktAcknowledge
    (ack : UInt32) : Option Tcb :=
  match t.pktRetransmit with
  | none => some t
  | some p =>
    if lss32Bit (p.seg.seqNum + pktGetSegLen p.seg - 1) ack then
      (pktbufRelease t p.id).map (fun t => { t with pktRetransmit := none })
    else
      some t

/- Whether the sequence number is not acceptable. -/
def pktChkSeqNum
    (seqNum segLen : UInt32) : Bool :=
  let lEdge := t.rcvNxt
  let rEdge := t.rcvNxt + t.rcvWnd.toUInt32
  let lastSeq := seqNum + segLen - 1
  !((segLen == 0 && t.rcvWnd == 0 && lEdge == seqNum) ||
    (segLen == 0 && t.rcvWnd > 0 && insideWnd lEdge seqNum rEdge) ||
    (segLen > 0 && t.rcvWnd > 0 && (insideWnd lEdge seqNum rEdge || insideWnd lEdge lastSeq rEdge)))

/- Build a packet and send it once. -/
def buildSend
    (ctl : TcpCtl) (seqNum ackNum : UInt32) (payload : List UInt8) : Option Tcb :=
  let (t, pkt, seqCon) := pktBuild cfg env t ctl seqNum ackNum payload
  pktSend env t pkt seqCon false

/- Build a packet and send it until it is acknowledged. -/
def buildQueueSend
    (ctl : TcpCtl) (seqNum ackNum : UInt32) (payload : List UInt8) : Option Tcb :=
  let (t, pkt, seqCon) := pktBuild cfg env t ctl seqNum ackNum payload
  pktSend env (pktSetupRetransmit t pkt) pkt seqCon false

def sendAck : Option Tcb :=
  buildSend cfg env t { TcpCtl.none with ack := true } t.sndNxt t.rcvNxt []

----
-- Options
----

/-
  Parse the bytes of the option field. The maximum segment size
  is stored even if a later option is malformed.
-/
def optionParse :
    Nat → UInt16 → List UInt8 → UInt16 × Bool
| 0, mss, _ => (mss, true)
| _ + 1, mss, [] => (mss, true)
| fuel + 1, mss, kind :: rest =>
  if kind = 0 then
    (mss, true)
  else if kind = 1 then
    optionParse fuel mss rest
  else
    match rest with
    | [] => (mss, false)
    | length :: value =>
      if kind = 2 ∧ (length.toNat > rest.length + 1 ∨
          length ≠ 4) then
        (mss, false)
      else
        let mss :=
          if kind = 2 then
            ((value.getD 0 0).toUInt16 <<< 8) ||| (value.getD 1 0).toUInt16
          else mss
        if length.toNat > rest.length + 1 ∨
            length.toNat < 2 then
          (mss, false)
        else
          optionParse fuel mss (value.drop (length.toNat - 2))

----
-- Transitions and Calls
----

def clearRetransmit : Option Tcb :=
  match t.pktRetransmit with
  | none => some t
  | some p => (pktbufRelease t p.id).map (fun t => { t with pktRetransmit := none })

def transitionTo
    (state : FsmState) : Option Tcb :=
  match state with
  | .closed =>
    (clearRetransmit t).map (fun t =>
      { t with rcvBufRaw := false, state := .closed })
  | _ => some { t with state := state }

inductive OpenResult where
  | success
  | enomem
  | eaddrinuse
deriving DecidableEq, Repr

def rcvbufGetBuffer : Option Tcb :=
  if t.rcvBufRaw then
    some t
  else
    env.rcvbufAlloc.map (fun buf =>
      { t with rcvBufRaw := true, rcvBuf := Ringbuffer.init buf cfg.rcvBufSize })

def fsmCallOpen : Option (Tcb × OpenResult) :=
  match rcvbufGetBuffer cfg env t with
  | none => some (t, .enomem)
  | some t =>
    let t := { t with rcvWnd := cfg.defaultWindow }
    if t.passive then
      (transitionTo t .listen).map (fun t => (t, .success))
    else
      let t := { t with iss := env.random, sndNxt := env.random, sndUna := env.random }
      if env.localPortInUse then
        (transitionTo t .closed).map (fun t => (t, .eaddrinuse))
      else
        (transitionTo t .synSent).bind (fun t =>
          (buildQueueSend cfg env t
            { TcpCtl.none with syn := true } t.iss 0 []).map (fun t => (t, .success)))

/- What the window of the peer leaves. -/
def sendWindow : Nat :=
  (t.sndUna + t.sndWnd.toUInt32 - t.sndNxt).toNat % 2 ^ cfg.sizeWidth

/- The number of bytes of a buffer that are sent now. -/
def sendPayload
    (len : Nat) : Nat :=
  min (min (min (sendWindow cfg t) cfg.mss.toNat) t.mss.toNat) len

def fsmCallSend
    (buf : List UInt8) : Option (Tcb × Nat) :=
  if sendWindow cfg t > 0 ∧ t.sndWnd > 0 ∧
      t.pktRetransmit.isNone = true then
    let n := sendPayload cfg t buf.length
    (buildQueueSend cfg env t
      { TcpCtl.none with
        ack := true
        psh := true } t.sndNxt t.rcvNxt (buf.take n)).map (fun t => (t, n))
  else
    some (t, 0)

def fsmCallRecv
    (len : Nat) : Option (Tcb × List UInt8) :=
  if t.rcvBuf.empty then
    some (t, [])
  else
    let (rb, bytes) := t.rcvBuf.get len
    let t := { t with rcvBuf := rb }
    if rb.getFree ≥ cfg.mss.toNat then
      (sendAck cfg env { t with rcvWnd := UInt16.ofNat rb.getFree }).map (fun t => (t, bytes))
    else
      some (t, bytes)

def fsmCallClose : Option Tcb := do
  let t ←
    (if t.state = .synRcvd ∨ t.state = .established ∨
        t.state = .closeWait then
      buildQueueSend cfg env t
        { TcpCtl.none with fin := true, ack := true } t.sndNxt t.rcvNxt []
    else
      some t)
  match t.state with
  | .listen => transitionTo t .closed
  | .synRcvd => transitionTo t .finWait1
  | .established => transitionTo t .finWait1
  | .closeWait => transitionTo t .lastAck
  | _ => some t

def fsmCallAbort : Option Tcb := do
  let t ←
    (if t.state = .synRcvd ∨ t.state = .established ∨
        t.state = .finWait1 ∨ t.state = .finWait2 ∨
        t.state = .closeWait then
      buildSend cfg env t { TcpCtl.none with rst := true } t.sndNxt t.rcvNxt []
    else
      some t)
  transitionTo t .closed

def fsmTimeoutTimewait : Option Tcb :=
  transitionTo t .closed

def fsmTimeoutConnection : Option Tcb :=
  transitionTo t .closed

def fsmTimeoutRetransmit : Option Tcb :=
  match t.pktRetransmit with
  | none => some t
  | some p => pktSend env (pktSetupRetransmit t (some p)) (some p) 0 true

def fsmSendProbe : Option Tcb :=
  let (t, pkt, _) := pktBuild cfg env t { TcpCtl.none with ack := true } (t.sndUna - 1) t.rcvNxt [1]
  pktSend env t pkt 0 false

def fsmClearRetransmit : Option Tcb :=
  clearRetransmit t

----
-- Received Segments
----

/- A segment in the state LISTEN. -/
def rcvdListen
    (seg : TcpSegment) : Option Tcb :=
  if seg.ctl.rst then
    some t
  else if seg.ctl.ack then
    let (t, pkt) := pktBuildResetFromPkt env t seg
    pktSend env t pkt 0 false
  else if seg.ctl.syn then
    if env.synRefused then
      some t
    else
      let t := { t with
        irs := seg.seqNum
        rcvNxt := seg.seqNum + 1
        iss := env.random
        sndUna := env.random
        sndNxt := env.random
        sndWnd := seg.window }
      (buildQueueSend cfg env t
        { TcpCtl.none with
          syn := true
          ack := true } t.iss t.rcvNxt []).bind (fun t => transitionTo t .synRcvd)
  else
    some t

/- A SYN in the state SYN_SENT. -/
def rcvdSynSentSyn
    (seg : TcpSegment) : Option Tcb := do
  let t := { t with rcvNxt := seg.seqNum + 1, irs := seg.seqNum }
  let t ←
    (if seg.ctl.ack then
      pktAcknowledge { t with sndUna := seg.ackNum } seg.ackNum
    else
      some t)
  let t ←
    (if t.sndUna > t.iss then
      (sendAck cfg env t).bind (fun t => transitionTo t .established)
    else
      (buildQueueSend cfg env t
        { TcpCtl.none with
          syn := true
          ack := true } t.iss t.rcvNxt []).bind (fun t => transitionTo t .synRcvd))
  some { t with sndWnd := seg.window, sndWl1 := seg.seqNum, sndWl2 := seg.ackNum }

/- A segment in the state SYN_SENT. -/
def rcvdSynSent
    (seg : TcpSegment) : Option Tcb :=
  if seg.ctl.ack &&
      (seg.ackNum ≤ t.iss || seg.ackNum > t.sndNxt) then
    if seg.ctl.rst then
      some t
    else
      buildSend cfg env t { TcpCtl.none with rst := true } seg.ackNum 0 []
  else if seg.ctl.rst then
    if seg.ctl.ack then transitionTo t .closed else some t
  else if seg.ctl.syn then
    rcvdSynSentSyn cfg env t seg
  else
    some t

/- The states in which acknowledgements are processed. -/
def FsmState.takesAck : FsmState → Bool
| .established => true
| .finWait1 => true
| .finWait2 => true
| .closeWait => true
| .closing => true
| .lastAck => true
| _ => false

/- The states in which payload is processed. -/
def FsmState.takesPayload : FsmState → Bool
| .established => true
| .finWait1 => true
| .finWait2 => true
| _ => false

/- An acknowledgement in the state SYN_RCVD. -/
def rcvdAckSynRcvd
    (seg : TcpSegment) : Option Tcb :=
  if t.state = .synRcvd then
    if lss32Bit t.sndUna seg.ackNum &&
        leq32Bit seg.ackNum t.sndNxt then
      transitionTo
        { t with sndWnd := seg.window, sndWl1 := seg.seqNum, sndWl2 := seg.ackNum } .established
    else
      buildSend cfg env t { TcpCtl.none with rst := true } seg.ackNum 0 []
  else
    some t

def updateSndWnd
    (seg : TcpSegment) : Tcb :=
  if (leq32Bit t.sndUna seg.ackNum &&
        leq32Bit seg.ackNum t.sndNxt) &&
      (lss32Bit t.sndWl1 seg.seqNum ||
        (t.sndWl1 == seg.seqNum &&
          leq32Bit t.sndWl2 seg.ackNum)) then
    { t with sndWnd := seg.window, sndWl1 := seg.seqNum, sndWl2 := seg.ackNum }
  else
    t

/-
  Check if a FIN that was sent is acknowledged. The result says
  whether the segment is processed further.
-/
def checkFinAcked : Option (Tcb × Bool) :=
  if t.pktRetransmit.isNone then
    match t.state with
    | .finWait1 => (transitionTo t .finWait2).map (fun t => (t, true))
    | .closing => (transitionTo t .timeWait).map (fun t => (t, true))
    | .lastAck => (transitionTo t .closed).map (fun t => (t, false))
    | _ => some (t, true)
  else
    some (t, true)

/- Process the acknowledgement of a segment. -/
def rcvdAck
    (seg : TcpSegment) : Option (Tcb × Bool) := do
  let t ← rcvdAckSynRcvd cfg env t seg
  if t.state.takesAck then
    if lss32Bit t.sndUna seg.ackNum &&
        leq32Bit seg.ackNum t.sndNxt then
      let t ← pktAcknowledge { t with sndUna := seg.ackNum } seg.ackNum
      checkFinAcked (updateSndWnd t seg)
    else if lss32Bit t.sndNxt seg.ackNum then
      (sendAck cfg env t).map (fun t => (t, false))
    else
      checkFinAcked (updateSndWnd t seg)
  else
    some (t, true)

/- Add the snips of the payload to the receive buffer. -/
def addSnips :
    Ringbuffer → UInt32 → List (List UInt8) → Ringbuffer × UInt32
| rb, rcvNxt, [] => (rb, rcvNxt)
| rb, rcvNxt, bs :: rest =>
  let (rb, n) := rb.add bs
  addSnips rb (rcvNxt + UInt32.ofNat n) rest

/- Only data that is expected is accepted. -/
def acceptPayload
    (seg : TcpSegment) : Tcb :=
  if t.rcvNxt = seg.seqNum then
    let (rb, rcvNxt) := addSnips t.rcvBuf t.rcvNxt seg.payload
    { t with rcvBuf := rb, rcvNxt := rcvNxt, rcvWnd := UInt16.ofNat rb.getFree }
  else
    t

/- Process the payload of a segment. -/
def rcvdPayload
    (seg : TcpSegment) : Option Tcb :=
  if pktGetPayLen seg > 0 ∧ t.state.takesPayload = true then
    let t := acceptPayload t seg
    if seg.ctl.fin then some t else sendAck cfg env t
  else
    some t

/- Process the FIN of a segment. -/
def rcvdFin
    (seg : TcpSegment) : Option Tcb :=
  if seg.ctl.fin then
    if t.state = .closed ∨ t.state = .listen ∨
        t.state = .synSent then
      some t
    else do
      let t ← sendAck cfg env { t with rcvNxt := seg.seqNum + pktGetSegLen seg }
      match t.state with
      | .synRcvd => transitionTo t .closeWait
      | .established => transitionTo t .closeWait
      | .finWait1 =>
        if t.pktRetransmit.isNone then transitionTo t .timeWait
        else transitionTo t .closing
      | .finWait2 => transitionTo t .timeWait
      | _ => some t
  else
    some t

/- A segment in the other states. -/
def rcvdOther
    (seg : TcpSegment) : Option Tcb :=
  if pktChkSeqNum t seg.seqNum (pktGetPayLen seg) then
    if seg.ctl.rst then some t else sendAck cfg env t
  else if seg.ctl.rst then
    if t.state = .synRcvd ∧ t.passive = true then
      transitionTo t .listen
    else
      transitionTo t .closed
  else if seg.ctl.syn then
    (buildSend cfg env t { TcpCtl.none with rst := true }
      t.sndNxt t.rcvNxt []).bind (fun t => transitionTo t .closed)
  else if seg.ctl.ack then do
    let (t, further) ← rcvdAck cfg env t seg
    if further then
      let t ← rcvdPayload cfg env t seg
      rcvdFin cfg env t seg
    else
      some t
  else
    some t

def fsmRcvdPkt
    (seg : TcpSegment) : Option Tcb :=
  let (mss, wellFormed) := optionParse seg.options.length t.mss seg.options
  let t := { t with mss := mss }
  if wellFormed then
    match t.state with
    | .listen => rcvdListen cfg env t seg
    | .synSent => rcvdSynSent cfg env t seg
    | _ => rcvdOther cfg env t seg
  else
    some t

----
-- A Sample Configuration
----

def defaultTcpConfig : TcpConfig where
  mss := 1220
  defaultWindow := 1220
  rcvBufSize := 1220
  sizeWidth := 32

/- An environment in which nothing fails. -/
def roomyTcpEnv
    (random : UInt32) : TcpEnv where
  alloc := fun _ => true
  netapiSend := fun _ => true
  random := random
  rcvbufAlloc := some (fun _ => 0)
  localPortInUse := false
  synRefused := false

end Riot
