import Riot.Lib.ByteBuffer
import Mathlib.Logic.Function.Basic

/-
  The MQTT-SN client, `emcute.c`.

  A client call sends a message and waits until the receive
  thread has handled a response, or a timer has run out in
  each round.  The messages that the receive thread handles
  meanwhile are given with the call.  A result of `none` is a
  failed assertion, an access past the end of a buffer, or a
  call that waits forever for the transmit lock.
-/

----
-- Constants
----

namespace Riot

open ByteBuffer

/-
  The constants of a build, and the bits of `size_t`, with
  the bounds that the header demands, and room for the head
  of a publication.
-/
structure EmcuteConf where
  bufsize : Nat
  topicMaxlen : Nat
  nRetry : Nat
  keepalive : Nat
  width : Nat
  topicMaxlen_lt : topicMaxlen + 6 < 256
  topicMaxlen_lt_bufsize : topicMaxlen + 6 < bufsize
  bufsize_lt : bufsize < 32768
  bufsize_ge : 9 ≤ bufsize
  width_ge : 16 ≤ width

namespace Emcute

/- Return values. -/
def ok : Int := 0
def nogw : Int := -1
def reject : Int := -2
def overflow : Int := -3
def timeout : Int := -4
def notsup : Int := -5

/- Flags. -/
def qosMask : UInt32 := 0x60
def qos2 : UInt32 := 0x40
def qos1 : UInt32 := 0x20
def retain : UInt32 := 0x10
def will : UInt32 := 0x08
def cs : UInt32 := 0x04
def dup : UInt32 := 0x80
def titMask : UInt32 := 0x03
def pubFlags : UInt32 := qosMask ||| retain
def subFlags : UInt32 := dup ||| qosMask ||| titMask

/- Message types. -/
def connect : UInt8 := 0x04
def connack : UInt8 := 0x05
def willtopicreq : UInt8 := 0x06
def willtopic : UInt8 := 0x07
def willmsgreq : UInt8 := 0x08
def willmsg : UInt8 := 0x09
def register : UInt8 := 0x0a
def regack : UInt8 := 0x0b
def publish : UInt8 := 0x0c
def puback : UInt8 := 0x0d
def subscribe : UInt8 := 0x12
def suback : UInt8 := 0x13
def unsubscribe : UInt8 := 0x14
def unsuback : UInt8 := 0x15
def disconnect : UInt8 := 0x18
def willtopicupd : UInt8 := 0x1a
def willtopicresp : UInt8 := 0x1b
def willmsgupd : UInt8 := 0x1c
def willmsgresp : UInt8 := 0x1d

/- The return code `ACCEPT` of a response. -/
def accept : UInt8 := 0x00

def protocolVersion : UInt8 := 0x01

end Emcute

----
-- State
----

/-
  The static variables.  A subscription is known by a number,
  and so is its topic; the gateway is connected when its port
  is not 0.  The response flag is that of the thread which
  waits in `syncsend`.
-/
structure Emcute
    (conf : EmcuteConf) where
  cliId : List UInt8
  gatewayPort : Nat
  rbuf : { buf : List UInt8 // buf.length = conf.bufsize }
  tbuf : { buf : List UInt8 // buf.length = conf.bufsize }
  subs : List Nat
  topicId : Nat → Nat
  txlock : Bool
  idNext : UInt16
  waiton : UInt8
  waitonid : UInt16
  result : Int
  tflagsResp : Bool
  sent : List (List UInt8)

variable {conf : EmcuteConf}

/- Written bytes leave a buffer as long as it was. -/
theorem length_written
    {buf buf' bs : List UInt8} {pos : Nat}
    (hWrite : writeBytes buf pos bs = some buf') :
    buf'.length = buf.length := by
  rcases writeBytes_eq_some hWrite with ⟨hFits, rfl⟩
  simp only [List.length_append, List.length_take, List.length_drop]
  omega

/- Write bytes to the transmit buffer. -/
def Emcute.put
    (s : Emcute conf) (pos : Nat) (bs : List UInt8) : Option (Emcute conf) :=
  match hWrite : writeBytes s.tbuf.1 pos bs with
  | some buf => some { s with tbuf := ⟨buf, (length_written hWrite).trans s.tbuf.2⟩ }
  | none => none

/- The function `sock_udp_send`, from the transmit buffer. -/
def sockUdpSend
    (s : Emcute conf) (len : Nat) : Option (Emcute conf) :=
  if len ≤ conf.bufsize then
    some { s with sent := s.sent ++ [s.tbuf.1.take len] }
  else
    none

/- Nobody else unlocks for a caller that finds the lock held. -/
def lockTx
    (s : Emcute conf) : Option (Emcute conf) :=
  if s.txlock then none else some { s with txlock := true }

def unlockTx
    (s : Emcute conf) : Emcute conf :=
  { s with txlock := false }

/-
  The function `set_len`, with the bytes that it writes and
  the position after them.
-/
def emcuteSetLen
    (s : Emcute conf) (len : Nat) : Option (Emcute conf × Nat) :=
  if len < 0xff then do
    let s ← s.put 0 [UInt8.ofNat (len + 1)]
    some (s, 1)
  else do
    let s ← s.put 0 [0x01]
    let s ← s.put 1 (htons (len + 3))
    some (s, 3)

----
-- The Receive Thread
----

/- A byte of the receive buffer, and a number in it. -/
def Emcute.rbyte
    (s : Emcute conf) (pos : Nat) : UInt8 :=
  s.rbuf.1.getD pos 0

def Emcute.rshort
    (s : Emcute conf) (pos : Nat) : Nat :=
  fromNetwork [s.rbyte pos, s.rbyte (pos + 1)]

/- The function `get_len`. -/
def emcuteGetLen
    (s : Emcute conf) : Nat × Nat :=
  if s.rbyte 0 ≠ 0x01 then
    (1, (s.rbyte 0).toNat)
  else
    (3, s.rshort 1)

/- The function `on_disconnect`. -/
def onDisconnect
    (s : Emcute conf) : Emcute conf :=
  if s.waiton = Emcute.disconnect then
    { s with gatewayPort := 0, result := Emcute.ok, tflagsResp := true }
  else
    s

/- The function `on_ack`. -/
def onAck
    (s : Emcute conf) (type : UInt8) (idPos retPos resPos : Nat) : Emcute conf :=
  if s.waiton = type ∧
      (idPos = 0 ∨ s.waitonid.toNat = s.rshort idPos) then
    { s with
      result :=
        if retPos = 0 ∨ s.rbyte retPos = Emcute.accept then
          if resPos = 0 then
            Emcute.ok
          else
            (s.rshort resPos : Int)
        else
          Emcute.reject
      tflagsResp := true }
  else
    s

/-
  The switch over the packet type.  Publications and pings
  change no variable that a client call uses.
-/
def handlePacket
    (s : Emcute conf) (type : UInt8) : Emcute conf :=
  if type = Emcute.connack then onAck s type 0 2 0
  else if type = Emcute.willtopicreq then onAck s type 0 0 0
  else if type = Emcute.willmsgreq then onAck s type 0 0 0
  else if type = Emcute.regack then onAck s type 4 6 2
  else if type = Emcute.puback then onAck s type 4 6 0
  else if type = Emcute.suback then onAck s type 5 7 3
  else if type = Emcute.unsuback then onAck s type 2 0 0
  else if type = Emcute.disconnect then onDisconnect s
  else if type = Emcute.willtopicresp then onAck s type 0 0 0
  else if type = Emcute.willmsgresp then onAck s type 0 0 0
  else s

/- A received packet, in the buffer of the receive thread. -/
def fillRbuf
    (s : Emcute conf) (pkt : List UInt8)
    (hFits : pkt.length ≤ conf.bufsize) : Emcute conf :=
  { s with
    rbuf := ⟨pkt ++ s.rbuf.1.drop pkt.length, by
        rw [List.length_append, List.length_drop, s.rbuf.2]
        omega⟩ }

/-
  One turn of the loop in `emcute_run`; packets that are too
  long for the buffer are a receive error.
-/
def emcuteRecv
    (s : Emcute conf) (pkt : List UInt8) : Emcute conf :=
  if hFits : pkt.length ≤ conf.bufsize then
    let s := fillRbuf s pkt hFits
    if pkt.length < 2 then
      s
    else if pkt.length = 2 ∧ s.rbyte 0 = 0x01 then
      s
    else
      let (pos, pktLen) := emcuteGetLen s
      if pktLen > pkt.length ∨ pos ≥ pkt.length then
        s
      else
        handlePacket s (s.rbyte pos)
  else
    s

----
-- Exchanges
----

/-
  The packets that the receive thread handles in the rounds
  of an exchange, and after its last round.
-/
structure SyncEnv where
  rounds : Nat → List (List UInt8)
  late : List (List UInt8)

/- No packet arrives. -/
def SyncEnv.silent : SyncEnv where
  rounds := fun _ => []
  late := []

/- One packet arrives in the first round. -/
def SyncEnv.answer
    (pkt : List UInt8) : SyncEnv where
  rounds := fun round => if round = 0 then [pkt] else []
  late := []

/-
  The rounds of `syncsend`, with the number of rounds that
  are left.  A round without a response ends by the timer.
-/
def syncsendFrom
    (len : Nat) (env : SyncEnv) :
    Nat → Nat → Emcute conf → Option (Emcute conf × Int)
| _, 0, s => some (s, Emcute.timeout)
| round, left + 1, s => do
    let s ← sockUdpSend s len
    let s := (env.rounds round).foldl emcuteRecv s
    if s.tflagsResp then
      some ({ s with tflagsResp := false }, s.result)
    else
      syncsendFrom len env (round + 1) left s

/- The function `syncsend`. -/
def syncsend
    (s : Emcute conf) (env : SyncEnv) (resp : UInt8) (len : Nat)
    (unlock : Bool) : Option (Emcute conf × Int) := do
  let s := { s with waiton := resp, tflagsResp := false }
  let (s, res) ← syncsendFrom len env 0 (conf.nRetry + 1) s
  let s := env.late.foldl emcuteRecv s
  let s := { s with waiton := 0xff }
  some (if unlock then unlockTx s else s, res)

----
-- Client Calls
----

/- An assertion of the source. -/
def asserts
    (p : Prop)
    [Decidable p]
    (s : Emcute conf) : Option (Emcute conf) :=
  if p then some s else none

/- The connection has failed. -/
def dropGateway
    (s : Emcute conf) : Emcute conf :=
  { s with gatewayPort := 0 }

/- The last exchange of `emcute_con`. -/
def emcuteConAck
    (s : Emcute conf) (env : SyncEnv) (len : Nat) : Option (Emcute conf × Int) := do
  let (s, res) ← syncsend s env Emcute.connack len true
  if res ≠ Emcute.ok then
    some (dropGateway s, res)
  else
    some (s, res)

/- The part of `emcute_con` for a last will. -/
def emcuteConWill
    (s : Emcute conf) (env : Nat → SyncEnv) (len : Nat) (willTopic willMsg : List UInt8)
    (willFlags : UInt32) : Option (Emcute conf × Int) :=
  if willTopic.length > conf.topicMaxlen ∨
      (willMsg.length + 4) % 2 ^ conf.width >
        conf.bufsize then
    some (dropGateway s, Emcute.overflow)
  else do
    let (s, res) ← syncsend s (env 0) Emcute.willtopicreq len false
    if res ≠ Emcute.ok then
      some (dropGateway s, res)
    else do
      let (s, pos) ← emcuteSetLen s (willTopic.length + 2)
      let s ← s.put pos [Emcute.willtopic]
      let s ← s.put (pos + 1) [willFlags.toUInt8]
      let s ← s.put (pos + 2) willTopic
      let (s, res) ← syncsend s (env 1) Emcute.willmsgreq (pos + willTopic.length + 2) false
      if res ≠ Emcute.ok then
        some (dropGateway s, res)
      else do
        let (s, pos) ← emcuteSetLen s ((willMsg.length + 1) % 2 ^ conf.width)
        let s ← s.put pos [Emcute.willmsg]
        let s ← s.put (pos + 1) willMsg
        emcuteConAck s (env 2) ((pos + willMsg.length + 1) % 2 ^ conf.width)

/-
  The function `emcute_con`; a last will is a topic, a
  message that may be missing, and flags.
-/
def emcuteCon
    (s : Emcute conf) (env : Nat → SyncEnv) (remotePort : Nat) (clean : Bool)
    (willTopic willMsg : Option (List UInt8)) (willFlags : UInt32) :
    Option (Emcute conf × Int) := do
  let s ← asserts (willTopic = none ∨ willMsg ≠ none ∧ willFlags &&& ~~~Emcute.pubFlags = 0) s
  let s ← lockTx s
  if s.gatewayPort ≠ 0 then
    some (s, Emcute.nogw)
  else do
    let s := { s with gatewayPort := remotePort }
    let flags := (if clean then Emcute.cs else 0) ||| (if willTopic.isSome then Emcute.will else 0)
    let len := s.cliId.length + 6
    let s ←
      s.put 0
        ([UInt8.ofNat len, Emcute.connect, flags.toUInt8,
          Emcute.protocolVersion] ++ htons conf.keepalive)
    let s ← s.put 6 s.cliId
    match willTopic with
    | none => emcuteConAck s (env 0) len
    | some topic => emcuteConWill s env len topic (willMsg.getD []) willFlags

/- The function `emcute_discon`. -/
def emcuteDiscon
    (s : Emcute conf) (env : Nat → SyncEnv) : Option (Emcute conf × Int) :=
  if s.gatewayPort = 0 then
    some (s, Emcute.nogw)
  else do
    let s ← lockTx s
    let s ← s.put 0 [2, Emcute.disconnect]
    syncsend s (env 0) Emcute.disconnect 2 true

/- Take the next message id, and wait for it. -/
def takeId
    (s : Emcute conf) : Emcute conf :=
  { s with waitonid := s.idNext, idNext := s.idNext + 1 }

/- The topic id in a positive result. -/
def storeTopicId
    (s : Emcute conf) (topic : Nat) (res : Int) : Emcute conf :=
  { s with topicId := Function.update s.topicId topic (res.toNat % 2 ^ 16) }

/- The function `emcute_reg`. -/
def emcuteReg
    (s : Emcute conf) (env : Nat → SyncEnv) (topic : Nat)
    (name : List UInt8) : Option (Emcute conf × Int) :=
  if s.gatewayPort = 0 then
    some (s, Emcute.nogw)
  else if name.length > conf.topicMaxlen then
    some (s, Emcute.overflow)
  else do
    let s ← lockTx s
    let s ←
      s.put 0 ([UInt8.ofNat (name.length + 6), Emcute.register] ++ htons 0 ++ htons s.idNext.toNat)
    let s ← (takeId s).put 6 name
    let (s, res) ← syncsend s (env 0) Emcute.regack (UInt8.ofNat (name.length + 6)).toNat true
    if res > 0 then
      some (storeTopicId s topic res, Emcute.ok)
    else
      some (s, res)

/- The function `emcute_pub`. -/
def emcutePub
    (s : Emcute conf) (env : Nat → SyncEnv) (topic : Nat) (data : List UInt8)
    (flags : UInt32) : Option (Emcute conf × Int) := do
  let s ← asserts (s.topicId topic ≠ 0 ∧ data ≠ [] ∧ flags &&& ~~~Emcute.pubFlags = 0) s
  if s.gatewayPort = 0 then
    some (s, Emcute.nogw)
  else if data.length ≥ conf.bufsize - 9 then
    some (s, Emcute.overflow)
  else if flags &&& Emcute.qos2 ≠ 0 then
    some (s, Emcute.notsup)
  else do
    let s ← lockTx s
    let (s, pos) ← emcuteSetLen s (data.length + 6)
    let s ←
      s.put pos ([Emcute.publish, flags.toUInt8] ++ htons (s.topicId topic) ++ htons s.idNext.toNat)
    let s ← (takeId s).put (pos + 6) data
    let len := data.length + (pos + 6)
    if flags &&& Emcute.qos1 ≠ 0 then
      syncsend s (env 0) Emcute.puback len true
    else do
      let s ← sockUdpSend s len
      some (unlockTx s, Emcute.ok)

/- The function `emcute_sub`. -/
def emcuteSub
    (s : Emcute conf) (env : Nat → SyncEnv) (sub : Nat) (name : List UInt8)
    (flags : UInt32) : Option (Emcute conf × Int) := do
  let s ← asserts (flags &&& ~~~Emcute.subFlags = 0) s
  if s.gatewayPort = 0 then
    some (s, Emcute.nogw)
  else if name.length > conf.topicMaxlen then
    some (s, Emcute.overflow)
  else do
    let s ← lockTx s
    let s ←
      s.put 0
        ([UInt8.ofNat (name.length + 5), Emcute.subscribe, flags.toUInt8] ++ htons s.idNext.toNat)
    let s ← (takeId s).put 5 name
    let (s, res) ← syncsend s (env 0) Emcute.suback (UInt8.ofNat (name.length + 5)).toNat false
    if res > 0 then
      let s := storeTopicId s sub res
      if sub ∈ s.subs then
        some (unlockTx s, res)
      else
        some (unlockTx { s with subs := sub :: s.subs }, Emcute.ok)
    else
      some (unlockTx s, res)

/- The function `emcute_unsub`. -/
def emcuteUnsub
    (s : Emcute conf) (env : Nat → SyncEnv) (sub : Nat)
    (name : List UInt8) : Option (Emcute conf × Int) :=
  if s.gatewayPort = 0 then
    some (s, Emcute.nogw)
  else do
    let s ← lockTx s
    let s ← s.put 0 ([UInt8.ofNat (name.length + 5), Emcute.unsubscribe, 0] ++ htons s.idNext.toNat)
    let s ← (takeId s).put 5 name
    let (s, res) ← syncsend s (env 0) Emcute.unsuback (UInt8.ofNat (name.length + 5)).toNat false
    if res = Emcute.ok then
      some (unlockTx { s with subs := s.subs.erase sub }, res)
    else
      some (unlockTx s, res)

/- The function `emcute_willupd_topic`. -/
def emcuteWillupdTopic
    (s : Emcute conf) (env : Nat → SyncEnv) (topic : Option (List UInt8))
    (flags : UInt32) : Option (Emcute conf × Int) := do
  let s ← asserts (flags &&& ~~~Emcute.pubFlags = 0) s
  if s.gatewayPort = 0 then
    some (s, Emcute.nogw)
  else if (topic.getD []).length > conf.topicMaxlen then
    some (s, Emcute.overflow)
  else do
    let s ← lockTx s
    let s ← s.put 1 [Emcute.willtopicupd]
    match topic with
    | none => do
        let s ← s.put 0 [2]
        syncsend s (env 0) Emcute.willtopicresp 2 true
    | some name => do
        let s ← s.put 0 [UInt8.ofNat (name.length + 3)]
        let s ← s.put 2 [flags.toUInt8]
        let s ← s.put 3 name
        syncsend s (env 0) Emcute.willtopicresp (UInt8.ofNat (name.length + 3)).toNat true

/- The function `emcute_willupd_msg`. -/
def emcuteWillupdMsg
    (s : Emcute conf) (env : Nat → SyncEnv)
    (data : List UInt8) : Option (Emcute conf × Int) := do
  let s ← asserts (data ≠ []) s
  if s.gatewayPort = 0 then
    some (s, Emcute.nogw)
  else if data.length > conf.bufsize - 4 then
    some (s, Emcute.overflow)
  else do
    let s ← lockTx s
    let (s, pos) ← emcuteSetLen s (data.length + 1)
    let s ← s.put pos [Emcute.willmsgupd]
    let s ← s.put (pos + 1) data
    syncsend s (env 0) Emcute.willmsgresp (pos + 1 + data.length) true

/- The calls of a client. -/
inductive EmcuteCall where
  | con
      (remotePort : Nat)
      (clean : Bool)
      (willTopic willMsg : Option (List UInt8))
      (willFlags : UInt32)
  | discon
  | reg (topic : Nat) (name : List UInt8)
  | pub (topic : Nat) (data : List UInt8) (flags : UInt32)
  | sub (subId : Nat) (name : List UInt8) (flags : UInt32)
  | unsub (subId : Nat) (name : List UInt8)
  | willupdTopic
      (topic : Option (List UInt8))
      (flags : UInt32)
  | willupdMsg (data : List UInt8)

/- Execute a call, with the packets of its exchanges. -/
def EmcuteCall.exec
    (s : Emcute conf) (env : Nat → SyncEnv) :
    EmcuteCall → Option (Emcute conf × Int)
| .con remotePort clean willTopic willMsg willFlags =>
  emcuteCon s env remotePort clean willTopic willMsg willFlags
| .discon => emcuteDiscon s env
| .reg topic name => emcuteReg s env topic name
| .pub topic data flags => emcutePub s env topic data flags
| .sub subId name flags => emcuteSub s env subId name flags
| .unsub subId name => emcuteUnsub s env subId name
| .willupdTopic topic flags => emcuteWillupdTopic s env topic flags
| .willupdMsg data => emcuteWillupdMsg s env data

end Riot
