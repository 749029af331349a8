import Mathlib.Algebra.Order.Ring.Nat
import Mathlib.Data.List.Basic
import Mathlib.Tactic.Common

/-
  The transport protocol of `isotp.c`: messages of up to 4095
  bytes over frames of up to eight bytes.

  A function that has no result reads through a null pointer.
  Stores behind the end of a buffer are left out.
-/

----
-- Frames and Channels
----

namespace Riot

structure CanFrame where
  canId : Nat
  canDlc : Nat
  data : List UInt8
deriving DecidableEq, Repr

def canMaxDlen : Nat := 8

def CanFrame.byte
    (frame : CanFrame) (i : Nat) : UInt8 :=
  frame.data.getD i 0

/- The bytes of a frame from `i` up to `j`. -/
def CanFrame.bytes
    (frame : CanFrame) (i j : Nat) : List UInt8 :=
  (List.range' i (j - i)).map frame.byte

inductive IsotpState where
  | idle
  | waitFc
  | waitCf
  | sendingSf
  | sendingFf
  | sendingCf
  | sendingFc
  | sendingNextCf
deriving DecidableEq, Repr

/- A snip of the packet buffer, with the number it was given. -/
structure IsotpSnip where
  id : Nat
  data : List UInt8
deriving DecidableEq, Repr

def IsotpSnip.size
    (snip : IsotpSnip) : Nat :=
  snip.data.length

/- The `n` bytes of a snip from `idx` on. -/
def IsotpSnip.bytes
    (snip : IsotpSnip) (idx n : Nat) : List UInt8 :=
  (List.range' idx n).map (fun i => snip.data.getD i 0)

structure IsotpFcOptions where
  bs : UInt8
  stmin : UInt8
  wftmax : UInt8
deriving DecidableEq, Repr

/-
  The flags for sending are in the upper half of a word, and the
  options have only the lower half.
-/
structure IsotpOptions where
  txId : Nat
  rxId : Nat
  listenMode : Bool
  extendAddr : Bool
  txPadding : Bool
  extAddress : UInt8
  txpadContent : UInt8
  rxExtAddress : UInt8
deriving DecidableEq, Repr

structure Tpcon where
  idx : Nat
  state : IsotpState
  bs : Nat
  sn : Nat
  txHandle : Int
  snip : Option IsotpSnip
deriving DecidableEq, Repr

/- What the upper layer is told of a transmission. -/
inductive IsotpReport where
  | txConfirmation
  | txError
deriving DecidableEq, Repr

structure Isotp where
  opt : IsotpOptions
  rxfc : IsotpFcOptions
  txfc : IsotpFcOptions
  tx : Tpcon
  rx : Tpcon
  -- the offsets the timers were set to, while they are armed
  txTimer : Option Nat
  rxTimer : Option Nat
  txGap : Nat
  txWft : Nat
  -- the number of the next snip, and the released snips
  nextSnip : Nat
  released : List Nat
  -- what the upper layer and the data link layer were given
  handed : List IsotpSnip
  reports : List IsotpReport
  frames : List (Int × CanFrame)
deriving DecidableEq, Repr

/- How the calls that leave the module end. -/
structure IsotpEnv where
  pktbufAdd : Bool
  -- a handle, or a negative error
  rawCanSend : Int
  allocRxData : Bool
  sendMsg : Bool
deriving DecidableEq, Repr

def maxMsgLength : Nat := 4095

def canIsotpTimeoutNAs : Nat := 1000000

def canIsotpTimeoutNBs : Nat := 1000000

def canIsotpTimeoutNAr : Nat := 1000000

def canIsotpTimeoutNCr : Nat := 1000000

def nPciSf : UInt8 := 0x00

def nPciFf : UInt8 := 0x10

def nPciCf : UInt8 := 0x20

def nPciFc : UInt8 := 0x30

def nPciSz : Nat := 1

def sfPciSz : Nat := 1

def ffPciSz : Nat := 2

def fcContentSz : Nat := 3

def isotpFcCts : UInt8 := 0

def isotpFcWt : UInt8 := 1

def isotpFcOvflw : UInt8 := 2

/- The number of address bytes in front of each frame. -/
def IsotpOptions.ae
    (opt : IsotpOptions) : Nat :=
  if opt.extendAddr then 1 else 0

----
-- Buffers
----

/- Store bytes one after the other, from `idx` on. -/
def storeBytes : List UInt8 → Nat → List UInt8 → List UInt8
| buf, _, [] => buf
| buf, idx, b :: bytes => storeBytes (buf.set idx b) (idx + 1) bytes

/- The content of a new snip is not specified. -/
def Isotp.pktbufAdd
    (s : Isotp) (len : Nat) : IsotpSnip × Isotp :=
  (⟨s.nextSnip, List.replicate len 0⟩, { s with nextSnip := s.nextSnip + 1 })

/- Releasing a null pointer does nothing. -/
def Isotp.pktbufRelease
    (s : Isotp) (snip : Option IsotpSnip) : Isotp :=
  match snip with
  | none => s
  | some snip => { s with released := snip.id :: s.released }

----
-- Dispatching
----

/- The snip stays with the channel if there is no memory. -/
def isotpDispatchRx
    (env : IsotpEnv) (s : Isotp) (snip : IsotpSnip) : Isotp :=
  if env.allocRxData = false then
    s
  else if env.sendMsg = false then
    let s := s.pktbufRelease (some snip)
    { s with rx := { s.rx with snip := none } }
  else
    { s with handed := s.handed ++ [snip], rx := { s.rx with snip := none } }

def isotpDispatchTx
    (env : IsotpEnv) (s : Isotp) (report : IsotpReport) : Isotp :=
  let s := s.pktbufRelease s.tx.snip
  { s with
    tx := { s.tx with snip := none }
    reports :=
      if env.sendMsg then s.reports ++ [report]
      else s.reports }

----
-- Receiving
----

def isotpSendFc
    (env : IsotpEnv) (s : Isotp) (status : UInt8) : Isotp :=
  let ae := s.opt.ae
  let data :=
    if s.opt.txPadding then
      List.replicate canMaxDlen s.opt.txpadContent
    else
      List.replicate canMaxDlen 0
  let data := data.set ae (nPciFc ||| status)
  let data := data.set (ae + 1) s.rxfc.bs
  let data := data.set (ae + 2) s.rxfc.stmin
  let data :=
    if s.opt.extendAddr then data.set 0 s.opt.extAddress
    else data
  let fc : CanFrame :=
    { canId := s.opt.txId
      canDlc :=
        if s.opt.txPadding then canMaxDlen
        else ae + fcContentSz
      data := data }
  if 0 ≤ env.rawCanSend then
    { s with
      rx := { s.rx with bs := 0, txHandle := env.rawCanSend }
      rxTimer := some canIsotpTimeoutNAr
      frames := s.frames ++ [(env.rawCanSend, fc)] }
  else
    { s with
      rx :=
        { s.rx with bs := 0, txHandle := env.rawCanSend, state := .idle }
      rxTimer := none }

/- According to ISO15765-2 8.5.5.6. -/
def stminOf
    (stmin : UInt8) : UInt8 :=
  if 0x7f < stmin ∧ (stmin < 0xf1 ∨ 0xf9 < stmin) then
    0x7f
  else
    stmin

/- In microseconds. -/
def txGapOf
    (stmin : UInt8) : Nat :=
  if stmin < 0x80 then
    stmin.toNat * 1000
  else
    (stmin.toNat - 0xf0) * 100

/- A frame that is too short ends the transmission silently. -/
def isotpRcvFc
    (env : IsotpEnv) (s : Isotp) (frame : CanFrame) : Isotp :=
  let ae := s.opt.ae
  if s.tx.state ≠ .waitFc then
    s
  else if frame.canDlc < ae + fcContentSz then
    { s with txTimer := none, tx := { s.tx with state := .idle } }
  else
    let stmin := stminOf (frame.byte (ae + 2))
    let s :=
      { s with
        txTimer := none
        txfc :=
          { s.txfc with bs := frame.byte (ae + 1), stmin := stmin }
        txGap := txGapOf stmin }
    let status := frame.byte ae &&& 0x0f
    if status = isotpFcCts then
      { s with
        txWft := 0
        tx := { s.tx with bs := 0, state := .sendingNextCf }
        txTimer := some s.txGap }
    else if status = isotpFcWt then
      let wft := s.txWft
      let s := { s with txWft := (wft + 1) % 2 ^ 8 }
      if s.txfc.wftmax.toNat ≤ wft then
        isotpDispatchTx env
          { s with tx := { s.tx with state := .idle } } .txError
      else
        { s with txTimer := some canIsotpTimeoutNBs }
    else
      isotpDispatchTx env
        { s with tx := { s.tx with state := .idle } } .txError

/- A snip that is there already is not released. -/
def isotpRcvSf
    (env : IsotpEnv) (s : Isotp) (frame : CanFrame) : Isotp :=
  let ae := s.opt.ae
  let s :=
    { s with rxTimer := none, rx := { s.rx with state := .idle } }
  let len := (frame.byte ae &&& 0x0f).toNat
  if frame.canDlc < len + (sfPciSz + ae) then
    s
  else if env.pktbufAdd = false then
    s
  else
    let (snip, s) := s.pktbufAdd len
    let bytes := frame.bytes (sfPciSz + ae) (len + ae + sfPciSz)
    let snip := { snip with data := storeBytes snip.data 0 bytes }
    let s :=
      { s with rx := { s.rx with idx := len, snip := some snip } }
    isotpDispatchRx env s snip

def isotpOverflow
    (env : IsotpEnv) (s : Isotp) : Isotp :=
  if s.opt.listenMode then s
  else isotpSendFc env s isotpFcOvflw

/- The released snip stays in place if there is no other. -/
def isotpRcvFf
    (env : IsotpEnv) (s : Isotp) (frame : CanFrame) : Isotp :=
  let ae := s.opt.ae
  let len := (frame.byte ae &&& 0x0f).toNat <<< 8 + (frame.byte (ae + 1)).toNat
  let s := { s with rx := { s.rx with state := .idle } }
  let s := s.pktbufRelease s.rx.snip
  if maxMsgLength < len then
    isotpOverflow env s
  else if env.pktbufAdd = false then
    isotpOverflow env s
  else
    let (snip, s) := s.pktbufAdd len
    let bytes := frame.bytes (ae + ffPciSz) frame.canDlc
    let snip := { snip with data := storeBytes snip.data 0 bytes }
    let s :=
      { s with
        rx :=
          { s.rx with idx := bytes.length, snip := some snip, sn := 1 } }
    if s.opt.listenMode then
      { s with rx := { s.rx with state := .waitCf } }
    else
      isotpSendFc env
        { s with rx := { s.rx with state := .sendingFc } }
        isotpFcCts

/- Store the bytes of a frame until the buffer is full. -/
def rcvCfLoop :
    List UInt8 → Nat → List UInt8 → List UInt8 × Nat
| buf, idx, [] => (buf, idx)
| buf, idx, b :: bytes =>
  if buf.length ≤ idx + 1 then
    (buf.set idx b, idx + 1)
  else
    rcvCfLoop (buf.set idx b) (idx + 1) bytes

/- The state stays as it is when flow control is sent. -/
def isotpRcvCf
    (env : IsotpEnv) (s : Isotp) (frame : CanFrame) : Option Isotp :=
  let ae := s.opt.ae
  if s.rx.state ≠ .waitCf then
    some s
  else
    let s := { s with rxTimer := none }
    if (frame.byte ae &&& 0x0f).toNat ≠ s.rx.sn then
      let s := s.pktbufRelease s.rx.snip
      some
        { s with rx := { s.rx with state := .idle, snip := none } }
    else
      match s.rx.snip with
      | none => none
      | some snip =>
        let (data, idx) := rcvCfLoop snip.data s.rx.idx (frame.bytes (ae + nPciSz) frame.canDlc)
        let snip := { snip with data := data }
        let s :=
          { s with
            rx :=
              { s.rx with sn := (s.rx.sn + 1) % 2 ^ 8 % 16, idx := idx, snip := some snip } }
        if snip.size ≤ idx then
          some (isotpDispatchRx env
            { s with rx := { s.rx with state := .idle } } snip)
        else if s.opt.listenMode then
          some s
        else if s.rxfc.bs = 0 then
          some { s with rxTimer := some canIsotpTimeoutNCr }
        else
          let bs := (s.rx.bs + 1) % 2 ^ 8
          let s := { s with rx := { s.rx with bs := bs } }
          if bs < s.rxfc.bs.toNat then
            some { s with rxTimer := some canIsotpTimeoutNCr }
          else
            some (isotpSendFc env s isotpFcCts)

def isotpRcv
    (env : IsotpEnv) (s : Isotp) (frame : CanFrame) : Option Isotp :=
  if s.opt.extendAddr = true ∧
      frame.byte 0 ≠ s.opt.rxExtAddress then
    some s
  else
    let nPciType := frame.byte s.opt.ae &&& 0xf0
    if nPciType = nPciFc then
      some (isotpRcvFc env s frame)
    else if nPciType = nPciSf then
      some (isotpRcvSf env s frame)
    else if nPciType = nPciFf then
      some (isotpRcvFf env s frame)
    else if nPciType = nPciCf then
      isotpRcvCf env s frame
    else
      some s

----
-- Sending
----

def isotpTxSend
    (env : IsotpEnv) (s : Isotp) (frame : CanFrame) : Isotp :=
  let s :=
    { s with txTimer := some canIsotpTimeoutNAs, tx := { s.tx with txHandle := env.rawCanSend } }
  if env.rawCanSend < 0 then
    isotpDispatchTx env
      { s with txTimer := none, tx := { s.tx with state := .idle } } .txError
  else
    { s with frames := s.frames ++ [(env.rawCanSend, frame)] }

/- The first frame, and the index behind what it holds. -/
def isotpCreateFf
    (opt : IsotpOptions) (snip : IsotpSnip) (idx : Nat) : CanFrame × Nat :=
  let ae := opt.ae
  let data : List UInt8 := List.replicate canMaxDlen 0
  let data :=
    if opt.extendAddr then data.set 0 opt.extAddress else data
  let data := data.set ae (UInt8.ofNat (snip.size >>> 8) ||| nPciFf)
  let data := data.set (ae + 1) (UInt8.ofNat snip.size)
  let n := canMaxDlen - (ae + ffPciSz)
  ({ canId := opt.txId
     canDlc := canMaxDlen
     data := storeBytes data (ae + ffPciSz) (snip.bytes idx n) }, idx + n)

/-
  A frame with the next bytes, still without its first byte, and
  the index behind them. The difference has the width of a size.
-/
def isotpFillDataframe
    (opt : IsotpOptions) (snip : IsotpSnip) (idx : Nat) : CanFrame × Nat :=
  let pciLen := nPciSz + opt.ae
  let space := canMaxDlen - pciLen
  let numBytes := min space ((snip.size + 2 ^ 32 - idx) % 2 ^ 32)
  let padded := decide (numBytes < space) && opt.txPadding
  let data :=
    if padded then List.replicate canMaxDlen opt.txpadContent
    else List.replicate canMaxDlen 0
  let data := storeBytes data pciLen (snip.bytes idx numBytes)
  let data :=
    if opt.extendAddr then data.set 0 opt.extAddress else data
  ({ canId := opt.txId
     canDlc := if padded then canMaxDlen else numBytes + pciLen
     data := data }, idx + numBytes)

/- The first byte of a frame, behind the address. -/
def CanFrame.setPci
    (frame : CanFrame) (ae : Nat) (pci : UInt8) : CanFrame :=
  { frame with data := frame.data.set ae pci }

def isotpSendSfFf
    (env : IsotpEnv) (s : Isotp) : Option Isotp :=
  match s.tx.snip with
  | none => none
  | some snip =>
    let ae := s.opt.ae
    if snip.size ≤ canMaxDlen - sfPciSz - ae then
      let (frame, idx) := isotpFillDataframe s.opt snip s.tx.idx
      let frame := frame.setPci ae (nPciSf ||| UInt8.ofNat snip.size)
      some (isotpTxSend env
        { s with tx := { s.tx with idx := idx, state := .sendingSf } }
        frame)
    else
      let (frame, idx) := isotpCreateFf s.opt snip s.tx.idx
      some (isotpTxSend env
        { s with
          tx :=
            { s.tx with idx := idx, sn := 1, state := .sendingFf } }
        frame)

def isotpTxTimeoutTask
    (env : IsotpEnv) (s : Isotp) : Option Isotp :=
  match s.tx.state with
  | .waitFc =>
    some (isotpDispatchTx env
      { s with tx := { s.tx with state := .idle } } .txError)
  | .sendingNextCf =>
    match s.tx.snip with
    | none => none
    | some snip =>
      let ae := s.opt.ae
      let (frame, idx) := isotpFillDataframe s.opt snip s.tx.idx
      let frame := frame.setPci ae (nPciCf ||| UInt8.ofNat s.tx.sn)
      some (isotpTxSend env
        { s with
          tx :=
            { s.tx with
              idx := idx
              sn := (s.tx.sn + 1) % 2 ^ 8 % 16
              bs := (s.tx.bs + 1) % 2 ^ 8
              state := .sendingCf } }
        frame)
  | .sendingCf | .sendingFf | .sendingSf =>
    some (isotpDispatchTx env
      { s with tx := { s.tx with state := .idle } } .txError)
  | _ => some s

def isotpTxTxConf
    (env : IsotpEnv) (s : Isotp) : Option Isotp :=
  let s :=
    { s with txTimer := none, tx := { s.tx with txHandle := 0 } }
  match s.tx.state with
  | .sendingSf =>
    some (isotpDispatchTx env
      { s with tx := { s.tx with state := .idle } }
      .txConfirmation)
  | .sendingFf =>
    some
      { s with tx := { s.tx with state := .waitFc }, txTimer := some canIsotpTimeoutNBs }
  | .sendingCf =>
    match s.tx.snip with
    | none => none
    | some snip =>
      if snip.size ≤ s.tx.idx then
        some (isotpDispatchTx env
          { s with tx := { s.tx with state := .idle } }
          .txConfirmation)
      else if s.txfc.bs ≠ 0 ∧
          s.txfc.bs.toNat ≤ s.tx.bs then
        some
          { s with tx := { s.tx with state := .waitFc }, txTimer := some canIsotpTimeoutNBs }
      else
        some
          { s with tx := { s.tx with state := .sendingNextCf }, txTimer := some s.txGap }
  | _ => some s

def isotpRxTimeoutTask
    (s : Isotp) : Isotp :=
  match s.rx.state with
  | .sendingFc | .waitCf =>
    let s := s.pktbufRelease s.rx.snip
    { s with rx := { s.rx with state := .idle, snip := none } }
  | _ => s

/- The timer is set again in one of the states only. -/
def isotpRxTxConf
    (s : Isotp) : Isotp :=
  let s :=
    { s with rxTimer := none, rx := { s.rx with txHandle := 0 } }
  match s.rx.state with
  | .sendingFc =>
    { s with rx := { s.rx with state := .waitCf }, rxTimer := some canIsotpTimeoutNCr }
  | _ => s

/- A confirmation is for one of the two last frames sent. -/
def isotpTxConfirmation
    (env : IsotpEnv) (s : Isotp) (handle : Int) : Option Isotp :=
  if s.tx.txHandle = handle then
    isotpTxTxConf env s
  else if s.rx.txHandle = handle then
    some (isotpRxTxConf s)
  else
    some s

----
-- The Interface
----

inductive IsotpRet where
  | ebusy
  | enomem
  | len
      (n : Nat)
deriving DecidableEq, Repr

/- The state is still idle when the message is on its way. -/
def isotpSend
    (env : IsotpEnv) (s : Isotp) (buf : List UInt8) : IsotpRet × Isotp :=
  if s.tx.state ≠ .idle then
    (.ebusy, s)
  else if env.pktbufAdd = false then
    (.enomem, s)
  else
    let (snip, s) := s.pktbufAdd buf.length
    let snip := { snip with data := buf }
    (.len buf.length,
      { s with tx := { s.tx with idx := 0, snip := some snip }, txWft := 0 })

def Tpcon.zero : Tpcon where
  idx := 0
  state := .idle
  bs := 0
  sn := 0
  txHandle := 0
  snip := none

/- A new channel. -/
def isotpBind
    (opt : IsotpOptions)
    (fcOptions : IsotpFcOptions) : Isotp where
  opt := opt
  rxfc := { fcOptions with wftmax := 0 }
  txfc := ⟨0, 0, fcOptions.wftmax⟩
  tx := .zero
  rx := .zero
  txTimer := none
  rxTimer := none
  txGap := 0
  txWft := 0
  nextSnip := 0
  released := []
  handed := []
  reports := []
  frames := []

def isotpRelease
    (s : Isotp) : Isotp :=
  let s := s.pktbufRelease s.rx.snip
  let s := s.pktbufRelease s.tx.snip
  { s with
    rxTimer := none
    txTimer := none
    rx := { s.rx with snip := none, state := .idle }
    tx := { s.tx with snip := none, state := .idle } }

end Riot
