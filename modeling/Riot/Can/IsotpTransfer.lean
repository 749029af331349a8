import Riot.Can.IsotpFrames
import Riot.Can.IsotpRuns

/-
  A message is sent from one channel to another.

  Frames are neither lost nor reordered, calls succeed, and the
  only timer that expires is the one for the gap between
  consecutive frames. A channel handles its confirmations before
  the frames of its peer. Confirmations, frames and the timer
  come in any order otherwise.
-/

----
-- The System
----

namespace Riot

/-
  The sender and the receiver, whether the call of `isotp_send`
  was not seen yet, the frames on the way to each side, and the
  frames of each side that were not confirmed yet.
-/
structure IsotpLink where
  snd : Isotp
  rcv : Isotp
  sendFrame : Bool
  toRcv : List CanFrame
  toSnd : List CanFrame
  sndConf : List Int
  rcvConf : List Int

/- The number is the handle of a frame that is sent. -/
inductive LinkEvent where
  | sendFrame
      (handle : Int)
  | sndConf
  | rcvConf
  | sndFrame
      (handle : Int)
  | rcvFrame
      (handle : Int)
  | sndGap
      (handle : Int)

def LinkEvent.Possible
    (l : IsotpLink) : LinkEvent → Prop
| .sendFrame handle => l.sendFrame = true ∧ 0 < handle
| .sndConf => l.sndConf ≠ []
| .rcvConf => l.rcvConf ≠ []
| .sndFrame handle => l.toSnd ≠ [] ∧ l.sndConf = [] ∧ 0 < handle
| .rcvFrame handle => l.toRcv ≠ [] ∧ l.rcvConf = [] ∧ 0 < handle
| .sndGap handle => l.snd.tx.state = .sendingNextCf ∧ l.snd.txTimer ≠ none ∧ 0 < handle

/- What the sender gave to the data link layer is on its way. -/
def IsotpLink.withSnd
    (l : IsotpLink) (s : Isotp) : IsotpLink :=
  { l with
    snd := { s with frames := [] }
    toRcv := l.toRcv ++ s.frames.map Prod.snd
    sndConf := l.sndConf ++ s.frames.map Prod.fst }

def IsotpLink.withRcv
    (l : IsotpLink) (t : Isotp) : IsotpLink :=
  { l with
    rcv := { t with frames := [] }
    toSnd := l.toSnd ++ t.frames.map Prod.snd
    rcvConf := l.rcvConf ++ t.frames.map Prod.fst }

/- A frame reaches the channel that subscribed to its number. -/
def isotpFiltered
    (env : IsotpEnv) (s : Isotp) (frame : CanFrame) : Option Isotp :=
  if frame.canId = s.opt.rxId then
    isotpRcv env s frame
  else
    some s

def IsotpLink.exec
    (l : IsotpLink) : LinkEvent → Option IsotpLink
| .sendFrame handle =>
  (isotpSendSfFf (.good handle) l.snd).map (fun s => { l with sendFrame := false }.withSnd s)
| .sndConf =>
  match l.sndConf with
  | [] => none
  | handle :: rest =>
    (isotpTxConfirmation (.good 1) l.snd handle).map (fun s => { l with sndConf := rest }.withSnd s)
| .rcvConf =>
  match l.rcvConf with
  | [] => none
  | handle :: rest =>
    (isotpTxConfirmation (.good 1) l.rcv handle).map (fun t => { l with rcvConf := rest }.withRcv t)
| .sndFrame handle =>
  match l.toSnd with
  | [] => none
  | frame :: rest =>
    (isotpFiltered (.good handle) l.snd frame).map (fun s => { l with toSnd := rest }.withSnd s)
| .rcvFrame handle =>
  match l.toRcv with
  | [] => none
  | frame :: rest =>
    (isotpFiltered (.good handle) l.rcv frame).map (fun t => { l with toRcv := rest }.withRcv t)
| .sndGap handle =>
  (isotpTxTimeoutTask (.good handle) (l.snd.txExpired false)).map (fun s => l.withSnd s)

/- The state when `isotp_send` returns. -/
def linkStart
    (a b : Isotp)
    (m : List UInt8) : IsotpLink where
  snd := (isotpSend (.good 1) a m).2
  rcv := b
  sendFrame := true
  toRcv := []
  toSnd := []
  sndConf := []
  rcvConf := []

def transferSystem
    (a b : Isotp)
    (m : List UInt8) : System IsotpLink LinkEvent where
  Start := fun l => l = linkStart a b m
  Enabled := fun l e => e.Possible l
  exec := IsotpLink.exec

/-
  Two idle channels with the same addressing, and a message that
  can be sent. A receiver in listen mode sends no flow control.
-/
structure Paired
    (a b : Isotp)
    (m : List UInt8) : Prop where
  sndTx : a.tx.state = .idle
  sndRx : a.rx.state = .idle
  rcvTx : b.tx.state = .idle
  rcvRx : b.rx.state = .idle
  rcvHandle : b.tx.txHandle = 0
  sndFrames : a.frames = []
  rcvFrames : b.frames = []
  toRcv : a.opt.txId = b.opt.rxId
  toSnd : b.opt.txId = a.opt.rxId
  extend : b.opt.extendAddr = a.opt.extendAddr
  address :
    a.opt.extendAddr = true →
      a.opt.extAddress = b.opt.rxExtAddress ∧ b.opt.extAddress = a.opt.rxExtAddress
  listen : b.opt.listenMode = false
  nonempty : 0 < m.length
  short : m.length ≤ maxMsgLength

/- The receiver got the message once, and both are idle. -/
structure Delivered
    (b : Isotp) (m : List UInt8)
    (l : IsotpLink) : Prop where
  handed : ∃ id, l.rcv.handed = b.handed ++ [⟨id, m⟩]
  sndTx : l.snd.tx.state = .idle
  sndRx : l.snd.rx.state = .idle
  rcvTx : l.rcv.tx.state = .idle
  rcvRx : l.rcv.rx.state = .idle

theorem Paired.ae
    {a b : Isotp} {m : List UInt8} (h : Paired a b m) :
    b.opt.ae = a.opt.ae := by
  unfold IsotpOptions.ae
  rw [h.extend]

----
-- The Sender
----

def sentSnip
    (a : Isotp) (m : List UInt8) : IsotpSnip :=
  ⟨a.nextSnip, m⟩

/- The sender sent the first frame and `j` consecutive ones. -/
structure SndAt
    (a : Isotp) (m : List UInt8) (j : Nat)
    (s : Isotp) : Prop where
  opt : s.opt = a.opt
  rx : s.rx.state = .idle
  frames : s.frames = []
  snip : s.tx.snip = some (sentSnip a m)
  idx : s.tx.idx = sentBytes a.opt m.length j
  sn : s.tx.sn = (j + 1) % 16

structure SndDone
    (a : Isotp) (m : List UInt8)
    (s : Isotp) : Prop where
  opt : s.opt = a.opt
  tx : s.tx.state = .idle
  rx : s.rx.state = .idle
  frames : s.frames = []
  idx : s.tx.idx = m.length

section

variable {a b s : Isotp} {m : List UInt8} {j : Nat} {h : Int}

theorem Paired.size_le
    (hPaired : Paired a b m) :
    (sentSnip a m).size ≤ maxMsgLength :=
  hPaired.short

theorem isotpSend_start
    (hPaired : Paired a b m) :
    (isotpSend (.good 1) a m).2 = { a with
        nextSnip := a.nextSnip + 1
        tx := { a.tx with idx := 0, snip := some (sentSnip a m) }
        txWft := 0 } := by
  unfold isotpSend
  rw [if_neg (by simp [hPaired.sndTx])]
  rfl

/- The frame is given to the data link layer. -/
theorem isotpTxSend_good
    {frame : CanFrame} (hPos : 0 < h) :
    isotpTxSend (.good h) s frame = { s with
        txTimer := some canIsotpTimeoutNAs
        tx := { s.tx with txHandle := h }
        frames := s.frames ++ [(h, frame)] } := by
  have hNeg : ¬ h < 0 := by
    omega
  unfold isotpTxSend IsotpEnv.good
  dsimp only
  rw [if_neg hNeg]

/- A message that fits is sent in one frame. -/
theorem isotpSendSfFf_single
    (hPaired : Paired a b m) (hShort : m.length ≤ 7 - a.opt.ae) (hPos : 0 < h) :
    ∃ s' sf filler n, isotpSendSfFf (.good h) (isotpSend (.good 1) a m).2 = some s' ∧
        s'.frames = [(h, sf)] ∧ sf.Holds a.opt (nPciSf ||| UInt8.ofNat m.length) (m ++ filler) ∧
        sf.canDlc = a.opt.ae + 1 + (m.length + n) ∧ n ≤ filler.length ∧ s'.opt = a.opt ∧
        s'.rx.state = .idle ∧ s'.tx.state = .sendingSf ∧ s'.tx.txHandle = h ∧
        s'.tx.idx = m.length := by
  rcases @isotpFillDataframe_holds a.opt (sentSnip a m) 0
    (nPciSf ||| UInt8.ofNat m.length) (Nat.zero_le _)
    hPaired.short with
    ⟨chunk, filler, n, hHolds, hLen, hChunk, hDlc, hFill, _⟩
  have hAll : chunkLen a.opt (sentSnip a m) 0 = m.length := by
    unfold chunkLen
    exact Nat.min_eq_right hShort
  have hMsg : chunk = m := by
    rw [hChunk, hLen, hAll]
    exact List.take_length
  rw [hMsg] at hHolds hDlc
  have hRun : isotpSendSfFf (.good h) (isotpSend (.good 1) a m).2 = some (isotpTxSend (.good h)
          { a with
            nextSnip := a.nextSnip + 1
            tx := { a.tx with
                idx := (isotpFillDataframe a.opt (sentSnip a m) 0).2
                snip := some (sentSnip a m)
                state := .sendingSf }
            txWft := 0 }
          ((isotpFillDataframe a.opt (sentSnip a m) 0).1.setPci
            a.opt.ae (nPciSf ||| UInt8.ofNat m.length))) := by
    rw [isotpSend_start hPaired]
    unfold isotpSendSfFf
    dsimp only
    rw [if_pos (by
      show m.length ≤ 8 - 1 - a.opt.ae
      omega)]
    rfl
  rw [isotpTxSend_good hPos, hPaired.sndFrames] at hRun
  refine ⟨_, _, filler, n, hRun, rfl, hHolds, hDlc, hFill, rfl, hPaired.sndRx, rfl, rfl, ?_⟩
  dsimp only
  rw [isotpFillDataframe_idx (Nat.zero_le _) hPaired.size_le, hAll, Nat.zero_add]

/- A longer message starts with a first frame. -/
theorem isotpSendSfFf_first
    (hPaired : Paired a b m) (hLong : 7 - a.opt.ae < m.length) (hPos : 0 < h) :
    ∃ s', isotpSendSfFf (.good h) (isotpSend (.good 1) a m).2 = some s' ∧
        s'.frames = [(h, ffFrame a.opt (sentSnip a m))] ∧ SndAt a m 0 { s' with frames := [] } ∧
        s'.tx.state = .sendingFf ∧ s'.tx.txHandle = h := by
  have hRun : isotpSendSfFf (.good h) (isotpSend (.good 1) a m).2 = some (isotpTxSend (.good h)
          { a with
            nextSnip := a.nextSnip + 1
            tx := { a.tx with
                idx := (isotpCreateFf a.opt (sentSnip a m) 0).2
                snip := some (sentSnip a m)
                sn := 1
                state := .sendingFf }
            txWft := 0 }
          (ffFrame a.opt (sentSnip a m))) := by
    rw [isotpSend_start hPaired]
    unfold isotpSendSfFf
    dsimp only
    rw [if_neg (by
      show ¬ m.length ≤ 8 - 1 - a.opt.ae
      omega)]
    rfl
  rw [isotpTxSend_good hPos, hPaired.sndFrames] at hRun
  refine ⟨_, hRun, rfl, ⟨rfl, hPaired.sndRx, rfl, rfl, ?_, rfl⟩, rfl, rfl⟩
  dsimp only
  rw [isotpCreateFf_idx, (sentBytes_zero hLong).1]

/- The next consecutive frame is sent when the gap is over. -/
theorem isotpTxTimeoutTask_gap
    (hPaired : Paired a b m) (hAt : SndAt a m j s)
    (hState : s.tx.state = .sendingNextCf) (hPos : 0 < h) :
    ∃ s', isotpTxTimeoutTask (.good h) (s.txExpired false) = some s' ∧
        s'.frames = [(h, cfFrame a.opt (sentSnip a m) j)] ∧
        SndAt a m (j + 1) { s' with frames := [] } ∧
        s'.tx.state = .sendingCf ∧ s'.tx.txHandle = h ∧ s'.tx.bs = (s.tx.bs + 1) % 2 ^ 8 ∧
        s'.txfc = s.txfc := by
  have hRun : isotpTxTimeoutTask (.good h) (s.txExpired false) = some (isotpTxSend (.good h)
          { s with
            txTimer := none
            tx := { s.tx with
                idx := (isotpFillDataframe s.opt (sentSnip a m) s.tx.idx).2
                sn := (s.tx.sn + 1) % 2 ^ 8 % 16
                bs := (s.tx.bs + 1) % 2 ^ 8
                state := .sendingCf } }
          ((isotpFillDataframe s.opt (sentSnip a m)
            s.tx.idx).1.setPci s.opt.ae (nPciCf ||| UInt8.ofNat s.tx.sn))) := by
    unfold isotpTxTimeoutTask Isotp.txExpired
    rw [if_neg (by simp)]
    dsimp only
    rw [hState, hAt.snip]
  rw [isotpTxSend_good hPos, hAt.frames] at hRun
  refine ⟨_, hRun, ?_, ⟨hAt.opt, hAt.rx, rfl, hAt.snip, ?_, ?_⟩, rfl, rfl, rfl, rfl⟩
  · dsimp only
    rw [hAt.opt, hAt.idx, hAt.sn]
    rfl
  · dsimp only
    rw [hAt.opt, hAt.idx]
    have hLe : sentBytes a.opt (sentSnip a m).size j ≤ (sentSnip a m).size := sentBytes_le _ _
    exact (isotpFillDataframe_idx hLe hPaired.size_le).trans (sentBytes_succ j)
  · dsimp only
    rw [hAt.sn]
    omega

theorem isotpTxTxConf_single
    {env : IsotpEnv} (hState : s.tx.state = .sendingSf) :
    ∃ s', isotpTxTxConf env s = some s' ∧ s'.opt = s.opt ∧ s'.tx.state = .idle ∧ s'.rx = s.rx ∧
        s'.frames = s.frames ∧ s'.tx.idx = s.tx.idx := by
  have hRun : isotpTxTxConf env s = some (isotpDispatchTx env
          { s with txTimer := none, tx := { s.tx with txHandle := 0, state := .idle } }
          .txConfirmation) := by
    unfold isotpTxTxConf
    dsimp only
    rw [hState]
  refine ⟨_, hRun, ?_⟩
  unfold isotpDispatchTx
  rw [snipRelease_eq]
  exact ⟨rfl, rfl, rfl, rfl, rfl⟩

theorem isotpTxTxConf_first
    {env : IsotpEnv} (hAt : SndAt a m j s) (hState : s.tx.state = .sendingFf) :
    ∃ s', isotpTxTxConf env s = some s' ∧ SndAt a m j s' ∧ s'.tx.state = .waitFc := by
  have hRun : isotpTxTxConf env s = some
          { s with
            txTimer := some canIsotpTimeoutNBs
            tx := { s.tx with txHandle := 0, state := .waitFc } } := by
    unfold isotpTxTxConf
    dsimp only
    rw [hState]
  exact ⟨_, hRun, ⟨hAt.opt, hAt.rx, hAt.frames, hAt.snip, hAt.idx, hAt.sn⟩, rfl⟩

section

variable (hAt : SndAt a m j s) (hState : s.tx.state = .sendingCf)

include hAt hState

/- The last frame of the message is confirmed. -/
theorem isotpTxTxConf_last
    {env : IsotpEnv} (hEnd : sentBytes a.opt m.length j = m.length) :
    ∃ s', isotpTxTxConf env s = some s' ∧ SndDone a m s' := by
  have hRun : isotpTxTxConf env s = some (isotpDispatchTx env
          { s with txTimer := none, tx := { s.tx with txHandle := 0, state := .idle } }
          .txConfirmation) := by
    unfold isotpTxTxConf
    dsimp only
    rw [hState, hAt.snip]
    dsimp only
    rw [if_pos (by
      rw [hAt.idx, hEnd]
      exact Nat.le_refl _)]
  refine ⟨_, hRun, ?_⟩
  unfold isotpDispatchTx
  rw [snipRelease_eq]
  exact ⟨hAt.opt, rfl, hAt.rx, hAt.frames, hAt.idx.trans hEnd⟩

/- The last frame of a block is confirmed. -/
theorem isotpTxTxConf_wait
    {env : IsotpEnv} (hMore : sentBytes a.opt m.length j < m.length)
    (hBlock : s.txfc.bs ≠ 0 ∧ s.txfc.bs.toNat ≤ s.tx.bs) :
    ∃ s', isotpTxTxConf env s = some s' ∧ SndAt a m j s' ∧ s'.tx.state = .waitFc ∧
        s'.tx.bs = s.tx.bs ∧ s'.txfc = s.txfc := by
  have hRun : isotpTxTxConf env s = some
          { s with
            txTimer := some canIsotpTimeoutNBs
            tx := { s.tx with txHandle := 0, state := .waitFc } } := by
    unfold isotpTxTxConf
    dsimp only
    rw [hState, hAt.snip]
    dsimp only
    rw [if_neg (by
      rw [hAt.idx]
      exact Nat.not_le.mpr hMore), if_pos hBlock]
  exact ⟨_, hRun, ⟨hAt.opt, hAt.rx, hAt.frames, hAt.snip, hAt.idx, hAt.sn⟩, rfl, rfl, rfl⟩

/- A frame in the middle of a block is confirmed. -/
theorem isotpTxTxConf_next
    {env : IsotpEnv} (hMore : sentBytes a.opt m.length j < m.length)
    (hBlock : ¬ (s.txfc.bs ≠ 0 ∧ s.txfc.bs.toNat ≤ s.tx.bs)) :
    ∃ s', isotpTxTxConf env s = some s' ∧ SndAt a m j s' ∧ s'.tx.state = .sendingNextCf ∧
        s'.txTimer ≠ none ∧ s'.tx.bs = s.tx.bs ∧ s'.txfc = s.txfc := by
  have hRun : isotpTxTxConf env s = some
          { s with
            txTimer := some s.txGap
            tx := { s.tx with
                txHandle := 0
                state := .sendingNextCf } } := by
    unfold isotpTxTxConf
    dsimp only
    rw [hState, hAt.snip]
    dsimp only
    rw [if_neg (by
      rw [hAt.idx]
      exact Nat.not_le.mpr hMore), if_neg hBlock]
  refine ⟨_, hRun, ⟨hAt.opt, hAt.rx, hAt.frames, hAt.snip, hAt.idx, hAt.sn⟩, rfl, ?_, rfl, rfl⟩
  intro hNone
  cases hNone

end

end

----
-- Flow Control
----

/- A frame from one channel is for the other. -/
theorem isotpRcv_accepted
    {env : IsotpEnv} {t : Isotp} {opt : IsotpOptions} {frame : CanFrame} {pci : UInt8}
    {rest : List UInt8} (hHolds : frame.Holds opt pci rest)
    (hExtend : t.opt.extendAddr = opt.extendAddr)
    (hAddress : opt.extendAddr = true → opt.extAddress = t.opt.rxExtAddress) :
    isotpRcv env t frame = if pci &&& 0xf0 = nPciFc then some (isotpRcvFc env t frame)
      else if pci &&& 0xf0 = nPciSf then some (isotpRcvSf env t frame)
      else if pci &&& 0xf0 = nPciFf then some (isotpRcvFf env t frame)
      else if pci &&& 0xf0 = nPciCf then isotpRcvCf env t frame
      else some t := by
  have hAe : t.opt.ae = opt.ae := by
    unfold IsotpOptions.ae
    rw [hExtend]
  unfold isotpRcv
  rw [if_neg]
  · dsimp only
    rw [hAe, hHolds.byte_pci]
  · rintro ⟨hExt, hNe⟩
    rw [hExtend] at hExt
    apply hNe
    rw [hHolds.byte_address hExt, hAddress hExt]

/- The frame clears the sender to send a block. -/
def IsFc
    (b : Isotp) (fc : CanFrame) : Prop :=
  ∃ filler,
    fc.Holds b.opt (nPciFc ||| isotpFcCts)
        (b.rxfc.bs :: b.rxfc.stmin :: filler) ∧ b.opt.ae + 3 ≤ fc.canDlc

/- The sender goes on with the block size of the receiver. -/
theorem isotpFiltered_fc
    {a b s : Isotp} {m : List UInt8} {j : Nat} {env : IsotpEnv} {fc : CanFrame}
    (hPaired : Paired a b m) (hAt : SndAt a m j s) (hState : s.tx.state = .waitFc)
    (hFc : IsFc b fc) :
    ∃ s', isotpFiltered env s fc = some s' ∧ SndAt a m j s' ∧ s'.tx.state = .sendingNextCf ∧
        s'.txTimer ≠ none ∧ s'.tx.bs = 0 ∧ s'.txfc.bs = b.rxfc.bs := by
  rcases hFc with ⟨filler, hHolds, hDlc⟩
  have hAe : s.opt.ae = b.opt.ae := by
    rw [hAt.opt, hPaired.ae]
  have hType : (nPciFc ||| isotpFcCts) &&& 0xf0 = nPciFc := by
    decide
  have hStatus : (nPciFc ||| isotpFcCts) &&& 0x0f = isotpFcCts := by
    decide
  have hRcv : isotpRcv env s fc = some (isotpRcvFc env s fc) := by
    rw [isotpRcv_accepted hHolds (by rw [hAt.opt, hPaired.extend]) (by
        intro hExt
        rw [hPaired.extend] at hExt
        rw [hAt.opt]
        exact (hPaired.address hExt).2), if_pos hType]
  have hRun : isotpRcvFc env s fc = { s with
          txfc := { s.txfc with bs := b.rxfc.bs, stmin := stminOf b.rxfc.stmin }
          txGap := txGapOf (stminOf b.rxfc.stmin)
          txWft := 0
          tx := { s.tx with bs := 0, state := .sendingNextCf }
          txTimer := some (txGapOf (stminOf b.rxfc.stmin)) } := by
    have hLong : ¬ fc.canDlc < b.opt.ae + fcContentSz := Nat.not_lt.mpr hDlc
    have hBs := hHolds.byte_add 1
    have hStmin := hHolds.byte_add 2
    unfold isotpRcvFc
    dsimp only
    rw [if_neg (by simp [hState]), hAe, if_neg hLong, hHolds.byte_pci, if_pos hStatus, hBs, hStmin]
    rfl
  have hFilter : isotpFiltered env s fc = some (isotpRcvFc env s fc) := by
    unfold isotpFiltered
    rw [if_pos (by rw [hHolds.id, hAt.opt, hPaired.toSnd]), hRcv]
  rw [hRun] at hFilter
  refine ⟨_, hFilter, ⟨hAt.opt, hAt.rx, hAt.frames, hAt.snip, hAt.idx, hAt.sn⟩, rfl, ?_, rfl, rfl⟩
  intro hNone
  cases hNone

----
-- The Receiver
----

/- The receiver got the first frame and `k` consecutive ones. -/
structure RcvAt
    (a b : Isotp) (m : List UInt8) (k : Nat)
    (t : Isotp) : Prop where
  opt : t.opt = b.opt
  rxfc : t.rxfc = b.rxfc
  tx : t.tx.state = .idle
  handle : t.tx.txHandle = 0
  frames : t.frames = []
  handed : t.handed = b.handed
  snip :
    ∃ id buf, t.rx.snip = some ⟨id, buf⟩ ∧ buf.length = m.length ∧
        buf.take (sentBytes a.opt m.length k) = m.take (sentBytes a.opt m.length k)
  idx : t.rx.idx = sentBytes a.opt m.length k
  sn : t.rx.sn = (k + 1) % 16

structure RcvDone
    (b : Isotp) (m : List UInt8)
    (t : Isotp) : Prop where
  tx : t.tx.state = .idle
  rx : t.rx.state = .idle
  frames : t.frames = []
  handed : ∃ id, t.handed = b.handed ++ [⟨id, m⟩]

section

variable {a b t : Isotp} {m : List UInt8} {k : Nat} {h : Int}

/- The frames of the sender reach the receiver. -/
theorem isotpFiltered_rcv
    {env : IsotpEnv} {frame : CanFrame} {pci : UInt8} {rest : List UInt8}
    (hPaired : Paired a b m) (hOpt : t.opt = b.opt)
    (hHolds : frame.Holds a.opt pci rest) :
    isotpFiltered env t frame = if pci &&& 0xf0 = nPciFc then some (isotpRcvFc env t frame)
      else if pci &&& 0xf0 = nPciSf then some (isotpRcvSf env t frame)
      else if pci &&& 0xf0 = nPciFf then some (isotpRcvFf env t frame)
      else if pci &&& 0xf0 = nPciCf then isotpRcvCf env t frame
      else some t := by
  unfold isotpFiltered
  rw [if_pos (by rw [hHolds.id, hOpt, hPaired.toRcv])]
  apply isotpRcv_accepted hHolds
  · rw [hOpt, hPaired.extend]
  · intro hExt
    rw [hOpt]
    exact (hPaired.address hExt).1

/- A single frame is handed over at once. -/
theorem isotpFiltered_single
    {sf : CanFrame} {filler : List UInt8} {n : Nat} (hPaired : Paired a b m)
    (hShort : m.length ≤ 7 - a.opt.ae)
    (hHolds : sf.Holds a.opt (nPciSf ||| UInt8.ofNat m.length) (m ++ filler))
    (hDlc : sf.canDlc = a.opt.ae + 1 + (m.length + n)) :
    ∃ t', isotpFiltered (.good h) b sf = some t' ∧ RcvDone b m t' := by
  have hLen : m.length < 16 := by
    omega
  rcases pciSf_spec hLen with ⟨hType, hLow⟩
  have hBytes : sf.bytes (sfPciSz + a.opt.ae) (m.length + a.opt.ae + sfPciSz) = m := by
    have hTake := hHolds.bytes (n := m.length) 0 (by simp)
    rw [List.drop_zero, Nat.sub_zero, List.take_left] at hTake
    unfold sfPciSz
    rw [show 1 + a.opt.ae = a.opt.ae + 1 + 0 by omega,
      show m.length + a.opt.ae + 1 = a.opt.ae + 1 + m.length by
        omega]
    exact hTake
  have hStore : storeBytes (List.replicate m.length 0) 0 m = m := by
    rw [storeBytes_eq (by simp)]
    simp
  have hRun : isotpFiltered (.good h) b sf = some (isotpDispatchRx (.good h) { b with
            rxTimer := none
            nextSnip := b.nextSnip + 1
            rx := { b.rx with state := .idle, idx := m.length, snip := some ⟨b.nextSnip, m⟩ } }
          ⟨b.nextSnip, m⟩) := by
    rw [isotpFiltered_rcv hPaired rfl hHolds, hType, if_neg (by decide), if_pos rfl]
    unfold isotpRcvSf
    dsimp only
    rw [hPaired.ae, hHolds.byte_pci, hLow, if_neg (by rw [hDlc]; unfold sfPciSz; omega),
      if_neg (by simp [IsotpEnv.good])]
    unfold Isotp.pktbufAdd
    dsimp only
    rw [hBytes, hStore]
  refine ⟨_, hRun, ⟨hPaired.rcvTx, rfl, hPaired.rcvFrames, ⟨b.nextSnip, rfl⟩⟩⟩

/- The receiver with the bytes of the first frame. -/
def firstStored
    (a b : Isotp) (m : List UInt8) : Isotp :=
  { b with
    released := (b.pktbufRelease b.rx.snip).released
    nextSnip := b.nextSnip + 1
    rx :=
      { b.rx with
        idx := (m.take (6 - a.opt.ae)).length
        snip := some ⟨b.nextSnip, storeBytes (List.replicate m.length 0) 0 (m.take (6 - a.opt.ae))⟩
        sn := 1
        state := .sendingFc } }

/- The first frame is answered with flow control. -/
theorem isotpFiltered_first
    (hPaired : Paired a b m) (hLong : 7 - a.opt.ae < m.length) (hPos : 0 < h) :
    ∃ t' fc, isotpFiltered (.good h) b (ffFrame a.opt (sentSnip a m)) = some t' ∧
        t'.frames = [(h, fc)] ∧ IsFc b fc ∧ RcvAt a b m 0 { t' with frames := [] } ∧
        t'.rx.state = .sendingFc ∧ t'.rx.txHandle = h ∧ t'.rx.bs = 0 := by
  have hAe := a.opt.ae_le
  have hShort := hPaired.short
  have hHigh : m.length >>> 8 < 16 := by
    unfold maxMsgLength at hShort
    rw [Nat.shiftRight_eq_div_pow]
    omega
  have hDlc : (ffFrame a.opt (sentSnip a m)).canDlc = 8 := rfl
  have hHolds : (ffFrame a.opt (sentSnip a m)).Holds a.opt
        (UInt8.ofNat (m.length >>> 8) ||| nPciFf)
        (UInt8.ofNat m.length :: m.take (6 - a.opt.ae)) :=
    (ffFrame_holds hLong).1
  have hType := (pciFf_spec hHigh).1
  have hBytes :
      (ffFrame a.opt (sentSnip a m)).bytes (a.opt.ae + ffPciSz) 8 = m.take (6 - a.opt.ae) := by
    have hFront := hHolds.bytes (n := 7 - a.opt.ae) 1 (by
      rw [List.length_cons, List.length_take]
      omega)
    rw [List.drop_succ_cons, List.drop_zero] at hFront
    unfold ffPciSz
    rw [show (8 : Nat) = a.opt.ae + 1 + (7 - a.opt.ae) by omega, hFront, List.take_take]
    congr 1
    omega
  have hCount : (m.take (6 - a.opt.ae)).length = 6 - a.opt.ae := by
    rw [List.length_take]
    omega
  have hZero := sentBytes_zero hLong
  have hLow := hHolds.byte_add 1
  have hRun : isotpFiltered (.good h) b
          (ffFrame a.opt (sentSnip a m)) =
        some (isotpSendFc (.good h) (firstStored a b m) isotpFcCts) := by
    rw [isotpFiltered_rcv hPaired rfl hHolds, hType,
      if_neg (by decide), if_neg (by decide), if_pos rfl]
    unfold isotpRcvFf
    dsimp only
    rw [hPaired.ae, hHolds.byte_pci, hLow, hDlc, hBytes]
    have hKeep : Isotp.pktbufRelease
            { b with rx := { b.rx with state := .idle } }
            b.rx.snip =
          { b with
            rx := { b.rx with state := .idle }
            released := (b.pktbufRelease b.rx.snip).released } := by
      cases b.rx.snip with
      | none => rfl
      | some snip => rfl
    rw [hKeep]
    have hSize := ffLen_eq hShort
    simp only [List.getD_cons_succ, List.getD_cons_zero]
    rw [hSize, if_neg (Nat.not_lt.mpr hShort), if_neg (by simp [IsotpEnv.good])]
    unfold Isotp.pktbufAdd
    dsimp only
    rw [hPaired.listen, if_neg (by simp)]
    rfl
  rcases @isotpSendFc_spec (.good h) (firstStored a b m)
    isotpFcCts (by show 0 ≤ h; omega) with
    ⟨fc, filler, hSend, hFc, hFcDlc⟩
  have hFrames : (firstStored a b m).frames = [] := hPaired.rcvFrames
  rw [hSend, hFrames] at hRun
  refine ⟨_, fc, hRun, rfl, ⟨filler, hFc, hFcDlc⟩,
    ⟨rfl, rfl, hPaired.rcvTx, hPaired.rcvHandle, rfl, rfl,
      ⟨_, _, rfl, ?_, ?_⟩, ?_, rfl⟩, rfl, rfl, rfl⟩
  · rw [storeBytes_eq (by
      rw [hCount, List.length_replicate]
      omega)]
    simp
  · rw [storeBytes_eq (by
      rw [hCount, List.length_replicate]
      omega), hZero.1]
    rw [List.take_zero, List.nil_append, List.take_append_of_le_length (by rw [hCount])]
    rw [List.take_take, Nat.min_self]
  · show (m.take (6 - a.opt.ae)).length = _
    rw [hCount, hZero.1]

/- The receiver with the bytes of a consecutive frame. -/
def cfStored
    (t : Isotp) (idx : Nat) (snip : IsotpSnip) : Isotp :=
  { t with
    rxTimer := none
    rx :=
      { t.rx with sn := (t.rx.sn + 1) % 2 ^ 8 % 16, idx := idx, snip := some snip } }

section

variable (hPaired : Paired a b m) (hAt : RcvAt a b m k t) (hState : t.rx.state = .waitCf)

include hPaired hAt hState

/- The bytes of a consecutive frame are stored. -/
theorem isotpFiltered_cf
    (hMore : sentBytes a.opt m.length k < m.length) :
    ∃ id buf, buf.length = m.length ∧
        buf.take (sentBytes a.opt m.length (k + 1)) = m.take (sentBytes a.opt m.length (k + 1)) ∧
        isotpFiltered (.good h) t (cfFrame a.opt (sentSnip a m) k) =
          (let u := cfStored t (sentBytes a.opt m.length (k + 1)) ⟨id, buf⟩
          let bs := (t.rx.bs + 1) % 2 ^ 8
          if m.length ≤ sentBytes a.opt m.length (k + 1) then some (isotpDispatchRx (.good h)
              { u with rx := { u.rx with state := .idle } }
              ⟨id, buf⟩)
          else if b.rxfc.bs = 0 then some { u with rxTimer := some canIsotpTimeoutNCr }
          else if bs < b.rxfc.bs.toNat then some
              { u with rx := { u.rx with bs := bs }, rxTimer := some canIsotpTimeoutNCr }
          else some (isotpSendFc (.good h) { u with rx := { u.rx with bs := bs } }
              isotpFcCts)) := by
  rcases hAt.snip with ⟨id, buf, hSnip, hLen, hDone⟩
  rcases @cfFrame_holds a.opt (sentSnip a m) hPaired.size_le
    k with
    ⟨chunk, filler, n, hHolds, hChunk, hSum, hDlc, hFill, hEnd⟩
  have hSum' : sentBytes a.opt m.length k + chunk.length = sentBytes a.opt m.length (k + 1) := hSum
  have hNum : (k + 1) % 16 < 16 := by
    omega
  rcases pciCf_spec hNum with ⟨hType, hLow⟩
  have hAe : t.opt.ae = a.opt.ae := by
    rw [hAt.opt, hPaired.ae]
  have hBytes : (cfFrame a.opt (sentSnip a m) k).bytes (a.opt.ae + nPciSz)
          (cfFrame a.opt (sentSnip a m) k).canDlc = chunk ++ filler.take n := by
    have hFront := hHolds.bytes (n := chunk.length + n) 0 (by
      rw [List.length_append]
      omega)
    rw [List.drop_zero, Nat.sub_zero, List.take_length_add_append] at hFront
    rw [hDlc]
    exact hFront
  have hPad : filler.take n ≠ [] → sentBytes a.opt m.length k + chunk.length = m.length := by
    intro hNe
    rw [hSum']
    apply hEnd
    rintro rfl
    exact hNe rfl
  rcases rcvCfLoop_spec hLen hDone hChunk hMore hPad with ⟨buf', hLoop, hLen', hDone'⟩
  rw [hSum'] at hLoop hDone'
  refine ⟨id, buf', hLen', hDone', ?_⟩
  rw [isotpFiltered_rcv hPaired hAt.opt hHolds, hType,
    if_neg (by decide), if_neg (by decide), if_neg (by decide), if_pos rfl]
  unfold isotpRcvCf
  dsimp only
  rw [if_neg (by simp [hState]), hAe, hHolds.byte_pci, hLow, if_neg (by simp [hAt.sn]), hSnip]
  dsimp only
  rw [hBytes, hAt.idx, hLoop]
  dsimp only
  unfold IsotpSnip.size cfStored
  dsimp only
  rw [hLen', hAt.opt, hPaired.listen, hAt.rxfc]
  simp only [Bool.false_eq_true, if_false]

/- The last frame completes the message. -/
theorem isotpFiltered_last
    (hMore : sentBytes a.opt m.length k < m.length)
    (hEnd : sentBytes a.opt m.length (k + 1) = m.length) :
    ∃ t',
      isotpFiltered (.good h) t (cfFrame a.opt (sentSnip a m) k) = some t' ∧ RcvDone b m t' := by
  rcases @isotpFiltered_cf a b t m k h hPaired hAt hState hMore with ⟨id, buf, hLen, hDone, hRun⟩
  dsimp only at hRun
  rw [if_pos (Nat.le_of_eq hEnd.symm)] at hRun
  have hAll : buf = m := by
    rw [hEnd, List.take_length] at hDone
    rw [← hLen, List.take_length] at hDone
    exact hDone
  refine ⟨_, hRun, ⟨hAt.tx, rfl, hAt.frames, ⟨id, ?_⟩⟩⟩
  show t.handed ++ [⟨id, buf⟩] = _
  rw [hAll, hAt.handed]

/- The receiver waits for more frames of the block. -/
theorem isotpFiltered_next
    (hMore : sentBytes a.opt m.length (k + 1) < m.length)
    (hBlock : b.rxfc.bs ≠ 0 → t.rx.bs + 1 < b.rxfc.bs.toNat) :
    ∃ t', isotpFiltered (.good h) t
          (cfFrame a.opt (sentSnip a m) k) = some t' ∧ RcvAt a b m (k + 1) t' ∧
        t'.rx.state = .waitCf ∧ (b.rxfc.bs ≠ 0 → t'.rx.bs = t.rx.bs + 1) := by
  have hOld : sentBytes a.opt m.length k < m.length :=
    Nat.lt_of_le_of_lt (sentBytes_mono (Nat.le_succ k)) hMore
  have hSn : (t.rx.sn + 1) % 2 ^ 8 % 16 = (k + 1 + 1) % 16 := by
    rw [hAt.sn]
    omega
  rcases @isotpFiltered_cf a b t m k h hPaired hAt hState hOld with ⟨id, buf, hLen, hDone, hRun⟩
  dsimp only at hRun
  rw [if_neg (Nat.not_le.mpr hMore)] at hRun
  by_cases hBs : b.rxfc.bs = 0
  · rw [if_pos hBs] at hRun
    exact ⟨_, hRun, ⟨hAt.opt, hAt.rxfc, hAt.tx, hAt.handle,
      hAt.frames, hAt.handed, ⟨id, buf, rfl, hLen, hDone⟩, rfl,
      hSn⟩, hState, fun hNe => absurd hBs hNe⟩
  · have hLt := hBlock hBs
    have hByte := b.rxfc.bs.toNat_lt
    have hMod : (t.rx.bs + 1) % 2 ^ 8 = t.rx.bs + 1 := Nat.mod_eq_of_lt (by omega)
    rw [if_neg hBs, hMod, if_pos hLt] at hRun
    exact ⟨_, hRun, ⟨hAt.opt, hAt.rxfc, hAt.tx, hAt.handle,
      hAt.frames, hAt.handed, ⟨id, buf, rfl, hLen, hDone⟩, rfl, hSn⟩, hState, fun _ => rfl⟩

/- The last frame of a block is answered with flow control. -/
theorem isotpFiltered_block
    (hMore : sentBytes a.opt m.length (k + 1) < m.length) (hBs : b.rxfc.bs ≠ 0)
    (hBlock : t.rx.bs + 1 = b.rxfc.bs.toNat) (hPos : 0 < h) :
    ∃ t' fc, isotpFiltered (.good h) t
          (cfFrame a.opt (sentSnip a m) k) = some t' ∧ t'.frames = [(h, fc)] ∧ IsFc b fc ∧
        RcvAt a b m (k + 1) { t' with frames := [] } ∧
        t'.rx.state = .waitCf ∧ t'.rx.txHandle = h ∧ t'.rx.bs = 0 := by
  have hOld : sentBytes a.opt m.length k < m.length :=
    Nat.lt_of_le_of_lt (sentBytes_mono (Nat.le_succ k)) hMore
  have hSn : (t.rx.sn + 1) % 2 ^ 8 % 16 = (k + 1 + 1) % 16 := by
    rw [hAt.sn]
    omega
  have hByte := b.rxfc.bs.toNat_lt
  have hMod : (t.rx.bs + 1) % 2 ^ 8 = t.rx.bs + 1 := Nat.mod_eq_of_lt (by omega)
  rcases @isotpFiltered_cf a b t m k h hPaired hAt hState hOld with ⟨id, buf, hLen, hDone, hRun⟩
  dsimp only at hRun
  rw [if_neg (Nat.not_le.mpr hMore), if_neg hBs, hMod, if_neg (by omega)] at hRun
  rcases @isotpSendFc_spec (.good h)
    { cfStored t (sentBytes a.opt m.length (k + 1))
        ⟨id, buf⟩ with
      rx := { (cfStored t (sentBytes a.opt m.length (k + 1))
            ⟨id, buf⟩).rx with bs := t.rx.bs + 1 } }
    isotpFcCts (by show 0 ≤ h; omega) with
    ⟨fc, filler, hSend, hFc, hFcDlc⟩
  have hFrames : (cfStored t (sentBytes a.opt m.length (k + 1)) ⟨id, buf⟩).frames = [] := hAt.frames
  have hOpt : (cfStored t (sentBytes a.opt m.length (k + 1)) ⟨id, buf⟩).opt = b.opt := hAt.opt
  have hRxfc : (cfStored t (sentBytes a.opt m.length (k + 1)) ⟨id, buf⟩).rxfc = b.rxfc := hAt.rxfc
  rw [hSend, hFrames] at hRun
  rw [hOpt, hRxfc] at hFc
  rw [hOpt] at hFcDlc
  exact ⟨_, fc, hRun, rfl, ⟨filler, hFc, hFcDlc⟩,
    ⟨hAt.opt, hAt.rxfc, hAt.tx, hAt.handle, rfl, hAt.handed,
      ⟨id, buf, rfl, hLen, hDone⟩, rfl, hSn⟩, hState, rfl, rfl⟩

end

/- The confirmation of a flow control frame. -/
theorem isotpTxConfirmation_fc
    {env : IsotpEnv} (hAt : RcvAt a b m k t) (hHandle : 0 < t.rx.txHandle)
    (hState : t.rx.state = .sendingFc ∨ t.rx.state = .waitCf) :
    ∃ t', isotpTxConfirmation env t t.rx.txHandle = some t' ∧ RcvAt a b m k t' ∧
        t'.rx.state = .waitCf ∧ t'.rx.bs = t.rx.bs := by
  have hRun : isotpTxConfirmation env t t.rx.txHandle = some (isotpRxTxConf t) := by
    unfold isotpTxConfirmation
    rw [if_neg (by rw [hAt.handle]; omega), if_pos rfl]
  rcases hState with hFc | hCf
  · have hConf : isotpRxTxConf t = { t with
            rxTimer := some canIsotpTimeoutNCr
            rx := { t.rx with
                txHandle := 0
                state := .waitCf } } := by
      unfold isotpRxTxConf
      dsimp only
      rw [hFc]
    rw [hConf] at hRun
    exact ⟨_, hRun, ⟨hAt.opt, hAt.rxfc, hAt.tx, hAt.handle,
      hAt.frames, hAt.handed, hAt.snip, hAt.idx, hAt.sn⟩, rfl, rfl⟩
  · have hConf : isotpRxTxConf t = { t with
            rxTimer := none
            rx := { t.rx with txHandle := 0 } } := by
      unfold isotpRxTxConf
      dsimp only
      rw [hCf]
    rw [hConf] at hRun
    exact ⟨_, hRun, ⟨hAt.opt, hAt.rxfc, hAt.tx, hAt.handle,
      hAt.frames, hAt.handed, hAt.snip, hAt.idx, hAt.sn⟩, hCf, rfl⟩

end

end Riot
