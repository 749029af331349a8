import Riot.Can.IsotpTransfer

/-
  A message that is sent is received, once and unchanged,
  whatever the order of frames, confirmations and gaps.
-/

namespace Riot

variable {m : List UInt8}

----
-- The Invariant
----

/- A sender that sends nothing before it is cleared to. -/
inductive SndWaits
    (b : Isotp) (s : Isotp)
    (conf : List Int) : Prop
| waiting
    (hState : s.tx.state = .waitFc)
    (hConf : conf = []) :
    SndWaits b s conf
| first
    (hState : s.tx.state = .sendingFf)
    (hConf : conf = [s.tx.txHandle]) :
    SndWaits b s conf
| block
    (hState : s.tx.state = .sendingCf)
    (hConf : conf = [s.tx.txHandle])
    (hFc : s.txfc.bs = b.rxfc.bs)
    (hBs : b.rxfc.bs ≠ 0)
    (hFull : b.rxfc.bs.toNat ≤ s.tx.bs) :
    SndWaits b s conf

/- A sender in a block of which `k` frames were received. -/
inductive SndGoes
    (a b : Isotp) (m : List UInt8) (j k : Nat) (s : Isotp)
    (conf : List Int) : Prop
| next
    (hState : s.tx.state = .sendingNextCf)
    (hTimer : s.txTimer ≠ none)
    (hConf : conf = [])
    (hMore : sentBytes a.opt m.length j < m.length)
    (hRoom : b.rxfc.bs ≠ 0 → s.tx.bs < b.rxfc.bs.toNat) :
    SndGoes a b m j k s conf
| sent
    (hState : s.tx.state = .sendingCf)
    (hConf : conf = [s.tx.txHandle]) :
    SndGoes a b m j k s conf
| waiting
    (hState : s.tx.state = .waitFc)
    (hConf : conf = [])
    (hMore : sentBytes a.opt m.length j < m.length)
    (hBs : b.rxfc.bs ≠ 0)
    (hFull : s.tx.bs = b.rxfc.bs.toNat)
    (hBehind : k < j) :
    SndGoes a b m j k s conf

/- A receiver that waits for consecutive frames. -/
inductive RcvWaits
    (t : Isotp)
    (conf : List Int) : Prop
| confirming
    (hState : t.rx.state = .sendingFc ∨ t.rx.state = .waitCf)
    (hPos : 0 < t.rx.txHandle)
    (hConf : conf = [t.rx.txHandle]) :
    RcvWaits t conf
| waiting
    (hState : t.rx.state = .waitCf)
    (hConf : conf = []) :
    RcvWaits t conf

/- The consecutive frames from number `k` up to `j`. -/
def cfFrames
    (a : Isotp) (m : List UInt8) (k j : Nat) : List CanFrame :=
  (List.range' k (j - k)).map (cfFrame a.opt (sentSnip a m))

/- How the block counters of both sides are related. -/
structure SameBlock
    (b : Isotp) (j k : Nat)
    (s t : Isotp) : Prop where
  fc : s.txfc.bs = b.rxfc.bs
  count : b.rxfc.bs ≠ 0 → s.tx.bs = t.rx.bs + (j - k)
  full : b.rxfc.bs ≠ 0 → s.tx.bs ≤ b.rxfc.bs.toNat
  room : b.rxfc.bs ≠ 0 → t.rx.bs < b.rxfc.bs.toNat

/- A single frame is on its way, or was received. -/
structure SinglePhase
    (a b : Isotp) (m : List UInt8)
    (l : IsotpLink) : Prop where
  send : l.sendFrame = false
  toSnd : l.toSnd = []
  rcvConf : l.rcvConf = []
  short : m.length ≤ 7 - a.opt.ae
  rx : l.snd.rx.state = .idle
  frames : l.snd.frames = []
  idx : l.snd.tx.idx = m.length
  snd :
    (l.snd.tx.state = .sendingSf ∧ l.sndConf = [l.snd.tx.txHandle]) ∨
      (l.snd.tx.state = .idle ∧ l.sndConf = [])
  rcv :
    (l.rcv = b ∧ ∃ sf filler n, l.toRcv = [sf] ∧
            sf.Holds a.opt (nPciSf ||| UInt8.ofNat m.length) (m ++ filler) ∧
            sf.canDlc = a.opt.ae + 1 + (m.length + n)) ∨ (RcvDone b m l.rcv ∧ l.toRcv = [])

/- The first frame is on its way. -/
structure FirstPhase
    (a b : Isotp) (m : List UInt8)
    (l : IsotpLink) : Prop where
  send : l.sendFrame = false
  toSnd : l.toSnd = []
  rcvConf : l.rcvConf = []
  long : 7 - a.opt.ae < m.length
  rcv : l.rcv = b
  toRcv : l.toRcv = [ffFrame a.opt (sentSnip a m)]
  sndAt : SndAt a m 0 l.snd
  snd : SndWaits b l.snd l.sndConf
  first : l.snd.tx.state ≠ .sendingCf

/- Flow control is on its way. -/
structure ClearedPhase
    (a b : Isotp) (m : List UInt8) (j : Nat)
    (l : IsotpLink) : Prop where
  send : l.sendFrame = false
  toSnd : ∃ fc, l.toSnd = [fc] ∧ IsFc b fc
  toRcv : l.toRcv = []
  more : ∀ i, i ≤ j → sentBytes a.opt m.length i < m.length
  sndAt : SndAt a m j l.snd
  snd : SndWaits b l.snd l.sndConf
  rcvAt : RcvAt a b m j l.rcv
  rcv : RcvWaits l.rcv l.rcvConf
  bs : l.rcv.rx.bs = 0

/- Consecutive frames are sent and received. -/
structure SendingPhase
    (a b : Isotp) (m : List UInt8) (j k : Nat)
    (l : IsotpLink) : Prop where
  send : l.sendFrame = false
  toSnd : l.toSnd = []
  le : k ≤ j
  toRcv : l.toRcv = cfFrames a m k j
  more : ∀ i, i < j → sentBytes a.opt m.length i < m.length
  rest : sentBytes a.opt m.length k < m.length
  sndAt : SndAt a m j l.snd
  snd : SndGoes a b m j k l.snd l.sndConf
  rcvAt : RcvAt a b m k l.rcv
  rcv : RcvWaits l.rcv l.rcvConf
  block : SameBlock b j k l.snd l.rcv

/- The sender is done, the receiver is not. -/
structure SentPhase
    (a b : Isotp) (m : List UInt8) (j k : Nat)
    (l : IsotpLink) : Prop where
  send : l.sendFrame = false
  toSnd : l.toSnd = []
  sndConf : l.sndConf = []
  le : k ≤ j
  toRcv : l.toRcv = cfFrames a m k j
  more : ∀ i, i < j → sentBytes a.opt m.length i < m.length
  last : sentBytes a.opt m.length j = m.length
  rest : sentBytes a.opt m.length k < m.length
  snd : SndDone a m l.snd
  rcvAt : RcvAt a b m k l.rcv
  rcv : RcvWaits l.rcv l.rcvConf
  room : b.rxfc.bs ≠ 0 → l.rcv.rx.bs + (j - k) ≤ b.rxfc.bs.toNat

/- The receiver is done, the sender is not. -/
structure ReceivedPhase
    (a b : Isotp) (m : List UInt8) (j : Nat)
    (l : IsotpLink) : Prop where
  send : l.sendFrame = false
  toSnd : l.toSnd = []
  toRcv : l.toRcv = []
  rcvConf : l.rcvConf = []
  last : sentBytes a.opt m.length j = m.length
  sndAt : SndAt a m j l.snd
  state : l.snd.tx.state = .sendingCf
  sndConf : l.sndConf = [l.snd.tx.txHandle]
  rcv : RcvDone b m l.rcv

/- Both sides are done. -/
structure DonePhase
    (a b : Isotp) (m : List UInt8)
    (l : IsotpLink) : Prop where
  send : l.sendFrame = false
  toSnd : l.toSnd = []
  toRcv : l.toRcv = []
  sndConf : l.sndConf = []
  rcvConf : l.rcvConf = []
  snd : SndDone a m l.snd
  rcv : RcvDone b m l.rcv

inductive LinkInv
    (a b : Isotp) (m : List UInt8)
    (l : IsotpLink) : Prop
| start
    (hStart : l = linkStart a b m) :
    LinkInv a b m l
| single
    (hSingle : SinglePhase a b m l) :
    LinkInv a b m l
| first
    (hFirst : FirstPhase a b m l) :
    LinkInv a b m l
| cleared
    (j : Nat)
    (hCleared : ClearedPhase a b m j l) :
    LinkInv a b m l
| sending
    (j k : Nat)
    (hSending : SendingPhase a b m j k l) :
    LinkInv a b m l
| sent
    (j k : Nat)
    (hSent : SentPhase a b m j k l) :
    LinkInv a b m l
| received
    (j : Nat)
    (hReceived : ReceivedPhase a b m j l) :
    LinkInv a b m l
| done
    (hDone : DonePhase a b m l) :
    LinkInv a b m l

/- What is still to be done for a message of `n` bytes. -/
def IsotpLink.work
    (l : IsotpLink) (n : Nat) : Nat :=
  (if l.sendFrame then 5 else 0) + 5 * (n - l.snd.tx.idx) +
    3 * l.toRcv.length + l.toSnd.length + l.sndConf.length + l.rcvConf.length

/- The event happens, and there is less to do after it. -/
def Steps
    (a b : Isotp) (m : List UInt8) (l : IsotpLink) (e : LinkEvent) : Prop :=
  ∃ l', l.exec e = some l' ∧ LinkInv a b m l' ∧ l'.work m.length < l.work m.length

section

variable {l : IsotpLink} {s : Isotp}

theorem withSnd_quiet
    (hFrames : s.frames = []) :
    l.withSnd s = { l with snd := s } := by
  have hSame : { s with frames := [] } = s := by
    rw [← hFrames]
  unfold IsotpLink.withSnd
  rw [hSame, hFrames]
  simp

theorem withRcv_quiet
    (hFrames : s.frames = []) :
    l.withRcv s = { l with rcv := s } := by
  have hSame : { s with frames := [] } = s := by
    rw [← hFrames]
  unfold IsotpLink.withRcv
  rw [hSame, hFrames]
  simp

theorem withSnd_one
    {h : Int} {frame : CanFrame} (hFrames : s.frames = [(h, frame)]) :
    l.withSnd s = { l with
        snd := { s with frames := [] }
        toRcv := l.toRcv ++ [frame]
        sndConf := l.sndConf ++ [h] } := by
  unfold IsotpLink.withSnd
  rw [hFrames]
  rfl

theorem withRcv_one
    {h : Int} {frame : CanFrame} (hFrames : s.frames = [(h, frame)]) :
    l.withRcv s = { l with
        rcv := { s with frames := [] }
        toSnd := l.toSnd ++ [frame]
        rcvConf := l.rcvConf ++ [h] } := by
  unfold IsotpLink.withRcv
  rw [hFrames]
  rfl

end

theorem cfFrames_cons
    {a : Isotp} {j k : Nat} (hLt : k < j) :
    cfFrames a m k j = cfFrame a.opt (sentSnip a m) k :: cfFrames a m (k + 1) j := by
  unfold cfFrames
  rw [show j - k = (j - (k + 1)) + 1 by omega, List.range'_succ, List.map_cons]

theorem cfFrames_snoc
    {a : Isotp} {j k : Nat} (hLe : k ≤ j) :
    cfFrames a m k j ++ [cfFrame a.opt (sentSnip a m) j] = cfFrames a m k (j + 1) := by
  unfold cfFrames
  rw [show j + 1 - k = (j - k) + 1 by omega, List.range'_concat, List.map_append,
    List.map_singleton, show k + 1 * (j - k) = j by omega]

theorem cfFrames_self
    {a : Isotp} {k : Nat} :
    cfFrames a m k k = [] := by
  unfold cfFrames
  rw [Nat.sub_self]
  rfl

----
-- Steps
----

section

variable {a b : Isotp} {m : List UInt8} {l : IsotpLink} {e : LinkEvent}
variable {frame : CanFrame} {j k : Nat}

theorem LinkInv.start_steps
    (hPaired : Paired a b m) (hPossible : e.Possible (linkStart a b m)) :
    Steps a b m (linkStart a b m) e := by
  have hIdx : (linkStart a b m).snd.tx.idx = 0 := by
    unfold linkStart
    rw [isotpSend_start hPaired]
  cases e with
  | sendFrame h =>
    by_cases hShort : m.length ≤ 7 - a.opt.ae
    · rcases isotpSendSfFf_single hPaired hShort
        hPossible.2 with
        ⟨s', sf, filler, n, hRun, hFrames, hHolds, hDlc, _, _, hRx, hState, hHandle, hEnd⟩
      refine ⟨{ linkStart a b m with sendFrame := false }.withSnd s', ?_, ?_, ?_⟩
      · show (isotpSendSfFf (.good h) (isotpSend (.good 1) a m).2).map _ = _
        rw [hRun]
        rfl
      · rw [withSnd_one hFrames]
        refine .single ⟨rfl, rfl, rfl, hShort, hRx, rfl, hEnd, Or.inl ⟨hState, ?_⟩,
          Or.inl ⟨rfl, sf, filler, n, rfl, hHolds, hDlc⟩⟩
        dsimp only
        rw [hHandle]
        rfl
      · rw [withSnd_one hFrames]
        unfold IsotpLink.work
        rw [hIdx]
        simp only [linkStart, List.nil_append, List.length_nil, List.length_singleton,
          Bool.false_eq_true, if_false, if_true]
        omega
    · rcases isotpSendSfFf_first hPaired
        (Nat.lt_of_not_le hShort) hPossible.2 with
        ⟨s', hRun, hFrames, hAt, hState, hHandle⟩
      refine ⟨{ linkStart a b m with sendFrame := false }.withSnd s', ?_, ?_, ?_⟩
      · show (isotpSendSfFf (.good h) (isotpSend (.good 1) a m).2).map _ = _
        rw [hRun]
        rfl
      · rw [withSnd_one hFrames]
        refine .first ⟨rfl, rfl, rfl, Nat.lt_of_not_le hShort,
          rfl, rfl, hAt, .first hState ?_, ?_⟩
        · dsimp only
          rw [hHandle]
          rfl
        · dsimp only
          rw [hState]
          intro hEq
          cases hEq
      · rw [withSnd_one hFrames]
        unfold IsotpLink.work
        rw [hIdx]
        simp only [linkStart, List.nil_append, List.length_nil, List.length_singleton,
          Bool.false_eq_true, if_false, if_true]
        omega
  | sndConf => exact absurd rfl hPossible
  | rcvConf => exact absurd rfl hPossible
  | sndFrame h => exact absurd rfl hPossible.1
  | rcvFrame h => exact absurd rfl hPossible.1
  | sndGap h =>
    exfalso
    have hState := hPossible.1
    unfold linkStart at hState
    rw [isotpSend_start hPaired] at hState
    have hIdle : a.tx.state = .sendingNextCf := hState
    rw [hPaired.sndTx] at hIdle
    cases hIdle

/- The sender gets the confirmation of its last frame. -/
theorem exec_sndConf
    {s' : Isotp} (hConf : l.sndConf = [l.snd.tx.txHandle])
    (hRun : isotpTxTxConf (.good 1) l.snd = some s') (hFrames : s'.frames = []) :
    l.exec .sndConf = some { l with snd := s', sndConf := [] } := by
  have hTx : isotpTxConfirmation (.good 1) l.snd l.snd.tx.txHandle = _ := if_pos rfl
  unfold IsotpLink.exec
  rw [hConf]
  dsimp only
  rw [hTx, hRun, Option.map_some, withSnd_quiet hFrames]

/- The receiver gets the confirmation of its last frame. -/
theorem exec_rcvConf
    {t' : Isotp} (hConf : l.rcvConf = [l.rcv.rx.txHandle])
    (hRun : isotpTxConfirmation (.good 1) l.rcv l.rcv.rx.txHandle = some t')
    (hFrames : t'.frames = []) :
    l.exec .rcvConf = some { l with rcv := t', rcvConf := [] } := by
  unfold IsotpLink.exec
  rw [hConf]
  dsimp only
  rw [hRun, Option.map_some, withRcv_quiet hFrames]

/- The receiver gets a frame that it does not answer. -/
theorem exec_rcvFrame
    {h : Int} {rest : List CanFrame} {t' : Isotp} (hToRcv : l.toRcv = frame :: rest)
    (hRun : isotpFiltered (.good h) l.rcv frame = some t')
    (hFrames : t'.frames = []) :
    l.exec (.rcvFrame h) = some { l with rcv := t', toRcv := rest } := by
  unfold IsotpLink.exec
  rw [hToRcv]
  dsimp only
  rw [hRun, Option.map_some, withRcv_quiet hFrames]

/- The receiver gets a frame that it answers. -/
theorem exec_rcvFrame_answered
    {h : Int} {frame fc : CanFrame} {rest : List CanFrame} {t' : Isotp}
    (hToRcv : l.toRcv = frame :: rest) (hToSnd : l.toSnd = [])
    (hRcvConf : l.rcvConf = [])
    (hRun : isotpFiltered (.good h) l.rcv frame = some t')
    (hFrames : t'.frames = [(h, fc)]) :
    l.exec (.rcvFrame h) = some { l with
          rcv := { t' with frames := [] }
          toRcv := rest
          toSnd := [fc]
          rcvConf := [h] } := by
  unfold IsotpLink.exec
  rw [hToRcv]
  dsimp only
  rw [hRun, Option.map_some, withRcv_one hFrames]
  dsimp only
  rw [hToSnd, hRcvConf]
  rfl

theorem SinglePhase.steps
    (hPaired : Paired a b m) (h : SinglePhase a b m l) (hPossible : e.Possible l) :
    Steps a b m l e := by
  cases e with
  | sendFrame handle => exact absurd (h.send.symm.trans hPossible.1) Bool.false_ne_true
  | sndConf =>
    rcases h.snd with ⟨hState, hConf⟩ | ⟨_, hConf⟩
    · rcases @isotpTxTxConf_single l.snd (.good 1) hState with
        ⟨s', hRun, _, hIdle, hRx, hFrames, hIdx⟩
      have hQuiet := hFrames.trans h.frames
      refine ⟨_, exec_sndConf hConf hRun hQuiet, ?_, ?_⟩
      · refine .single ⟨h.send, h.toSnd, h.rcvConf, h.short, ?_,
          hQuiet, hIdx.trans h.idx, Or.inr ⟨hIdle, rfl⟩, h.rcv⟩
        dsimp only
        rw [hRx]
        exact h.rx
      · unfold IsotpLink.work
        rw [hConf]
        dsimp only
        rw [hIdx, List.length_nil, List.length_singleton]
        omega
    · exact absurd hConf hPossible
  | rcvConf => exact absurd h.rcvConf hPossible
  | sndFrame handle => exact absurd h.toSnd hPossible.1
  | rcvFrame handle =>
    rcases h.rcv with ⟨hRcv, sf, filler, n, hToRcv, hHolds, hDlc⟩ | ⟨_, hToRcv⟩
    · rcases @isotpFiltered_single a b m handle sf filler n
        hPaired h.short hHolds hDlc with ⟨t', hRun, hDone⟩
      rw [← hRcv] at hRun
      refine ⟨_, exec_rcvFrame hToRcv hRun hDone.frames, ?_, ?_⟩
      · exact .single ⟨h.send, h.toSnd, h.rcvConf, h.short, h.rx,
          h.frames, h.idx, h.snd, Or.inr ⟨hDone, rfl⟩⟩
      · unfold IsotpLink.work
        rw [hToRcv]
        dsimp only
        rw [List.length_nil, List.length_singleton]
        omega
    · exact absurd hToRcv hPossible.1
  | sndGap handle =>
    exfalso
    have hState := hPossible.1
    rcases h.snd with ⟨hOther, _⟩ | ⟨hOther, _⟩
    · rw [hOther] at hState
      cases hState
    · rw [hOther] at hState
      cases hState

/- The sender gets a frame that it does not answer. -/
theorem exec_sndFrame
    {h : Int} {s' : Isotp} (hToSnd : l.toSnd = [frame])
    (hRun : isotpFiltered (.good h) l.snd frame = some s')
    (hFrames : s'.frames = []) :
    l.exec (.sndFrame h) = some { l with snd := s', toSnd := [] } := by
  unfold IsotpLink.exec
  rw [hToSnd]
  dsimp only
  rw [hRun, Option.map_some, withSnd_quiet hFrames]

/- The sender sends the next frame. -/
theorem exec_sndGap
    {h : Int} {s' : Isotp} (hConf : l.sndConf = [])
    (hRun : isotpTxTimeoutTask (.good h) (l.snd.txExpired false) = some s')
    (hFrames : s'.frames = [(h, frame)]) :
    l.exec (.sndGap h) = some { l with
          snd := { s' with frames := [] }
          toRcv := l.toRcv ++ [frame]
          sndConf := [h] } := by
  unfold IsotpLink.exec
  dsimp only
  rw [hRun, Option.map_some, withSnd_one hFrames]
  rw [hConf]
  rfl

theorem SndWaits.not_next
    {s : Isotp} {conf : List Int} (h : SndWaits b s conf) :
    s.tx.state ≠ .sendingNextCf := by
  intro hNext
  cases h with
  | waiting hState _ =>
    rw [hState] at hNext
    cases hNext
  | first hState _ =>
    rw [hState] at hNext
    cases hNext
  | block hState _ _ _ _ =>
    rw [hState] at hNext
    cases hNext

/- A confirmation leaves the receiver waiting for frames. -/
theorem RcvWaits.confirmed
    {k : Nat} (h : RcvWaits l.rcv l.rcvConf) (hAt : RcvAt a b m k l.rcv)
    (hPossible : LinkEvent.rcvConf.Possible l) :
    ∃ t', l.exec .rcvConf = some { l with rcv := t', rcvConf := [] } ∧
        RcvAt a b m k t' ∧ RcvWaits t' [] ∧ t'.rx.bs = l.rcv.rx.bs ∧ l.rcvConf.length = 1 := by
  cases h with
  | confirming hState hPos hConf =>
    rcases @isotpTxConfirmation_fc a b l.rcv m k (.good 1) hAt
      hPos hState with ⟨t', hRun, hAt', hWait, hBs⟩
    refine ⟨t', exec_rcvConf hConf hRun hAt'.frames, hAt', .waiting hWait rfl, hBs, ?_⟩
    rw [hConf]
    rfl
  | waiting _ hConf => exact absurd hConf hPossible

/- A receiver without a frame to be confirmed is waiting. -/
theorem RcvWaits.state
    {t : Isotp} (h : RcvWaits t []) :
    t.rx.state = .waitCf := by
  cases h with
  | confirming _ _ hConf => cases hConf
  | waiting hState _ => exact hState

theorem FirstPhase.steps
    (hPaired : Paired a b m) (h : FirstPhase a b m l) (hPossible : e.Possible l) :
    Steps a b m l e := by
  cases e with
  | sendFrame handle => exact absurd (h.send.symm.trans hPossible.1) Bool.false_ne_true
  | sndConf =>
    cases h.snd with
    | waiting _ hConf => exact absurd hConf hPossible
    | first hState hConf =>
      rcases @isotpTxTxConf_first a l.snd m 0 (.good 1) h.sndAt hState with ⟨s', hRun, hAt, hWait⟩
      refine ⟨_, exec_sndConf hConf hRun hAt.frames, ?_, ?_⟩
      · refine .first ⟨h.send, h.toSnd, h.rcvConf, h.long,
          h.rcv, h.toRcv, hAt, .waiting hWait rfl, ?_⟩
        dsimp only
        rw [hWait]
        intro hEq
        cases hEq
      · unfold IsotpLink.work
        rw [hConf, h.sndAt.idx]
        dsimp only
        rw [hAt.idx, List.length_nil, List.length_singleton]
        omega
    | block hState _ _ _ _ => exact absurd hState h.first
  | rcvConf => exact absurd h.rcvConf hPossible
  | sndFrame handle => exact absurd h.toSnd hPossible.1
  | rcvFrame handle =>
    rcases isotpFiltered_first hPaired h.long
      hPossible.2.2 with
      ⟨t', fc, hRun, hFrames, hFc, hAt, hState, hHandle, hBs⟩
    rw [← h.rcv] at hRun
    refine ⟨_, exec_rcvFrame_answered h.toRcv h.toSnd h.rcvConf hRun hFrames, ?_, ?_⟩
    · refine .cleared 0 ⟨h.send, ⟨fc, rfl, hFc⟩, rfl, ?_, h.sndAt,
        h.snd, hAt, .confirming (Or.inl hState) ?_ ?_, hBs⟩
      · intro i hi
        rw [Nat.le_zero.mp hi]
        exact (sentBytes_zero h.long).2
      · dsimp only
        rw [hHandle]
        exact hPossible.2.2
      · dsimp only
        rw [hHandle]
    · unfold IsotpLink.work
      rw [h.toRcv, h.toSnd, h.rcvConf]
      dsimp only
      simp only [List.length_nil, List.length_singleton]
      omega
  | sndGap handle => exact absurd hPossible.1 h.snd.not_next

/- What is confirmed to a sender that waits for flow control. -/
theorem SndWaits.confirmed
    {j : Nat} (h : SndWaits b l.snd l.sndConf) (hAt : SndAt a m j l.snd)
    (hMore : sentBytes a.opt m.length j < m.length)
    (hPossible : LinkEvent.sndConf.Possible l) :
    ∃ s', l.exec .sndConf = some { l with snd := s', sndConf := [] } ∧
        SndAt a m j s' ∧ s'.tx.state = .waitFc ∧ l.sndConf.length = 1 := by
  cases h with
  | waiting _ hConf => exact absurd hConf hPossible
  | first hState hConf =>
    rcases @isotpTxTxConf_first a l.snd m j (.good 1) hAt hState with ⟨s', hRun, hAt', hWait⟩
    refine ⟨s', exec_sndConf hConf hRun hAt'.frames, hAt', hWait, ?_⟩
    rw [hConf]
    rfl
  | block hState hConf hFc hBs hFull =>
    rw [← hFc] at hBs hFull
    rcases @isotpTxTxConf_wait a l.snd m j hAt hState (.good 1)
      hMore ⟨hBs, hFull⟩ with ⟨s', hRun, hAt', hWait, _⟩
    refine ⟨s', exec_sndConf hConf hRun hAt'.frames, hAt', hWait, ?_⟩
    rw [hConf]
    rfl

theorem ClearedPhase.steps
    {j : Nat} (hPaired : Paired a b m) (h : ClearedPhase a b m j l)
    (hPossible : e.Possible l) :
    Steps a b m l e := by
  have hMore := h.more j (Nat.le_refl j)
  cases e with
  | sendFrame handle => exact absurd (h.send.symm.trans hPossible.1) Bool.false_ne_true
  | sndConf =>
    rcases h.snd.confirmed h.sndAt hMore hPossible with ⟨s', hRun, hAt, hWait, hLen⟩
    refine ⟨_, hRun, ?_, ?_⟩
    · exact .cleared j ⟨h.send, h.toSnd, h.toRcv, h.more, hAt,
        .waiting hWait rfl, h.rcvAt, h.rcv, h.bs⟩
    · unfold IsotpLink.work
      dsimp only
      rw [hAt.idx, h.sndAt.idx, hLen, List.length_nil]
      omega
  | rcvConf =>
    rcases h.rcv.confirmed h.rcvAt hPossible with ⟨t', hRun, hAt, hWait, hBs, hLen⟩
    refine ⟨_, hRun, ?_, ?_⟩
    · exact .cleared j ⟨h.send, h.toSnd, h.toRcv, h.more,
        h.sndAt, h.snd, hAt, hWait, hBs.trans h.bs⟩
    · unfold IsotpLink.work
      dsimp only
      rw [hLen, List.length_nil]
      omega
  | sndFrame handle =>
    rcases h.toSnd with ⟨fc, hToSnd, hFc⟩
    have hNoConf := hPossible.2.1
    have hState : l.snd.tx.state = .waitFc := by
      cases h.snd with
      | waiting hState _ => exact hState
      | first _ hConf =>
        rw [hNoConf] at hConf
        cases hConf
      | block _ hConf _ _ _ =>
        rw [hNoConf] at hConf
        cases hConf
    rcases @isotpFiltered_fc a b l.snd m j (.good handle) fc
      hPaired h.sndAt hState hFc with
      ⟨s', hRun, hAt, hNext, hTimer, hZero, hTxfc⟩
    have hPos : b.rxfc.bs ≠ 0 → 0 < b.rxfc.bs.toNat := by
      intro hNe
      apply Nat.pos_of_ne_zero
      intro hEq
      exact hNe (UInt8.toNat_inj.mp hEq)
    refine ⟨_, exec_sndFrame hToSnd hRun hAt.frames, ?_, ?_⟩
    · refine .sending j j ⟨h.send, rfl, Nat.le_refl j, ?_, ?_,
        hMore, hAt, .next hNext hTimer hNoConf hMore ?_, h.rcvAt, h.rcv, ⟨hTxfc, ?_, ?_, ?_⟩⟩
      · rw [cfFrames_self]
        exact h.toRcv
      · intro i hi
        exact h.more i (Nat.le_of_lt hi)
      · intro hNe
        dsimp only
        rw [hZero]
        exact hPos hNe
      · intro _
        dsimp only
        rw [hZero, h.bs, Nat.sub_self]
      · intro _
        dsimp only
        rw [hZero]
        exact Nat.zero_le _
      · intro hNe
        dsimp only
        rw [h.bs]
        exact hPos hNe
    · unfold IsotpLink.work
      rw [hToSnd]
      dsimp only
      rw [hAt.idx, h.sndAt.idx, List.length_nil, List.length_singleton]
      omega
  | rcvFrame handle => exact absurd h.toRcv hPossible.1
  | sndGap handle => exact absurd hPossible.1 h.snd.not_next

/- The sender is confirmed a frame of a block. -/
theorem SendingPhase.sndConf
    (h : SendingPhase a b m j k l) (hPossible : LinkEvent.sndConf.Possible l) :
    Steps a b m l .sndConf := by
  cases h.snd with
  | next _ _ hConf _ _ => exact absurd hConf hPossible
  | waiting _ hConf _ _ _ _ => exact absurd hConf hPossible
  | sent hState hConf =>
    by_cases hEnd : sentBytes a.opt m.length j = m.length
    · rcases @isotpTxTxConf_last a l.snd m j h.sndAt hState (.good 1) hEnd with ⟨s', hRun, hDone⟩
      refine ⟨_, exec_sndConf hConf hRun hDone.frames, ?_, ?_⟩
      · refine .sent j k ⟨h.send, h.toSnd, rfl, h.le, h.toRcv,
          h.more, hEnd, h.rest, hDone, h.rcvAt, h.rcv, ?_⟩
        intro hNe
        dsimp only
        rw [← h.block.count hNe]
        exact h.block.full hNe
      · unfold IsotpLink.work
        rw [hConf, h.sndAt.idx, hEnd]
        dsimp only
        rw [hDone.idx, List.length_nil, List.length_singleton]
        omega
    have hMore : sentBytes a.opt m.length j < m.length := Nat.lt_of_le_of_ne (sentBytes_le _ _) hEnd
    by_cases hFull : l.snd.txfc.bs ≠ 0 ∧ l.snd.txfc.bs.toNat ≤ l.snd.tx.bs
    · rcases @isotpTxTxConf_wait a l.snd m j h.sndAt
        hState (.good 1) hMore hFull with
        ⟨s', hRun, hAt, hWait, hBs, hTxfc⟩
      rw [h.block.fc] at hFull
      rcases hFull with ⟨hNe, hGe⟩
      have hCount := h.block.count hNe
      have hLe := h.block.full hNe
      have hRoom := h.block.room hNe
      refine ⟨_, exec_sndConf hConf hRun hAt.frames, ?_, ?_⟩
      · refine .sending j k ⟨h.send, h.toSnd, h.le, h.toRcv, h.more, h.rest, hAt,
          .waiting hWait rfl hMore hNe ?_ ?_, h.rcvAt, h.rcv, ⟨?_, ?_, ?_, h.block.room⟩⟩
        · dsimp only
          omega
        · omega
        · dsimp only
          rw [hTxfc]
          exact h.block.fc
        · dsimp only
          rw [hBs]
          exact h.block.count
        · dsimp only
          rw [hBs]
          exact h.block.full
      · unfold IsotpLink.work
        rw [hConf, h.sndAt.idx]
        dsimp only
        rw [hAt.idx, List.length_nil, List.length_singleton]
        omega
    · rcases @isotpTxTxConf_next a l.snd m j h.sndAt
        hState (.good 1) hMore hFull with
        ⟨s', hRun, hAt, hNext, hTimer, hBs, hTxfc⟩
      rw [h.block.fc] at hFull
      refine ⟨_, exec_sndConf hConf hRun hAt.frames, ?_, ?_⟩
      · refine .sending j k ⟨h.send, h.toSnd, h.le, h.toRcv, h.more, h.rest, hAt,
          .next hNext hTimer rfl hMore ?_, h.rcvAt, h.rcv, ⟨?_, ?_, ?_, h.block.room⟩⟩
        · intro hNe
          dsimp only
          rw [hBs]
          exact Nat.lt_of_not_le (fun hGe => hFull ⟨hNe, hGe⟩)
        · dsimp only
          rw [hTxfc]
          exact h.block.fc
        · dsimp only
          rw [hBs]
          exact h.block.count
        · dsimp only
          rw [hBs]
          exact h.block.full
      · unfold IsotpLink.work
        rw [hConf, h.sndAt.idx]
        dsimp only
        rw [hAt.idx, List.length_nil, List.length_singleton]
        omega

section

variable (hPaired : Paired a b m) (h : SendingPhase a b m j k l)

include hPaired h

/- The next frame of a block is sent. -/
theorem SendingPhase.sndGap
    {handle : Int} (hPossible : (LinkEvent.sndGap handle).Possible l) :
    Steps a b m l (.sndGap handle) := by
  cases h.snd with
  | sent hState _ =>
    exfalso
    have hNext := hPossible.1
    rw [hState] at hNext
    cases hNext
  | waiting hState _ _ _ _ _ =>
    exfalso
    have hNext := hPossible.1
    rw [hState] at hNext
    cases hNext
  | next hState _ hConf hMore hRoom =>
    rcases isotpTxTimeoutTask_gap hPaired h.sndAt hState
      hPossible.2.2 with
      ⟨s', hRun, hFrames, hAt, hSent, hHandle, hBs, hTxfc⟩
    have hByte := b.rxfc.bs.toNat_lt
    have hSum : b.rxfc.bs ≠ 0 → s'.tx.bs = l.snd.tx.bs + 1 := by
      intro hNe
      have hLt := hRoom hNe
      rw [hBs]
      exact Nat.mod_eq_of_lt (by omega)
    have hLe := h.le
    have hLonger := sentBytes_lt hMore
    refine ⟨_, exec_sndGap hConf hRun hFrames, ?_, ?_⟩
    · refine .sending (j + 1) k ⟨h.send, h.toSnd, Nat.le_succ_of_le hLe, ?_, ?_, h.rest, hAt,
        .sent hSent ?_, h.rcvAt, h.rcv, ⟨?_, ?_, ?_, h.block.room⟩⟩
      · dsimp only
        rw [h.toRcv]
        exact cfFrames_snoc hLe
      · intro i hi
        rcases Nat.lt_succ_iff_lt_or_eq.mp hi with hLt | rfl
        · exact h.more i hLt
        · exact hMore
      · dsimp only
        rw [hHandle]
      · dsimp only
        rw [hTxfc]
        exact h.block.fc
      · intro hNe
        have hCount := h.block.count hNe
        dsimp only
        rw [hSum hNe]
        omega
      · intro hNe
        have hLt := hRoom hNe
        dsimp only
        rw [hSum hNe]
        omega
    · unfold IsotpLink.work
      have hIdx : s'.tx.idx = sentBytes a.opt m.length (j + 1) := hAt.idx
      have hTop := @sentBytes_le a.opt m.length (j + 1)
      rw [hConf, h.sndAt.idx]
      dsimp only
      rw [hIdx, List.length_append, List.length_nil, List.length_singleton, List.length_singleton]
      omega

/- The receiver gets the next frame of a block. -/
theorem SendingPhase.rcvFrame
    {handle : Int} (hPossible : (LinkEvent.rcvFrame handle).Possible l) :
    Steps a b m l (.rcvFrame handle) := by
  have hNoConf := hPossible.2.1
  have hWait : l.rcv.rx.state = .waitCf := by
    have hRcv := h.rcv
    rw [hNoConf] at hRcv
    exact hRcv.state
  have hLt : k < j := by
    apply Nat.lt_of_le_of_ne h.le
    rintro rfl
    apply hPossible.1
    rw [h.toRcv]
    exact cfFrames_self
  have hToRcv : l.toRcv = cfFrame a.opt (sentSnip a m) k :: cfFrames a m (k + 1) j := by
    rw [h.toRcv]
    exact cfFrames_cons hLt
  by_cases hEnd : sentBytes a.opt m.length (k + 1) = m.length
  · -- only the last frame completes the message
    have hLast : j = k + 1 := by
      by_contra hNe
      have hOther := h.more (k + 1) (by omega)
      omega
    rcases @isotpFiltered_last a b l.rcv m k handle hPaired h.rcvAt
      hWait h.rest hEnd with ⟨t', hRun, hDone⟩
    refine ⟨_, exec_rcvFrame hToRcv hRun hDone.frames, ?_, ?_⟩
    · cases h.snd with
      | next _ _ _ hMore _ =>
        rw [hLast] at hMore
        omega
      | waiting _ _ hMore _ _ _ =>
        rw [hLast] at hMore
        omega
      | sent hState hConf =>
        refine .received j ⟨h.send, h.toSnd, ?_, hNoConf, ?_, h.sndAt, hState, hConf, hDone⟩
        · dsimp only
          rw [hLast]
          exact cfFrames_self
        · rw [hLast]
          exact hEnd
    · unfold IsotpLink.work
      rw [hToRcv]
      dsimp only
      rw [List.length_cons]
      omega
  have hMore : sentBytes a.opt m.length (k + 1) < m.length :=
    Nat.lt_of_le_of_ne (sentBytes_le _ _) hEnd
  by_cases hNext : b.rxfc.bs ≠ 0 → l.rcv.rx.bs + 1 < b.rxfc.bs.toNat
  · rcases @isotpFiltered_next a b l.rcv m k handle hPaired h.rcvAt
      hWait hMore hNext with ⟨t', hRun, hAt, hState, hBs⟩
    refine ⟨_, exec_rcvFrame hToRcv hRun hAt.frames, ?_, ?_⟩
    · refine .sending j (k + 1) ⟨h.send, h.toSnd, hLt, rfl, h.more,
        hMore, h.sndAt, ?_, hAt, .waiting hState hNoConf, ⟨h.block.fc, ?_, h.block.full, ?_⟩⟩
      · cases h.snd with
        | next hSt hTimer hConf hLeft hRoom => exact .next hSt hTimer hConf hLeft hRoom
        | sent hSt hConf => exact .sent hSt hConf
        | waiting hSt hConf hLeft hNe hFull _ =>
          refine .waiting hSt hConf hLeft hNe hFull ?_
          have hCount := h.block.count hNe
          have hOne := hNext hNe
          omega
      · intro hNe
        have hCount := h.block.count hNe
        dsimp only
        rw [hBs hNe, hCount]
        omega
      · intro hNe
        dsimp only
        rw [hBs hNe]
        exact hNext hNe
    · unfold IsotpLink.work
      rw [hToRcv]
      dsimp only
      rw [List.length_cons]
      omega
  · rw [Classical.not_imp] at hNext
    rcases hNext with ⟨hNe, hGe⟩
    have hCount := h.block.count hNe
    have hFull := h.block.full hNe
    have hRoom := h.block.room hNe
    have hBlock : l.rcv.rx.bs + 1 = b.rxfc.bs.toNat := by
      omega
    -- the sender sent no more than the block
    have hLast : j = k + 1 := by
      omega
    rcases isotpFiltered_block hPaired h.rcvAt hWait hMore hNe
      hBlock hPossible.2.2 with
      ⟨t', fc, hRun, hFrames, hFc, hAt, hState, hHandle, hZero⟩
    refine ⟨_, exec_rcvFrame_answered hToRcv h.toSnd hNoConf hRun hFrames, ?_, ?_⟩
    · have hAt' : RcvAt a b m j { t' with frames := [] } := by
        rw [hLast]
        exact hAt
      refine .cleared j ⟨h.send, ⟨fc, rfl, hFc⟩, ?_, ?_, h.sndAt, ?_,
        hAt', .confirming (Or.inr hState) ?_ ?_, hZero⟩
      · dsimp only
        rw [hLast]
        exact cfFrames_self
      · intro i hi
        rcases Nat.lt_or_eq_of_le hi with hLess | rfl
        · exact h.more i hLess
        · rw [hLast]
          exact hMore
      · cases h.snd with
        | next _ _ _ _ hLess =>
          have hAbsurd := hLess hNe
          omega
        | sent hSt hConf =>
          refine .block hSt hConf h.block.fc hNe ?_
          dsimp only
          omega
        | waiting hSt hConf _ _ _ _ => exact .waiting hSt hConf
      · dsimp only
        rw [hHandle]
        exact hPossible.2.2
      · dsimp only
        rw [hHandle]
    · unfold IsotpLink.work
      rw [hToRcv, h.toSnd, hNoConf]
      dsimp only
      simp only [List.length_cons, List.length_nil]
      omega

theorem SendingPhase.steps
    (hPossible : e.Possible l) :
    Steps a b m l e := by
  cases e with
  | sendFrame handle => exact absurd (h.send.symm.trans hPossible.1) Bool.false_ne_true
  | sndConf => exact h.sndConf hPossible
  | rcvConf =>
    rcases h.rcv.confirmed h.rcvAt hPossible with ⟨t', hRun, hAt, hWait, hBs, hLen⟩
    refine ⟨_, hRun, ?_, ?_⟩
    · refine .sending j k ⟨h.send, h.toSnd, h.le, h.toRcv, h.more,
        h.rest, h.sndAt, h.snd, hAt, hWait, ⟨h.block.fc, ?_, h.block.full, ?_⟩⟩
      · dsimp only
        rw [hBs]
        exact h.block.count
      · dsimp only
        rw [hBs]
        exact h.block.room
    · unfold IsotpLink.work
      dsimp only
      rw [hLen, List.length_nil]
      omega
  | sndFrame handle => exact absurd h.toSnd hPossible.1
  | rcvFrame handle => exact h.rcvFrame hPaired hPossible
  | sndGap handle => exact h.sndGap hPaired hPossible

end

theorem SentPhase.steps
    (hPaired : Paired a b m) (h : SentPhase a b m j k l)
    (hPossible : e.Possible l) :
    Steps a b m l e := by
  cases e with
  | sendFrame handle => exact absurd (h.send.symm.trans hPossible.1) Bool.false_ne_true
  | sndConf => exact absurd h.sndConf hPossible
  | rcvConf =>
    rcases h.rcv.confirmed h.rcvAt hPossible with ⟨t', hRun, hAt, hWait, hBs, hLen⟩
    refine ⟨_, hRun, ?_, ?_⟩
    · refine .sent j k ⟨h.send, h.toSnd, h.sndConf, h.le, h.toRcv,
        h.more, h.last, h.rest, h.snd, hAt, hWait, ?_⟩
      dsimp only
      rw [hBs]
      exact h.room
    · unfold IsotpLink.work
      dsimp only
      rw [hLen, List.length_nil]
      omega
  | sndFrame handle => exact absurd h.toSnd hPossible.1
  | rcvFrame handle =>
    have hNoConf := hPossible.2.1
    have hWait : l.rcv.rx.state = .waitCf := by
      have hRcv := h.rcv
      rw [hNoConf] at hRcv
      exact hRcv.state
    have hLt : k < j := by
      apply Nat.lt_of_le_of_ne h.le
      rintro rfl
      have hRest := h.rest
      rw [h.last] at hRest
      omega
    have hToRcv : l.toRcv = cfFrame a.opt (sentSnip a m) k :: cfFrames a m (k + 1) j := by
      rw [h.toRcv]
      exact cfFrames_cons hLt
    by_cases hEnd : sentBytes a.opt m.length (k + 1) = m.length
    · have hLast : j = k + 1 := by
        by_contra hNe
        have hOther := h.more (k + 1) (by omega)
        omega
      rcases @isotpFiltered_last a b l.rcv m k handle hPaired
        h.rcvAt hWait h.rest hEnd with ⟨t', hRun, hDone⟩
      refine ⟨_, exec_rcvFrame hToRcv hRun hDone.frames, ?_, ?_⟩
      · refine .done ⟨h.send, h.toSnd, ?_, h.sndConf, hNoConf, h.snd, hDone⟩
        dsimp only
        rw [hLast]
        exact cfFrames_self
      · unfold IsotpLink.work
        rw [hToRcv]
        dsimp only
        rw [List.length_cons]
        omega
    · have hMore : sentBytes a.opt m.length (k + 1) < m.length :=
        Nat.lt_of_le_of_ne (sentBytes_le _ _) hEnd
      have hNotLast : k + 1 ≠ j := by
        rintro rfl
        exact hEnd h.last
      -- the block is not over before the message is
      have hNext : b.rxfc.bs ≠ 0 → l.rcv.rx.bs + 1 < b.rxfc.bs.toNat := by
        intro hNe
        have hRoom := h.room hNe
        omega
      rcases @isotpFiltered_next a b l.rcv m k handle hPaired
        h.rcvAt hWait hMore hNext with
        ⟨t', hRun, hAt, hState, hBs⟩
      refine ⟨_, exec_rcvFrame hToRcv hRun hAt.frames, ?_, ?_⟩
      · refine .sent j (k + 1) ⟨h.send, h.toSnd, h.sndConf, hLt,
          rfl, h.more, h.last, hMore, h.snd, hAt, .waiting hState hNoConf, ?_⟩
        intro hNe
        have hRoom := h.room hNe
        dsimp only
        rw [hBs hNe]
        omega
      · unfold IsotpLink.work
        rw [hToRcv]
        dsimp only
        rw [List.length_cons]
        omega
  | sndGap handle =>
    exfalso
    have hNext := hPossible.1
    rw [h.snd.tx] at hNext
    cases hNext

theorem ReceivedPhase.steps
    {j : Nat} (h : ReceivedPhase a b m j l) (hPossible : e.Possible l) :
    Steps a b m l e := by
  cases e with
  | sendFrame handle => exact absurd (h.send.symm.trans hPossible.1) Bool.false_ne_true
  | sndConf =>
    rcases @isotpTxTxConf_last a l.snd m j h.sndAt h.state (.good 1) h.last with ⟨s', hRun, hDone⟩
    refine ⟨_, exec_sndConf h.sndConf hRun hDone.frames, ?_, ?_⟩
    · exact .done ⟨h.send, h.toSnd, h.toRcv, rfl, h.rcvConf, hDone, h.rcv⟩
    · unfold IsotpLink.work
      rw [h.sndConf, h.sndAt.idx, h.last]
      dsimp only
      rw [hDone.idx, List.length_nil, List.length_singleton]
      omega
  | rcvConf => exact absurd h.rcvConf hPossible
  | sndFrame handle => exact absurd h.toSnd hPossible.1
  | rcvFrame handle => exact absurd h.toRcv hPossible.1
  | sndGap handle =>
    exfalso
    have hNext := hPossible.1
    rw [h.state] at hNext
    cases hNext

/- Nothing happens when both sides are done. -/
theorem DonePhase.stuck
    (h : DonePhase a b m l) :
    ¬ e.Possible l := by
  intro hPossible
  cases e with
  | sendFrame handle => exact absurd (h.send.symm.trans hPossible.1) Bool.false_ne_true
  | sndConf => exact absurd h.sndConf hPossible
  | rcvConf => exact absurd h.rcvConf hPossible
  | sndFrame handle => exact absurd h.toSnd hPossible.1
  | rcvFrame handle => exact absurd h.toRcv hPossible.1
  | sndGap handle =>
    have hNext := hPossible.1
    rw [h.snd.tx] at hNext
    cases hNext

/- Every event that can happen leads on. -/
theorem LinkInv.steps
    (hPaired : Paired a b m) (hInv : LinkInv a b m l) (hPossible : e.Possible l) :
    Steps a b m l e := by
  cases hInv with
  | start hStart =>
    subst hStart
    exact LinkInv.start_steps hPaired hPossible
  | single h => exact h.steps hPaired hPossible
  | first h => exact h.steps hPaired hPossible
  | cleared j h => exact h.steps hPaired hPossible
  | sending j k h => exact h.steps hPaired hPossible
  | sent j k h => exact h.steps hPaired hPossible
  | received j h => exact h.steps hPossible
  | done h => exact absurd hPossible h.stuck

end

----
-- Runs
----

section

variable {a b : Isotp} {m : List UInt8} {l : IsotpLink}

/- What waits for frames gets them, or a confirmation. -/
theorem RcvWaits.not_stuck
    {j k : Nat} (h : RcvWaits l.rcv l.rcvConf) (hToRcv : l.toRcv = cfFrames a m k j)
    (hLt : k < j) :
    ∃ e : LinkEvent, e.Possible l := by
  cases h with
  | confirming _ _ hConf =>
    refine ⟨.rcvConf, ?_⟩
    intro hNil
    rw [hConf] at hNil
    cases hNil
  | waiting _ hConf =>
    refine ⟨.rcvFrame 1, ?_, hConf, by decide⟩
    rw [hToRcv, cfFrames_cons hLt]
    intro hNil
    cases hNil

theorem SndWaits.not_stuck
    {fc : CanFrame} (h : SndWaits b l.snd l.sndConf) (hToSnd : l.toSnd = [fc]) :
    ∃ e : LinkEvent, e.Possible l := by
  have hConfirm : l.sndConf = [l.snd.tx.txHandle] → ∃ e : LinkEvent, e.Possible l := by
    intro hConf
    refine ⟨.sndConf, ?_⟩
    intro hNil
    rw [hConf] at hNil
    cases hNil
  cases h with
  | waiting _ hConf =>
    refine ⟨.sndFrame 1, ?_, hConf, by decide⟩
    rw [hToSnd]
    intro hNil
    cases hNil
  | first _ hConf => exact hConfirm hConf
  | block _ hConf _ _ _ => exact hConfirm hConf

/- The transfer only stops when the message was delivered. -/
theorem LinkInv.delivered
    (hInv : LinkInv a b m l) (hStuck : ∀ e : LinkEvent, ¬ e.Possible l) :
    Delivered b m l := by
  have hMoves : (∃ e : LinkEvent, e.Possible l) → Delivered b m l := by
    rintro ⟨e, he⟩
    exact absurd he (hStuck e)
  have hConfirm : l.sndConf = [l.snd.tx.txHandle] → Delivered b m l := by
    intro hConf
    refine hMoves ⟨.sndConf, ?_⟩
    intro hNil
    rw [hConf] at hNil
    cases hNil
  cases hInv with
  | start hStart =>
    refine hMoves ⟨.sendFrame 1, ?_, by decide⟩
    rw [hStart]
    rfl
  | single h =>
    rcases h.snd with ⟨_, hConf⟩ | ⟨hIdle, _⟩
    · exact hConfirm hConf
    rcases h.rcv with ⟨_, sf, _, _, hToRcv, _⟩ | ⟨hDone, _⟩
    · refine hMoves ⟨.rcvFrame 1, ?_, h.rcvConf, by decide⟩
      rw [hToRcv]
      intro hNil
      cases hNil
    · exact ⟨hDone.handed, hIdle, h.rx, hDone.tx, hDone.rx⟩
  | first h =>
    refine hMoves ⟨.rcvFrame 1, ?_, h.rcvConf, by decide⟩
    rw [h.toRcv]
    intro hNil
    cases hNil
  | cleared j h =>
    rcases h.toSnd with ⟨fc, hToSnd, _⟩
    exact hMoves (h.snd.not_stuck hToSnd)
  | sending j k h =>
    cases h.snd with
    | next hState hTimer _ _ _ => exact hMoves ⟨.sndGap 1, hState, hTimer, by decide⟩
    | sent _ hConf => exact hConfirm hConf
    | waiting _ _ _ _ _ hBehind => exact hMoves (h.rcv.not_stuck h.toRcv hBehind)
  | sent j k h =>
    have hLt : k < j := by
      apply Nat.lt_of_le_of_ne h.le
      rintro rfl
      have hRest := h.rest
      rw [h.last] at hRest
      omega
    exact hMoves (h.rcv.not_stuck h.toRcv hLt)
  | received j h => exact hConfirm h.sndConf
  | done h => exact ⟨h.rcv.handed, h.snd.tx, h.snd.rx, h.rcv.tx, h.rcv.rx⟩

instance
    (l : IsotpLink) (e : LinkEvent) :
    Decidable (e.Possible l) := by
  cases e <;> unfold LinkEvent.Possible <;> infer_instance

instance
    (a b : Isotp) (m : List UInt8) (l : IsotpLink) (e : LinkEvent) :
    Decidable ((transferSystem a b m).Enabled l e) :=
  inferInstanceAs (Decidable (e.Possible l))

/- Every event of a run takes from the work. -/
theorem LinkInv.run
    {l' : IsotpLink} {es : List LinkEvent} (hPaired : Paired a b m)
    (hInv : LinkInv a b m l)
    (hRun : (transferSystem a b m).runVia (fun _ _ => True) l es = some l') :
    LinkInv a b m l' ∧ es.length + l'.work m.length ≤ l.work m.length := by
  induction es generalizing l with
  | nil =>
    cases hRun
    exact ⟨hInv, Nat.le_of_eq (Nat.zero_add _)⟩
  | cons e es ih =>
    unfold System.runVia at hRun
    split at hRun
    · rename_i hBoth
      rcases hInv.steps hPaired hBoth.2 with ⟨mid, hExec, hMid, hLess⟩
      rcases Option.bind_eq_some_iff.mp hRun with ⟨mid', hExec', hRest⟩
      have hSame : some mid = some mid' := hExec.symm.trans hExec'
      cases hSame
      rcases ih hMid hRest with ⟨hLast, hLe⟩
      refine ⟨hLast, ?_⟩
      rw [List.length_cons]
      omega
    · cases hRun

/-
  Every run of a transfer is finite, no event in it fails, and
  when nothing can happen any more the receiver got the message
  once and both sides are idle.
-/
theorem isotp_transfer
    {es : List LinkEvent} (hPaired : Paired a b m)
    (hRun : (transferSystem a b m).runVia (fun _ _ => True) (linkStart a b m) es = some l) :
    es.length ≤ 5 * m.length + 5 ∧ (∀ e : LinkEvent, e.Possible l → ∃ l', l.exec e = some l') ∧
      ((∀ e : LinkEvent, ¬ e.Possible l) → Delivered b m l) := by
  rcases LinkInv.run hPaired (.start rfl) hRun with ⟨hInv, hWork⟩
  refine ⟨?_, ?_, hInv.delivered⟩
  · have hStart : (linkStart a b m).work m.length = 5 * m.length + 5 := by
      have hIdx : (linkStart a b m).snd.tx.idx = 0 := by
        unfold linkStart
        rw [isotpSend_start hPaired]
      unfold IsotpLink.work
      rw [hIdx]
      simp only [linkStart, List.length_nil, if_true]
      omega
    omega
  · intro e hPossible
    rcases hInv.steps hPaired hPossible with ⟨l', hExec, _⟩
    exact ⟨l', hExec⟩

end

/- The peer of a channel with the plain options. -/
def peerOptions : IsotpOptions :=
  { plainOptions with txId := 2, rxId := 1 }

def tenBytes : List UInt8 :=
  [1, 2, 3, 4, 5, 6, 7, 8, 9, 10]

theorem isotp_transfer_tenBytes :
    ∃ l,
      (transferSystem (isotpBind plainOptions oneByOne)
          (isotpBind peerOptions oneByOne) tenBytes).runVia
            (fun _ _ => True)
            (linkStart (isotpBind plainOptions oneByOne) (isotpBind peerOptions oneByOne) tenBytes)
            [.sendFrame 1, .sndConf, .rcvFrame 1, .rcvConf,
              .sndFrame 2, .sndGap 2, .rcvFrame 2, .sndConf] = some l ∧
        Delivered (isotpBind peerOptions oneByOne) tenBytes l := by
  have hPaired :
      Paired (isotpBind plainOptions oneByOne) (isotpBind peerOptions oneByOne) tenBytes :=
    ⟨rfl, rfl, rfl, rfl, rfl, rfl, rfl, rfl, rfl, rfl,
      (fun hExt => by cases hExt), rfl, by decide, by decide⟩
  have hRun :
      ((transferSystem (isotpBind plainOptions oneByOne)
          (isotpBind peerOptions oneByOne) tenBytes).runVia
            (fun _ _ => True)
            (linkStart (isotpBind plainOptions oneByOne) (isotpBind peerOptions oneByOne) tenBytes)
            [.sendFrame 1, .sndConf, .rcvFrame 1, .rcvConf, .sndFrame 2, .sndGap 2, .rcvFrame 2,
              .sndConf]).any
        (fun l => decide
          (l.sendFrame = false ∧ l.sndConf = [] ∧ l.rcvConf = [] ∧ l.toSnd = [] ∧ l.toRcv = [] ∧
            l.snd.tx.state = .idle)) = true := by
    decide +kernel
  rcases (Option.any_eq_true _ _).mp hRun with ⟨l, hl, hEnd⟩
  rcases of_decide_eq_true hEnd with ⟨hSend, hSndConf, hRcvConf, hToSnd, hToRcv, hIdle⟩
  refine ⟨l, hl, (isotp_transfer hPaired hl).2.2 ?_⟩
  intro e hPossible
  cases e with
  | sendFrame handle => exact absurd (hSend.symm.trans hPossible.1) Bool.false_ne_true
  | sndConf => exact hPossible hSndConf
  | rcvConf => exact hPossible hRcvConf
  | sndFrame handle => exact hPossible.1 hToSnd
  | rcvFrame handle => exact hPossible.1 hToRcv
  | sndGap handle =>
    have hNext := hPossible.1
    rw [hIdle] at hNext
    cases hNext

end Riot
