import Riot.Net.TcpReferences

/-
  The three-way handshake.

  A client compares the acknowledgement of its SYN with its
  initial sequence number as a plain number. The comparison is
  wrong for the largest number, whose successor is 0.
-/

----
-- The Property
----

namespace Riot

/- The options of a segment can be parsed. -/
def TcpSegment.WellFormed
    (seg : TcpSegment) : Prop :=
  ∀ mss, (optionParse seg.options.length mss seg.options).2 = true

/-
  A client that sent its SYN and receives a SYN+ACK of the peer
  that acknowledges it.
-/
def ClientEstablished
    (cfg : TcpConfig) (iss irs : UInt32) : Prop :=
  ∀ env t t₁, t.Balanced → t.passive = false → env.random = iss → env.alloc t.nextId = true →
    fsmCallOpen cfg env t = some (t₁, .success) → ∀ env' seg,
      seg.WellFormed → seg.ctl.syn = true → seg.ctl.ack = true → seg.ctl.rst = false →
      seg.seqNum = irs → seg.ackNum = iss + 1 → ∃ t₂, fsmRcvdPkt cfg env' t₁ seg = some t₂ ∧
        t₂.state = .established ∧ t₂.sndUna = iss + 1 ∧ t₂.rcvNxt = irs + 1

/-
  A listening peer that receives the SYN of a client, sends its
  SYN+ACK, and receives the ACK of the client.
-/
def PeerEstablished
    (cfg : TcpConfig) (iss irs : UInt32) : Prop :=
  ∀ env t, t.Balanced → t.state = .listen → env.random = irs →
    env.synRefused = false → env.alloc t.nextId = true → ∀ syn,
      syn.WellFormed → syn.ctl.syn = true → syn.ctl.ack = false → syn.ctl.rst = false →
      syn.seqNum = iss → ∃ t₁, fsmRcvdPkt cfg env t syn = some t₁ ∧ ∀ env' seg,
          seg.WellFormed → seg.ctl.ack = true → seg.ctl.syn = false → seg.ctl.rst = false →
          seg.ctl.fin = false → seg.payload = [] → seg.seqNum = iss + 1 → seg.ackNum = irs + 1 →
          ∃ t₂, fsmRcvdPkt cfg env' t₁ seg = some t₂ ∧ t₂.state = .established

/- The handshake for two initial sequence numbers. -/
structure HandshakeCompletes
    (cfg : TcpConfig)
    (iss irs : UInt32) : Prop where
  client : ClientEstablished cfg iss irs
  peer : PeerEstablished cfg iss irs

----
-- Sequence Numbers
----

theorem lss32Bit_add
    (x : UInt32) {y : UInt32} (hPos : 0 < y.toNat) (hLe : y.toNat ≤ 2 ^ 31) :
    lss32Bit x (x + y) = true := by
  rw [lss32Bit_iff]
  have hSub : (x - (x + y)).toNat = 2 ^ 32 - y.toNat := by
    rw [UInt32.toNat_sub, UInt32.toNat_add]
    omega
  omega

theorem leq32Bit_self
    (x : UInt32) :
    leq32Bit x x = true :=
  (leq32Bit_iff x x).mpr (Or.inl rfl)

/- The successor of the largest number is 0. -/
theorem add_one_le_iff
    (x : UInt32) :
    x + 1 ≤ x ↔ x = 0xffffffff := by
  have hx := x.toNat_lt
  rw [UInt32.le_iff_toNat_le, ← UInt32.toNat_inj, UInt32.toNat_add]
  have hOne : (1 : UInt32).toNat = 1 := rfl
  have hMax : (0xffffffff : UInt32).toNat = 2 ^ 32 - 1 := rfl
  omega

----
-- The Client
----

section

variable {cfg : TcpConfig} {env : TcpEnv} {t t₁ : Tcb} {seg : TcpSegment}

/- Options can change nothing but the segment size. -/
theorem fsmRcvdPkt_synSent
    (hWell : seg.WellFormed) (hState : t.state = .synSent) :
    ∃ mss, fsmRcvdPkt cfg env t seg = rcvdSynSent cfg env { t with mss := mss } seg := by
  unfold fsmRcvdPkt
  dsimp only
  rw [if_pos (hWell t.mss), hState]
  exact ⟨_, rfl⟩

theorem fsmRcvdPkt_listen
    (hWell : seg.WellFormed) (hState : t.state = .listen) :
    ∃ mss, fsmRcvdPkt cfg env t seg = rcvdListen cfg env { t with mss := mss } seg := by
  unfold fsmRcvdPkt
  dsimp only
  rw [if_pos (hWell t.mss), hState]
  exact ⟨_, rfl⟩

theorem fsmRcvdPkt_synRcvd
    (hWell : seg.WellFormed) (hState : t.state = .synRcvd) :
    ∃ mss, fsmRcvdPkt cfg env t seg = rcvdOther cfg env { t with mss := mss } seg := by
  unfold fsmRcvdPkt
  dsimp only
  rw [if_pos (hWell t.mss), hState]
  exact ⟨_, rfl⟩

/- A client in SYN_SENT that waits for its acknowledgement. -/
structure Tcb.AwaitsSynAck
    (t : Tcb)
    (iss : UInt32) : Prop where
  balanced : t.Balanced
  state_eq : t.state = .synSent
  iss_eq : t.iss = iss
  sndNxt_eq : t.sndNxt = iss + 1

theorem fsmCallOpen_synSent
    (hBalanced : t.Balanced) (hActive : t.passive = false)
    (hAlloc : env.alloc t.nextId = true)
    (hOpen : fsmCallOpen cfg env t = some (t₁, .success)) :
    t₁.AwaitsSynAck env.random := by
  unfold fsmCallOpen at hOpen
  split at hOpen
  · cases hOpen
  · rename_i t₀ hBuffer
    have hSame : ∃ raw buf, t₀ = { t with rcvBufRaw := raw, rcvBuf := buf } := by
      unfold rcvbufGetBuffer at hBuffer
      split at hBuffer
      · cases hBuffer
        exact ⟨t.rcvBufRaw, t.rcvBuf, rfl⟩
      · rcases Option.map_eq_some_iff.mp hBuffer with ⟨buf, _, rfl⟩
        exact ⟨_, _, rfl⟩
    rcases hSame with ⟨raw, buf, rfl⟩
    dsimp only at hOpen
    rw [if_neg (by simp [hActive])] at hOpen
    split at hOpen
    · rcases Option.map_eq_some_iff.mp hOpen with ⟨_, _, hEq⟩
      cases hEq
    · rw [transitionTo_of_ne (by decide)] at hOpen
      rcases Option.map_eq_some_iff.mp hOpen with ⟨t₂, hSend, hEq⟩
      cases hEq
      rcases @buildQueueSend_spec cfg env
          { t with
            rcvBufRaw := raw
            rcvBuf := buf
            rcvWnd := cfg.defaultWindow
            iss := env.random
            sndNxt := env.random
            sndUna := env.random
            state := .synSent }
          ⟨hBalanced.owned_eq, hBalanced.fresh, hBalanced.resent⟩
          { TcpCtl.none with syn := true } env.random 0 [] with
        ⟨owned, sent, hSpec, hNext⟩
      cases hSpec.symm.trans hSend
      refine ⟨hNext, rfl, rfl, ?_⟩
      simp only [Tcb.rebook, advance, hAlloc, if_true]
      rfl

theorem rcvdSynSent_established
    {iss : UInt32} (hAwaits : t.AwaitsSynAck iss) (hIss : iss ≠ 0xffffffff)
    (hSyn : seg.ctl.syn = true) (hAck : seg.ctl.ack = true)
    (hRst : seg.ctl.rst = false) (hAckNum : seg.ackNum = iss + 1) :
    ∃ t₂, rcvdSynSent cfg env t seg = some t₂ ∧ t₂.state = .established ∧ t₂.sndUna = iss + 1 ∧
      t₂.rcvNxt = seg.seqNum + 1 := by
  have hEq := hAwaits.iss_eq
  subst hEq
  have hGt : t.iss + 1 > t.iss := by
    apply UInt32.not_le.mp
    rw [add_one_le_iff]
    exact hIss
  unfold rcvdSynSent
  rw [hAckNum, hAwaits.sndNxt_eq, if_neg (by simp [hGt]), if_neg (by simp [hRst]), if_pos hSyn]
  unfold rcvdSynSentSyn
  rcases @pktAcknowledge_spec
      { t with rcvNxt := seg.seqNum + 1, irs := seg.seqNum, sndUna := t.iss + 1 }
      ⟨hAwaits.balanced.owned_eq, hAwaits.balanced.fresh, hAwaits.balanced.resent⟩ (t.iss + 1) with
    ⟨hAcked, hBalanced⟩
  simp only [hAck, hAckNum, if_true, hAcked, Option.bind_eq_bind, Option.bind_some, Tcb.rebook, hGt]
  rcases @sendAck_spec cfg env _ hBalanced with ⟨owned, sent, hSend, _⟩
  simp only [Tcb.rebook] at hSend
  rw [hSend, Option.bind_some, transitionTo_of_ne (by decide)]
  exact ⟨_, rfl, rfl, rfl, rfl⟩

/- The acknowledgement 0 is answered with a reset. -/
theorem rcvdSynSent_reset
    (hAwaits : t.AwaitsSynAck 0xffffffff) (hAck : seg.ctl.ack = true)
    (hRst : seg.ctl.rst = false) (hAckNum : seg.ackNum = 0xffffffff + 1) :
    ∃ t₂, rcvdSynSent cfg env t seg = some t₂ ∧ t₂.state = .synSent := by
  unfold rcvdSynSent
  rw [hAckNum, hAwaits.iss_eq, if_pos (by simp [hAck]), if_neg (by simp [hRst])]
  rcases @buildSend_spec cfg env t hAwaits.balanced
      { TcpCtl.none with rst := true } (0xffffffff + 1) 0 [] with
    ⟨owned, sent, hSend, _⟩
  exact ⟨_, hSend, hAwaits.state_eq⟩

----
-- The Peer
----

/- A peer in SYN_RCVD that waits for its acknowledgement. -/
structure Tcb.AwaitsAck
    (t : Tcb)
    (iss rcvNxt : UInt32) : Prop where
  balanced : t.Balanced
  state_eq : t.state = .synRcvd
  sndUna_eq : t.sndUna = iss
  sndNxt_eq : t.sndNxt = iss + 1
  rcvNxt_eq : t.rcvNxt = rcvNxt

theorem rcvdListen_synRcvd
    (hBalanced : t.Balanced) (hRefused : env.synRefused = false)
    (hAlloc : env.alloc t.nextId = true) (hSyn : seg.ctl.syn = true)
    (hAck : seg.ctl.ack = false) (hRst : seg.ctl.rst = false) :
    ∃ t₁, rcvdListen cfg env t seg = some t₁ ∧ t₁.AwaitsAck env.random (seg.seqNum + 1) := by
  unfold rcvdListen
  rw [if_neg (by simp [hRst]), if_neg (by simp [hAck]), if_pos hSyn, if_neg (by simp [hRefused])]
  dsimp only
  rcases @buildQueueSend_spec cfg env
      { t with
        irs := seg.seqNum
        rcvNxt := seg.seqNum + 1
        iss := env.random
        sndUna := env.random
        sndNxt := env.random
        sndWnd := seg.window }
      ⟨hBalanced.owned_eq, hBalanced.fresh, hBalanced.resent⟩
      { TcpCtl.none with syn := true, ack := true } env.random (seg.seqNum + 1) [] with
    ⟨owned, sent, hSend, hNext⟩
  rw [hSend, Option.bind_some, transitionTo_of_ne (by decide)]
  refine ⟨_, rfl, ⟨hNext.owned_eq, hNext.fresh, hNext.resent⟩, rfl, rfl, ?_, rfl⟩
  simp only [Tcb.rebook, advance, hAlloc, if_true]
  rfl

/- An empty segment at the expected number is acceptable. -/
theorem pktChkSeqNum_next
    (t : Tcb) :
    pktChkSeqNum t t.rcvNxt 0 = false := by
  unfold pktChkSeqNum
  by_cases hWnd : t.rcvWnd = 0
  · simp [hWnd]
  · have hPos : 0 < t.rcvWnd.toUInt32.toNat := by
      rw [UInt16.toNat_toUInt32]
      apply Nat.pos_of_ne_zero
      intro hZero
      exact hWnd (UInt16.toNat_inj.mp hZero)
    have hLe : t.rcvWnd.toUInt32.toNat ≤ 2 ^ 31 := by
      rw [UInt16.toNat_toUInt32]
      have hLt := t.rcvWnd.toNat_lt
      omega
    have hGt : t.rcvWnd > 0 := by
      apply UInt16.lt_iff_toNat_lt.mpr
      rw [UInt16.toNat_toUInt32] at hPos
      exact hPos
    simp [insideWnd, leq32Bit_self, lss32Bit_add _ hPos hLe, hGt]

theorem checkFinAcked_established
    (hState : t.state = .established) :
    checkFinAcked t = some (t, true) := by
  unfold checkFinAcked
  rw [hState]
  split <;> rfl

theorem updateSndWnd_state :
    (updateSndWnd t seg).state = t.state := by
  unfold updateSndWnd
  split <;> rfl

theorem rcvdOther_synRcvd
    {iss : UInt32} (hAwaits : t.AwaitsAck iss seg.seqNum)
    (hAck : seg.ctl.ack = true) (hSyn : seg.ctl.syn = false)
    (hRst : seg.ctl.rst = false) (hFin : seg.ctl.fin = false)
    (hPayload : seg.payload = []) (hAckNum : seg.ackNum = iss + 1) :
    ∃ t₂, rcvdOther cfg env t seg = some t₂ ∧ t₂.state = .established := by
  have hLen : pktGetPayLen seg = 0 := by
    rw [pktGetPayLen, hPayload]
    rfl
  have hChk := pktChkSeqNum_next t
  rw [hAwaits.rcvNxt_eq] at hChk
  have hNew : lss32Bit iss (iss + 1) = true := lss32Bit_add iss (by decide) (by decide)
  unfold rcvdOther
  rw [hLen, if_neg (by simp [hChk]), if_neg (by simp [hRst]), if_neg (by simp [hSyn]), if_pos hAck]
  unfold rcvdAck rcvdAckSynRcvd
  rw [if_pos hAwaits.state_eq, hAckNum, hAwaits.sndUna_eq, hAwaits.sndNxt_eq,
    if_pos (by simp [hNew, leq32Bit_self]), transitionTo_of_ne (by decide)]
  rcases @pktAcknowledge_spec
      { t with
        sndWnd := seg.window
        sndWl1 := seg.seqNum
        sndWl2 := iss + 1
        state := .established
        sndUna := iss + 1
        sndNxt := iss + 1 }
      ⟨hAwaits.balanced.owned_eq, hAwaits.balanced.fresh, hAwaits.balanced.resent⟩ (iss + 1) with
    ⟨hAcked, _⟩
  simp only [Option.bind_eq_bind, Option.bind_some, FsmState.takesAck, if_true, hAwaits.sndUna_eq,
    hAwaits.sndNxt_eq, hNew, leq32Bit_self, Bool.and_self, hAcked]
  rw [checkFinAcked_established updateSndWnd_state]
  simp only [Option.bind_some, if_true, rcvdPayload, hLen, rcvdFin, hFin]
  refine ⟨_, rfl, updateSndWnd_state⟩

end

----
-- The Handshake
----

theorem clientEstablished_of_ne
    {cfg : TcpConfig} {iss irs : UInt32} (hIss : iss ≠ 0xffffffff) :
    ClientEstablished cfg iss irs := by
  intro env t t₁ hBalanced hActive hRandom hAlloc hOpen env' seg hWell hSyn hAck hRst hSeq hAckNum
  have hAwaits := fsmCallOpen_synSent hBalanced hActive hAlloc hOpen
  rw [hRandom] at hAwaits
  rcases @fsmRcvdPkt_synSent cfg env' t₁ seg hWell hAwaits.state_eq with ⟨mss, hRcvd⟩
  rw [hRcvd, ← hSeq]
  apply rcvdSynSent_established _ hIss hSyn hAck hRst hAckNum
  exact ⟨⟨hAwaits.balanced.owned_eq, hAwaits.balanced.fresh,
      hAwaits.balanced.resent⟩, hAwaits.state_eq, hAwaits.iss_eq, hAwaits.sndNxt_eq⟩

theorem peerEstablished
    (cfg : TcpConfig) (iss irs : UInt32) :
    PeerEstablished cfg iss irs := by
  intro env t hBalanced hState hRandom hRefused hAlloc syn hWell hSyn hAck hRst hSeq
  rcases @fsmRcvdPkt_listen cfg env t syn hWell hState with ⟨mss, hRcvd⟩
  rcases @rcvdListen_synRcvd cfg env { t with mss := mss } syn
      ⟨hBalanced.owned_eq, hBalanced.fresh, hBalanced.resent⟩
      hRefused hAlloc hSyn hAck hRst with
    ⟨t₁, hListen, hAwaits⟩
  refine ⟨t₁, hRcvd.trans hListen, ?_⟩
  rw [hRandom, hSeq] at hAwaits
  intro env' seg hWell' hAck' hSyn' hRst' hFin' hPayload' hSeq' hAckNum'
  rcases @fsmRcvdPkt_synRcvd cfg env' t₁ seg hWell' hAwaits.state_eq with ⟨mss', hRcvd'⟩
  rw [hRcvd']
  apply rcvdOther_synRcvd _ hAck' hSyn' hRst' hFin' hPayload' hAckNum'
  exact ⟨⟨hAwaits.balanced.owned_eq, hAwaits.balanced.fresh,
      hAwaits.balanced.resent⟩, hAwaits.state_eq, hAwaits.sndUna_eq, hAwaits.sndNxt_eq,
      hAwaits.rcvNxt_eq.trans hSeq'.symm⟩

theorem exists_fsmCallOpen_init
    (cfg : TcpConfig) (iss : UInt32) :
    ∃ t₁, fsmCallOpen cfg (roomyTcpEnv iss) Tcb.init = some (t₁, .success) := by
  rcases @buildQueueSend_spec cfg (roomyTcpEnv iss)
      { Tcb.init with
        rcvBufRaw := true
        rcvBuf := Ringbuffer.init (fun _ => 0) cfg.rcvBufSize
        rcvWnd := cfg.defaultWindow
        iss := iss
        sndNxt := iss
        sndUna := iss
        state := .synSent }
      ⟨rfl, by simp [Tcb.init], by simp [Tcb.init]⟩
      { TcpCtl.none with syn := true } iss 0 [] with
    ⟨owned, sent, hSend, _⟩
  have hOpen := congrArg (Option.map (fun t => (t, OpenResult.success))) hSend
  exact ⟨_, hOpen⟩

/- The SYN+ACK of a peer. -/
def synAckSegment
    (irs ackNum : UInt32) : TcpSegment where
  ctl :=
    { TcpCtl.none with syn := true, ack := true }
  seqNum := irs
  ackNum := ackNum
  window := 1220
  options := []
  payload := []

theorem not_clientEstablished
    (cfg : TcpConfig) (irs : UInt32) :
    ¬ ClientEstablished cfg 0xffffffff irs := by
  intro hClient
  rcases exists_fsmCallOpen_init cfg 0xffffffff with ⟨t₁, hOpen⟩
  have hWell : (synAckSegment irs (0xffffffff + 1)).WellFormed := fun _ => rfl
  rcases hClient (roomyTcpEnv 0xffffffff) Tcb.init t₁
      Tcb.balanced_init rfl rfl rfl hOpen
      (roomyTcpEnv 0) (synAckSegment irs (0xffffffff + 1)) hWell
      rfl rfl rfl rfl rfl with
    ⟨t₂, hRcvd, hState, _⟩
  have hAwaits := fsmCallOpen_synSent Tcb.balanced_init rfl rfl hOpen
  rcases @fsmRcvdPkt_synSent cfg (roomyTcpEnv 0) t₁ _ hWell hAwaits.state_eq with ⟨mss, hEq⟩
  rcases @rcvdSynSent_reset cfg (roomyTcpEnv 0)
      { t₁ with mss := mss }
      (synAckSegment irs (0xffffffff + 1))
      ⟨⟨hAwaits.balanced.owned_eq, hAwaits.balanced.fresh,
        hAwaits.balanced.resent⟩, hAwaits.state_eq, hAwaits.iss_eq, hAwaits.sndNxt_eq⟩
      rfl rfl rfl with
    ⟨t₃, hReset, hSynSent⟩
  rw [hEq, hReset] at hRcvd
  cases hRcvd
  rw [hSynSent] at hState
  cases hState

end Riot
