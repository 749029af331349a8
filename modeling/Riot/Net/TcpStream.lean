import Riot.Net.TcpReceive

/-
  The stream of bytes that a connection receives.

  The bytes handed to the user are a prefix of what the peer
  sends, and the next sequence number follows what is stored, as
  long as every FIN that is processed is in order and its
  payload fits.
-/

----
-- The Stream
----

namespace Riot

/- The sequence number of a byte of the stream. -/
def seqAt
    (irs : UInt32) (p : Nat) : UInt32 :=
  irs + 1 + UInt32.ofNat p

/-
  A segment that carries the bytes of a stream from position
  `p` on. Positions are told apart as long as they are within
  one round of the sequence numbers.
-/
structure TcpSegment.Carries
    (seg : TcpSegment) (irs : UInt32) (stream : List UInt8)
    (stored p : Nat) : Prop where
  seqNum_eq : seg.seqNum = seqAt irs p
  payload : seg.payload.flatten <+: stream.drop p
  fin : seg.ctl.fin = true → p + seg.payload.flatten.length = stream.length
  short : seg.payload.flatten.length < 2 ^ 32
  notOld : stored + 1 < p + 2 ^ 32
  notNew : p < stored + 2 ^ 32

/- A connection, and what its user received. -/
structure TcpStream where
  tcb : Tcb
  delivered : List UInt8
  -- whether a FIN was received just behind what is stored
  fin : Bool

/- All bytes that were stored. -/
def TcpStream.stored
    (s : TcpStream) : List UInt8 :=
  s.delivered ++ s.tcb.rcvBuf.contents

/- The FIN of the segment is just behind what is stored. -/
def TcpStream.finAt
    (irs : UInt32) (s : TcpStream) (seg : TcpSegment) : Bool :=
  seg.ctl.fin && (seg.seqNum + pktGetPayLen seg == seqAt irs s.stored.length)

def streamExec
    (cfg : TcpConfig) (irs : UInt32)
    (s : TcpStream) : TcpEvent → Option TcpStream
| .callRecv env len =>
  (fsmCallRecv cfg env s.tcb len).map (fun r =>
    { s with tcb := r.1, delivered := s.delivered ++ r.2 })
| .rcvdPkt env seg =>
  (fsmRcvdPkt cfg env s.tcb seg).map (fun t =>
    { s with tcb := t, fin := s.fin || TcpStream.finAt irs { s with tcb := t } seg })
| e => (tcpExec cfg s.tcb e).map (fun r => { s with tcb := r.1 })

/- The user may receive after the FIN, but not open again. -/
def streamEnabled
    (irs : UInt32) (stream : List UInt8)
    (s : TcpStream) : TcpEvent → Prop
| .callOpen _ _ => False
| .callRecv _ _ => s.tcb.state.phase = .receiving ∨ s.tcb.state = .closeWait
| .rcvdPkt _ seg => ∃ p, seg.Carries irs stream s.stored.length p
| _ => True

/- A connection that has stored the first bytes of a stream. -/
structure StreamStart
    (irs : UInt32) (stream : List UInt8)
    (s : TcpStream) : Prop where
  balanced : s.tcb.Balanced
  receiving : s.tcb.state.phase = .receiving
  irs_eq : s.tcb.irs = irs
  ring : s.tcb.rcvBuf.Ok
  stored : s.stored <+: stream
  rcvNxt_eq : s.tcb.rcvNxt = seqAt irs s.stored.length
  fin : s.fin = false

def streamSystem
    (cfg : TcpConfig) (irs : UInt32)
    (stream : List UInt8) : System TcpStream TcpEvent where
  Start := StreamStart irs stream
  Enabled := streamEnabled irs stream
  exec := streamExec cfg irs

/-
  What is said of a state: the user received a prefix of the
  stream, and the next sequence number is the one behind what
  is stored, or behind a FIN that came right after it.
-/
structure StreamSound
    (irs : UInt32) (stream : List UInt8)
    (s : TcpStream) : Prop where
  delivered : s.delivered <+: stream
  rcvNxt :
    s.tcb.rcvNxt = seqAt irs s.stored.length ∨
      (s.fin = true ∧ s.tcb.rcvNxt = seqAt irs s.stored.length + 1)

/- A FIN that is processed is in order and its payload fits. -/
def TcpEvent.FinInOrder
    (t : Tcb) : TcpEvent → Prop
| .rcvdPkt _ seg =>
  t.ReachesFin seg → seg.seqNum = t.rcvNxt ∧ seg.payload.flatten.length ≤ t.rcvBuf.getFree
| _ => True

----
-- The Invariant
----

/- What was received, before and after the FIN. -/
structure StreamHolds
    (irs : UInt32) (stream : List UInt8)
    (s : TcpStream) : Prop where
  balanced : s.tcb.Balanced
  ring : s.tcb.rcvBuf.Ok
  stored : s.stored <+: stream
  next :
    (s.tcb.rcvNxt = seqAt irs s.stored.length ∧
      (s.tcb.state.phase = .receiving ∨ s.tcb.state.phase = .closed)) ∨
    (s.fin = true ∧ s.stored = stream ∧ s.tcb.rcvNxt = seqAt irs s.stored.length + 1 ∧
      (s.tcb.state.phase = .finished ∨ s.tcb.state.phase = .closed))

section

variable {cfg : TcpConfig} {irs : UInt32} {stream : List UInt8} {s : TcpStream}
variable {t : Tcb} {seg : TcpSegment}

theorem seqAt_add
    (p n : Nat) :
    seqAt irs p + UInt32.ofNat n = seqAt irs (p + n) := by
  rw [seqAt, seqAt, UInt32.ofNat_add, UInt32.add_assoc]

/- Positions within one round are told apart. -/
theorem seqAt_inj
    {p q : Nat} (hEq : seqAt irs p = seqAt irs q) (hLt : p < q + 2 ^ 32)
    (hLt' : q < p + 2 ^ 32) :
    p = q := by
  have hNat := congrArg UInt32.toNat (UInt32.add_right_inj _ |>.mp hEq)
  rw [UInt32.toNat_ofNat', UInt32.toNat_ofNat'] at hNat
  omega

theorem pktGetPayLen_eq
    (seg : TcpSegment) :
    pktGetPayLen seg = UInt32.ofNat seg.payload.flatten.length := by
  rw [pktGetPayLen, List.length_flatten]

theorem StreamHolds.sound
    (h : StreamHolds irs stream s) :
    StreamSound irs stream s := by
  refine ⟨(List.prefix_append ..).trans h.stored, ?_⟩
  rcases h.next with ⟨hNxt, _⟩ | ⟨hFin, _, hNxt, _⟩
  · exact Or.inl hNxt
  · exact Or.inr ⟨hFin, hNxt⟩

theorem StreamStart.holds
    (h : StreamStart irs stream s) :
    StreamHolds irs stream s :=
  ⟨h.balanced, h.ring, h.stored, Or.inl ⟨h.rcvNxt_eq, Or.inl h.receiving⟩⟩

section

variable (h : StreamHolds irs stream s)

include h

theorem StreamHolds.phase_ne :
    s.tcb.state.phase ≠ .opening := by
  intro hOpening
  have hNext := h.next
  rw [hOpening] at hNext
  rcases hNext with ⟨_, hPhase | hPhase⟩ | ⟨_, _, _, hPhase | hPhase⟩
  all_goals cases hPhase

/- Nothing is received. -/
theorem StreamHolds.same
    (hSame : s.tcb.SameStream t) (fin : Bool) :
    StreamHolds irs stream { s with
        tcb := t
        fin := s.fin || fin } := by
  have hStored : s.delivered ++ t.rcvBuf.contents = s.stored := by
    rw [hSame.rcvBuf_eq]
    rfl
  refine ⟨hSame.balanced, ?_, ?_, ?_⟩
  · dsimp only
    rw [hSame.rcvBuf_eq]
    exact h.ring
  · rw [TcpStream.stored, hStored]
    exact h.stored
  · rw [TcpStream.stored, hStored]
    dsimp only
    rw [hSame.rcvNxt_eq]
    rcases h.next with ⟨hNxt, hPhase⟩ | ⟨hFin, hAll, hNxt, hPhase⟩
    · refine Or.inl ⟨hNxt, ?_⟩
      rcases hSame.phase with hClosed | hPhase'
      · exact Or.inr hClosed
      · rw [hPhase']
        exact hPhase
    · refine Or.inr ⟨by rw [hFin]; rfl, hAll, hNxt, ?_⟩
      rcases hSame.phase with hClosed | hPhase'
      · exact Or.inr hClosed
      · rw [hPhase']
        exact hPhase

/- Before the FIN, the payload is stored as far as it fits. -/
theorem StreamHolds.received_spec
    {p : Nat} (hPhase : s.tcb.state.phase = .receiving)
    (hCarries : seg.Carries irs stream s.stored.length p) :
    (received s.tcb seg).1.Ok ∧ s.tcb.rcvNxt = seqAt irs s.stored.length ∧ ∃ k,
      s.delivered ++ (received s.tcb seg).1.contents = s.stored ++ seg.payload.flatten.take k ∧
      s.stored ++ seg.payload.flatten.take k <+: stream ∧
      (received s.tcb seg).2 = seqAt irs (s.stored ++ seg.payload.flatten.take k).length ∧
      (seg.seqNum = s.tcb.rcvNxt → seg.payload.flatten.length ≤ s.tcb.rcvBuf.getFree →
        s.stored.length = p ∧ seg.payload.flatten.take k = seg.payload.flatten) := by
  have hNxt : s.tcb.rcvNxt = seqAt irs s.stored.length := by
    rcases h.next with ⟨hNxt, _⟩ | ⟨_, _, _, hFinished⟩
    · exact hNxt
    · rw [hPhase] at hFinished
      rcases hFinished with hFinished | hFinished
      all_goals cases hFinished
  have hPos : seg.seqNum = s.tcb.rcvNxt → s.stored.length = p := by
    intro hSeq
    rw [hNxt, hCarries.seqNum_eq] at hSeq
    exact (seqAt_inj hSeq hCarries.notNew (by have := hCarries.notOld; omega)).symm
  by_cases hTaken : pktGetPayLen seg > 0 ∧ s.tcb.rcvNxt = seg.seqNum
  · have hp := hPos hTaken.2.symm
    rcases addSnips_spec s.tcb.rcvNxt seg.payload h.ring with ⟨hOk, hContents, hNext⟩
    rw [received, if_pos hTaken]
    refine ⟨hOk, hNxt, min seg.payload.flatten.length s.tcb.rcvBuf.getFree, ?_, ?_, ?_, ?_⟩
    · rw [hContents, ← List.append_assoc]
      rfl
    · rcases h.stored with ⟨rest, hRest⟩
      have hPayload := hCarries.payload
      rw [← hp, ← hRest, List.drop_left] at hPayload
      rw [← hRest]
      exact (List.prefix_append_right_inj _).mpr ((List.take_prefix ..).trans hPayload)
    · rw [hNext, hNxt, seqAt_add, List.length_append, List.length_take]
      congr 2
      omega
    · intro _ hFits
      refine ⟨hp, List.take_of_length_le ?_⟩
      omega
  · rw [received, if_neg hTaken]
    refine ⟨h.ring, hNxt, 0, ?_, ?_, ?_, ?_⟩
    · rw [List.take_zero, List.append_nil]
      rfl
    · rw [List.take_zero, List.append_nil]
      exact h.stored
    · rw [List.take_zero, List.append_nil]
      exact hNxt
    · intro hSeq _
      refine ⟨hPos hSeq, ?_⟩
      -- without a payload there is nothing to store
      have hZero : ¬ pktGetPayLen seg > 0 := fun hLen => hTaken ⟨hLen, hSeq.symm⟩
      have hNil : seg.payload.flatten.length = 0 := by
        rw [pktGetPayLen_eq, gt_iff_lt, UInt32.lt_iff_toNat_lt,
          UInt32.toNat_ofNat_of_lt' hCarries.short] at hZero
        exact Nat.eq_zero_of_not_pos hZero
      rw [List.length_eq_zero_iff.mp hNil, List.take_nil]

/- One segment. -/
theorem StreamHolds.rcvStep
    {p : Nat} (hCarries : seg.Carries irs stream s.stored.length p)
    (hOrder : s.tcb.ReachesFin seg → seg.seqNum = s.tcb.rcvNxt ∧
      seg.payload.flatten.length ≤ s.tcb.rcvBuf.getFree)
    (hStep : s.tcb.RcvStep seg t) :
    StreamHolds irs stream { s with
        tcb := t
        fin := s.fin || TcpStream.finAt irs { s with tcb := t } seg } := by
  have hSegLen : seg.ctl.syn = false → seg.ctl.fin = true →
        seg.seqNum + pktGetSegLen seg = seqAt irs stream.length + 1 := by
    intro hSyn hFin
    rw [← hCarries.fin hFin, ← seqAt_add, ← hCarries.seqNum_eq, ← pktGetPayLen_eq, pktGetSegLen,
      hSyn, hFin]
    simp [UInt32.add_assoc]
  cases hStep with
  | same hSame => exact h.same hSame _
  | data hPhase hFin hBalanced hPhase' hBuf hNxt =>
    rcases h.received_spec hPhase hCarries with ⟨hOk, _, k, hStored, hPrefix, hNext, _⟩
    rw [← hBuf] at hOk hStored
    refine ⟨hBalanced, hOk, ?_, Or.inl ⟨?_, Or.inl hPhase'⟩⟩
    · rw [TcpStream.stored, hStored]
      exact hPrefix
    · rw [TcpStream.stored, hStored, hNxt]
      exact hNext
  | fin hReaches hBalanced hPhase' hBuf hNxt =>
    rcases hOrder hReaches with ⟨hSeq, hFits⟩
    rcases h.received_spec hReaches.receiving hCarries with
      ⟨hOk, _, k, hStored, hPrefix, hNext, hAll⟩
    rcases hAll hSeq hFits with ⟨hp, hTake⟩
    have hEnd := hCarries.fin hReaches.fin
    have hWhole : s.stored ++ seg.payload.flatten.take k = stream := by
      apply hPrefix.eq_of_length
      rw [hTake, List.length_append]
      omega
    rw [← hBuf, hWhole] at hStored
    have hFinAt : TcpStream.finAt irs { s with tcb := t } seg = true := by
      rw [TcpStream.finAt, TcpStream.stored, hStored, hReaches.fin, hCarries.seqNum_eq,
        pktGetPayLen_eq, seqAt_add, hEnd]
      simp
    refine ⟨hBalanced, hBuf ▸ hOk, ?_, Or.inr ⟨?_, hStored, ?_, Or.inl hPhase'⟩⟩
    · exact ⟨[], (List.append_nil _).trans hStored⟩
    · dsimp only
      rw [hFinAt, Bool.or_true]
    · rw [TcpStream.stored, hStored]
      exact hNxt.trans (hSegLen hReaches.noSyn hReaches.fin)
  | finAgain hPhase hChecks hBalanced hPhase' hBuf hNxt =>
    have hStored : s.delivered ++ t.rcvBuf.contents = s.stored := by
      rw [hBuf]
      rfl
    rcases h.next with ⟨_, hReceiving⟩ | ⟨hFin, hAll, _, _⟩
    · rw [hPhase] at hReceiving
      rcases hReceiving with hReceiving | hReceiving
      all_goals cases hReceiving
    · refine ⟨hBalanced, hBuf ▸ h.ring, ?_, Or.inr ⟨?_, ?_, ?_, Or.inl hPhase'⟩⟩
      · rw [TcpStream.stored, hStored]
        exact h.stored
      · dsimp only
        rw [hFin, Bool.true_or]
      · rw [TcpStream.stored, hStored]
        exact hAll
      · rw [TcpStream.stored, hStored, hAll]
        exact hNxt.trans (hSegLen hChecks.1 hChecks.2)

/- One call of the user. -/
theorem StreamHolds.recv
    {env : TcpEnv} {len : Nat} {r : Tcb × List UInt8}
    (hRecv : fsmCallRecv cfg env s.tcb len = some r) :
    StreamHolds irs stream { s with
        tcb := r.1
        delivered := s.delivered ++ r.2 } := by
  rcases @fsmCallRecv_spec cfg env s.tcb h.balanced h.ring
      len with
    ⟨t', bytes, hEq, hBalanced, hState, hNxt, hRing, hContents⟩
  rw [hEq] at hRecv
  cases hRecv
  have hStored : s.delivered ++ bytes ++ t'.rcvBuf.contents = s.stored := by
    rw [List.append_assoc, ← hContents]
    rfl
  refine ⟨hBalanced, hRing, ?_, ?_⟩
  · rw [TcpStream.stored, hStored]
    exact h.stored
  · rw [TcpStream.stored, hStored]
    dsimp only
    rw [hNxt, hState]
    exact h.next

end

end

/- A connection that has received nothing. -/
def sampleStream : TcpStream where
  tcb :=
    { Tcb.init with
      state := .established
      irs := 100
      rcvNxt := 101
      rcvWnd := 1220
      rcvBufRaw := true
      rcvBuf := Ringbuffer.init (fun _ => 0) 1220 }
  delivered := []
  fin := false

theorem streamStart_sampleStream
    (stream : List UInt8) :
    StreamStart 100 stream sampleStream where
  balanced := Tcb.balanced_init.congr rfl rfl rfl
  receiving := rfl
  irs_eq := rfl
  ring := Ringbuffer.ok_init ..
  stored := List.nil_prefix
  rcvNxt_eq := rfl
  fin := rfl

def sampleSegment
    (fin : Bool) (seqNum : UInt32)
    (payload : List (List UInt8)) : TcpSegment where
  ctl :=
    { TcpCtl.none with fin := fin, ack := true }
  seqNum := seqNum
  ackNum := 0
  window := 0
  options := []
  payload := payload

end Riot
