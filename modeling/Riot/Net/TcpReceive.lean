import Riot.Net.TcpRetransmitRuns

/-
  What one event does to the received bytes of a connection.

  Most events receive nothing. The payload of a segment in order
  is stored as far as it fits, and a FIN moves the next sequence
  number behind the segment, whatever was stored of it.
-/

----
-- Steps That Receive Nothing
----

namespace Riot

inductive StreamPhase where
  | opening
  | receiving
  | finished
  | closed
deriving DecidableEq, Repr

def FsmState.phase : FsmState → StreamPhase
| .closed => .closed
| .listen => .opening
| .synSent => .opening
| .synRcvd => .opening
| .established => .receiving
| .finWait1 => .receiving
| .finWait2 => .receiving
| .closeWait => .finished
| .lastAck => .finished
| .closing => .finished
| .timeWait => .finished

theorem FsmState.phase_closed_iff
    (state : FsmState) :
    state.phase = .closed ↔ state = .closed := by
  cases state <;> decide

theorem FsmState.takesPayload_iff
    (state : FsmState) :
    state.takesPayload = true ↔ state.phase = .receiving := by
  cases state <;> decide

structure Tcb.SameStream
    (t t' : Tcb) : Prop where
  balanced : t'.Balanced
  rcvNxt_eq : t'.rcvNxt = t.rcvNxt
  rcvBuf_eq : t'.rcvBuf = t.rcvBuf
  phase : t'.state.phase = .closed ∨ t'.state.phase = t.state.phase

section

variable {cfg : TcpConfig} {env : TcpEnv} {t t' t'' : Tcb} {seg : TcpSegment}

theorem Tcb.SameStream.refl
    (h : t.Balanced) :
    t.SameStream t :=
  ⟨h, rfl, rfl, Or.inr rfl⟩

theorem Tcb.SameStream.trans
    (h : t.SameStream t') (h' : t'.SameStream t'') :
    t.SameStream t'' := by
  refine ⟨h'.balanced, h'.rcvNxt_eq.trans h.rcvNxt_eq, h'.rcvBuf_eq.trans h.rcvBuf_eq, ?_⟩
  rcases h'.phase with hClosed | hPhase'
  · exact Or.inl hClosed
  · rcases h.phase with hClosed | hPhase
    · exact Or.inl (hPhase'.trans hClosed)
    · exact Or.inr (hPhase'.trans hPhase)

theorem buildSend_sameStream
    (h : t.Balanced)
    (ctl : TcpCtl) (seqNum ackNum : UInt32) (payload : List UInt8) :
    ∃ t', buildSend cfg env t ctl seqNum ackNum payload = some t' ∧
      t.SameStream t' ∧ t'.state = t.state := by
  rcases @buildSend_spec cfg env t h ctl seqNum ackNum payload with ⟨owned, sent, hSend, hBalanced⟩
  exact ⟨_, hSend, ⟨hBalanced, rfl, rfl, Or.inr rfl⟩, rfl⟩

theorem buildQueueSend_sameStream
    (h : t.Balanced)
    (ctl : TcpCtl) (seqNum ackNum : UInt32) (payload : List UInt8) :
    ∃ t', buildQueueSend cfg env t ctl seqNum ackNum payload = some t' ∧
      t.SameStream t' ∧ t'.state = t.state := by
  rcases @buildQueueSend_spec cfg env t h ctl seqNum ackNum
      payload with
    ⟨owned, sent, hSend, hBalanced⟩
  exact ⟨_, hSend, ⟨hBalanced, rfl, rfl, Or.inr rfl⟩, rfl⟩

theorem sendAck_sameStream
    (h : t.Balanced) :
    ∃ t', sendAck cfg env t = some t' ∧ t.SameStream t' ∧ t'.state = t.state :=
  buildSend_sameStream h ..

theorem transitionTo_sameStream
    (state : FsmState) (h : t.Balanced)
    (hPhase : state.phase = .closed ∨ state.phase = t.state.phase) :
    ∃ t', transitionTo t state = some t' ∧ t.SameStream t' ∧ t'.state = state := by
  by_cases hClosed : state = .closed
  · subst hClosed
    refine ⟨_, transitionTo_closed h, ⟨?_, rfl, rfl, Or.inl rfl⟩, rfl⟩
    exact (balanced_rebook_none (t := t) t.sndNxt t.nextId t.sent).congr rfl rfl rfl
  · exact ⟨_, transitionTo_of_ne hClosed, ⟨h.congr rfl rfl rfl, rfl, rfl, hPhase⟩, rfl⟩

----
-- Acknowledgements
----

/- The acknowledgement is not for something never sent. -/
def Tcb.AckUsable
    (t : Tcb) (seg : TcpSegment) : Prop :=
  (lss32Bit t.sndUna seg.ackNum &&
      leq32Bit seg.ackNum t.sndNxt) = true ∨ lss32Bit t.sndNxt seg.ackNum = false

instance
    (t : Tcb) (seg : TcpSegment) :
    Decidable (t.AckUsable seg) :=
  inferInstanceAs (Decidable (_ ∨ _))

theorem updateSndWnd_sameStream
    (h : t.Balanced) :
    t.SameStream (updateSndWnd t seg) := by
  unfold updateSndWnd
  split
  · exact ⟨h.congr rfl rfl rfl, rfl, rfl, Or.inr rfl⟩
  · exact Tcb.SameStream.refl h

/- Only a connection that is closed is not processed further. -/
theorem checkFinAcked_sameStream
    (h : t.Balanced) :
    ∃ t' further, checkFinAcked t = some (t', further) ∧ t.SameStream t' ∧
      (further = true → t'.state.phase = t.state.phase) := by
  have hTo : ∀ (state : FsmState) (further : Bool),
        state.phase = .closed ∨ state.phase = t.state.phase →
        (further = true → state.phase = t.state.phase) → ∃ t' further',
          (transitionTo t state).map (fun t => (t, further)) = some (t', further') ∧
          t.SameStream t' ∧ (further' = true → t'.state.phase = t.state.phase) := by
    intro state further hPhase hFurther
    rcases transitionTo_sameStream state h hPhase with ⟨t', hEq, hSame, hState⟩
    refine ⟨t', further, by rw [hEq]; rfl, hSame, ?_⟩
    rw [hState]
    exact hFurther
  unfold checkFinAcked
  split
  · split
    · rename_i hState
      have hPhase : FsmState.finWait2.phase = t.state.phase := by
        rw [hState]
        rfl
      exact hTo _ _ (Or.inr hPhase) (fun _ => hPhase)
    · rename_i hState
      have hPhase : FsmState.timeWait.phase = t.state.phase := by
        rw [hState]
        rfl
      exact hTo _ _ (Or.inr hPhase) (fun _ => hPhase)
    · refine hTo _ _ (Or.inl rfl) ?_
      intro hFalse
      cases hFalse
    · exact ⟨t, true, rfl, Tcb.SameStream.refl h, fun _ => rfl⟩
  · exact ⟨t, true, rfl, Tcb.SameStream.refl h, fun _ => rfl⟩

theorem pktAcknowledge_sameStream
    (h : t.Balanced) (ack : UInt32) :
    ∃ t', pktAcknowledge { t with sndUna := ack } ack = some t' ∧
      t.SameStream t' ∧ t'.state = t.state := by
  rcases @pktAcknowledge_spec { t with sndUna := ack }
      (h.congr rfl rfl rfl) ack with
    ⟨hAck, hBalanced⟩
  exact ⟨_, hAck, ⟨hBalanced, rfl, rfl, Or.inr rfl⟩, rfl⟩

theorem rcvdAck_sameStream
    (h : t.Balanced) (hPhase : t.state.phase ≠ .opening) :
    ∃ t' further, rcvdAck cfg env t seg = some (t', further) ∧ t.SameStream t' ∧
      (further = true → t'.state.phase = t.state.phase ∧
        (t.state.takesAck = true → t.AckUsable seg)) := by
  have hSynRcvd : rcvdAckSynRcvd cfg env t seg = some t := by
    unfold rcvdAckSynRcvd
    rw [if_neg]
    intro hState
    rw [hState] at hPhase
    exact hPhase rfl
  have hCheck : ∀ t₁, t.SameStream t₁ → t₁.state = t.state → t.AckUsable seg → ∃ t' further,
          checkFinAcked (updateSndWnd t₁ seg) = some (t', further) ∧ t.SameStream t' ∧
          (further = true → t'.state.phase = t.state.phase ∧
            (t.state.takesAck = true → t.AckUsable seg)) := by
    intro t₁ hSame hState hUsable
    have hWnd := @updateSndWnd_sameStream t₁ seg hSame.balanced
    rcases checkFinAcked_sameStream hWnd.balanced with ⟨t', further, hEq, hNext, hFurther⟩
    refine ⟨t', further, hEq, hSame.trans (hWnd.trans hNext), ?_⟩
    intro hTrue
    refine ⟨?_, fun _ => hUsable⟩
    rw [hFurther hTrue, ← hState]
    unfold updateSndWnd
    split <;> rfl
  unfold rcvdAck
  simp only [hSynRcvd, Option.bind_eq_bind, Option.bind_some]
  split
  · split
    · rename_i hNew
      rcases pktAcknowledge_sameStream h seg.ackNum with ⟨t₁, hAck, hSame, hState⟩
      rw [hAck, Option.bind_some]
      exact hCheck t₁ hSame hState (Or.inl hNew)
    · split
      · rcases @sendAck_sameStream cfg env t h with ⟨t₁, hSend, hSame, _⟩
        rw [hSend]
        refine ⟨t₁, false, rfl, hSame, ?_⟩
        intro hFalse
        cases hFalse
      · rename_i hSent
        exact hCheck t (Tcb.SameStream.refl h) rfl (Or.inr (by simpa using hSent))
  · rename_i hTakes
    exact ⟨t, true, rfl, Tcb.SameStream.refl h, fun _ => ⟨rfl, fun hTrue => absurd hTrue hTakes⟩⟩

----
-- Payload
----

/- The first bytes of all snips are stored, as far as they fit. -/
theorem addSnips_spec
    {rb : Ringbuffer} (rcvNxt : UInt32) (snips : List (List UInt8)) (hOk : rb.Ok) :
    (addSnips rb rcvNxt snips).1.Ok ∧ (addSnips rb rcvNxt snips).1.contents =
      rb.contents ++ snips.flatten.take (min snips.flatten.length rb.getFree) ∧
    (addSnips rb rcvNxt snips).2 = rcvNxt + UInt32.ofNat (min snips.flatten.length rb.getFree) := by
  induction snips generalizing rb rcvNxt with
  | nil => simp [addSnips, hOk]
  | cons bs rest ih =>
    rcases rb.add_spec bs hOk with ⟨hNext, hSize, hContents, hCount⟩
    have hLength := congrArg List.length hContents
    rw [List.length_append, List.length_take, Ringbuffer.length_contents,
      Ringbuffer.length_contents] at hLength
    have hFree : (rb.add bs).1.getFree = rb.getFree - (rb.add bs).2 := by
      unfold Ringbuffer.getFree
      omega
    rcases ih (rcvNxt + UInt32.ofNat (rb.add bs).2) hNext with ⟨hOk', hAll, hNxt⟩
    unfold addSnips
    dsimp only
    refine ⟨hOk', ?_, ?_⟩
    · rw [hAll, hContents, hFree, List.append_assoc, List.flatten_cons, List.take_append]
      congr 1
      rw [hCount, List.length_append]
      by_cases hFits : bs.length ≤ rb.getFree
      · rw [@List.take_of_length_le _ (min bs.length rb.getFree) bs (by omega),
          @List.take_of_length_le _
            (min (bs.length + rest.flatten.length) rb.getFree) bs (by omega)]
        congr 2
        omega
      · have hZero : min rest.flatten.length (rb.getFree - min bs.length rb.getFree) = 0 := by
          omega
        have hRest : min (bs.length + rest.flatten.length) rb.getFree - bs.length = 0 := by
          omega
        rw [hZero, hRest]
        congr 2
        omega
    · rw [hNxt, hFree, UInt32.add_assoc, ← UInt32.ofNat_add, List.flatten_cons, List.length_append]
      congr 2
      omega

/- The receive buffer and the next number after the payload. -/
def received
    (t : Tcb) (seg : TcpSegment) : Ringbuffer × UInt32 :=
  if pktGetPayLen seg > 0 ∧ t.rcvNxt = seg.seqNum then
    addSnips t.rcvBuf t.rcvNxt seg.payload
  else
    (t.rcvBuf, t.rcvNxt)

theorem rcvdPayload_received
    (h : t.Balanced) (hPhase : t.state.phase = .receiving) :
    ∃ t', rcvdPayload cfg env t seg = some t' ∧ t'.Balanced ∧ t'.state = t.state ∧
      t'.rcvBuf = (received t seg).1 ∧ t'.rcvNxt = (received t seg).2 := by
  have hTakes := t.state.takesPayload_iff.mpr hPhase
  have hAck : ∀ t₁, t₁.Balanced → t₁.state = t.state → t₁.rcvBuf = (received t seg).1 →
        t₁.rcvNxt = (received t seg).2 → ∃ t', (if seg.ctl.fin then some t₁
            else sendAck cfg env t₁) = some t' ∧ t'.Balanced ∧ t'.state = t.state ∧
          t'.rcvBuf = (received t seg).1 ∧ t'.rcvNxt = (received t seg).2 := by
    intro t₁ hBalanced hState hBuf hNxt
    split
    · exact ⟨t₁, rfl, hBalanced, hState, hBuf, hNxt⟩
    · rcases @sendAck_sameStream cfg env t₁ hBalanced with ⟨t', hSend, hSame, hState'⟩
      exact ⟨t', hSend, hSame.balanced, hState'.trans hState, hSame.rcvBuf_eq.trans hBuf,
        hSame.rcvNxt_eq.trans hNxt⟩
  unfold rcvdPayload
  by_cases hLen : pktGetPayLen seg > 0
  · rw [if_pos ⟨hLen, hTakes⟩]
    dsimp only
    unfold acceptPayload
    by_cases hSeq : t.rcvNxt = seg.seqNum
    · rw [if_pos hSeq]
      apply hAck
      · exact h.congr rfl rfl rfl
      · rfl
      · rw [received, if_pos ⟨hLen, hSeq⟩]
      · rw [received, if_pos ⟨hLen, hSeq⟩]
    · have hNot : ¬ (pktGetPayLen seg > 0 ∧ t.rcvNxt = seg.seqNum) := fun hBoth => hSeq hBoth.2
      rw [if_neg hSeq]
      apply hAck
      · exact h
      · rfl
      · rw [received, if_neg hNot]
      · rw [received, if_neg hNot]
  · have hNot : ¬ (pktGetPayLen seg > 0 ∧ t.rcvNxt = seg.seqNum) := fun hBoth => hLen hBoth.1
    have hNot' : ¬ (pktGetPayLen seg > 0 ∧ t.state.takesPayload = true) := fun hBoth => hLen hBoth.1
    rw [if_neg hNot', received, if_neg hNot]
    exact ⟨t, rfl, h, rfl, rfl, rfl⟩

theorem rcvdPayload_ignored
    (hPhase : t.state.phase ≠ .receiving) :
    rcvdPayload cfg env t seg = some t := by
  unfold rcvdPayload
  rw [if_neg]
  rintro ⟨_, hTakes⟩
  exact hPhase (t.state.takesPayload_iff.mp hTakes)

/- The FIN moves the next number behind the segment. -/
theorem rcvdFin_finished
    (h : t.Balanced) (hFin : seg.ctl.fin = true)
    (hPhase : t.state.phase = .receiving ∨ t.state.phase = .finished) :
    ∃ t', rcvdFin cfg env t seg = some t' ∧ t'.Balanced ∧ t'.state.phase = .finished ∧
      t'.rcvBuf = t.rcvBuf ∧ t'.rcvNxt = seg.seqNum + pktGetSegLen seg := by
  have hOpen : ¬ (t.state = .closed ∨ t.state = .listen ∨ t.state = .synSent) := by
    rintro (hState | hState | hState)
    · rw [hState] at hPhase
      revert hPhase
      decide
    · rw [hState] at hPhase
      revert hPhase
      decide
    · rw [hState] at hPhase
      revert hPhase
      decide
  rcases @sendAck_sameStream cfg env
      { t with rcvNxt := seg.seqNum + pktGetSegLen seg }
      (h.congr rfl rfl rfl) with
    ⟨t₁, hSend, hSame, hState⟩
  have hState : t₁.state = t.state := hState
  have hTo : ∀ state : FsmState, state.phase = .finished → ∃ t', transitionTo t₁ state = some t' ∧
          t'.Balanced ∧ t'.state.phase = .finished ∧ t'.rcvBuf = t.rcvBuf ∧
          t'.rcvNxt = seg.seqNum + pktGetSegLen seg := by
    intro state hFinished
    have hNe : state ≠ .closed := by
      rintro rfl
      cases hFinished
    exact ⟨_, transitionTo_of_ne hNe, hSame.balanced.congr rfl rfl rfl, hFinished,
      hSame.rcvBuf_eq, hSame.rcvNxt_eq⟩
  unfold rcvdFin
  rw [if_pos hFin, if_neg hOpen, hSend, Option.bind_eq_bind, Option.bind_some]
  split
  · exact hTo _ rfl
  · exact hTo _ rfl
  · split
    · exact hTo _ rfl
    · exact hTo _ rfl
  · exact hTo _ rfl
  · rename_i hSynRcvd hEstablished hFinWait1 hFinWait2
    refine ⟨t₁, rfl, hSame.balanced, ?_, hSame.rcvBuf_eq, hSame.rcvNxt_eq⟩
    rw [← hState] at hPhase
    rcases hPhase with hPhase | hPhase
    · revert hPhase hSynRcvd hEstablished hFinWait1 hFinWait2
      cases t₁.state <;> simp [FsmState.phase]
    · exact hPhase

theorem rcvdFin_ignored
    (hNot : seg.ctl.fin = false ∨ t.state.phase = .closed) :
    rcvdFin cfg env t seg = some t := by
  unfold rcvdFin
  split
  · rename_i hFin
    rcases hNot with hNot | hClosed
    · rw [hNot] at hFin
      cases hFin
    · rw [if_pos (Or.inl (t.state.phase_closed_iff.mp hClosed))]
  · rfl

----
-- Segments
----

/- The checks before the FIN of a segment is processed. -/
structure Tcb.ReachesFin
    (t : Tcb)
    (seg : TcpSegment) : Prop where
  receiving : t.state.phase = .receiving
  options : (optionParse seg.options.length t.mss seg.options).2 = true
  inWindow : pktChkSeqNum t seg.seqNum (pktGetPayLen seg) = false
  noReset : seg.ctl.rst = false
  noSyn : seg.ctl.syn = false
  ack : seg.ctl.ack = true
  fin : seg.ctl.fin = true
  usable : t.AckUsable seg

/- What a segment does to what is received. -/
inductive Tcb.RcvStep
    (t : Tcb) (seg : TcpSegment)
    (t' : Tcb) : Prop
| same
    (hSame : t.SameStream t')
| data
    (hPhase : t.state.phase = .receiving)
    (hFin : seg.ctl.fin = false)
    (hBalanced : t'.Balanced)
    (hPhase' : t'.state.phase = .receiving)
    (hBuf : t'.rcvBuf = (received t seg).1)
    (hNxt : t'.rcvNxt = (received t seg).2)
| fin
    (hReaches : t.ReachesFin seg)
    (hBalanced : t'.Balanced)
    (hPhase' : t'.state.phase = .finished)
    (hBuf : t'.rcvBuf = (received t seg).1)
    (hNxt : t'.rcvNxt = seg.seqNum + pktGetSegLen seg)
| finAgain
    (hPhase : t.state.phase = .finished)
    (hChecks : seg.ctl.syn = false ∧ seg.ctl.fin = true)
    (hBalanced : t'.Balanced)
    (hPhase' : t'.state.phase = .finished)
    (hBuf : t'.rcvBuf = t.rcvBuf)
    (hNxt : t'.rcvNxt = seg.seqNum + pktGetSegLen seg)

theorem received_congr
    (hSame : t.SameStream t') :
    received t' seg = received t seg := by
  unfold received
  rw [hSame.rcvNxt_eq, hSame.rcvBuf_eq]

/- The payload and the FIN of a segment. -/
theorem rcvdPayloadFin_rcvStep
    (hSame : t.SameStream t') (hPhase : t.state.phase ≠ .opening)
    (hPhase' : t'.state.phase = t.state.phase)
    (hChecks : seg.ctl.fin = true → seg.ctl.syn = false ∧
      (t.state.phase = .receiving → t.ReachesFin seg)) :
    ∃ t'', (rcvdPayload cfg env t' seg).bind (fun t => rcvdFin cfg env t seg) = some t'' ∧
      t.RcvStep seg t'' := by
  by_cases hReceiving : t.state.phase = .receiving
  · rcases @rcvdPayload_received cfg env t' seg hSame.balanced
        (hPhase'.trans hReceiving) with
      ⟨t₁, hPayload, hBalanced, hState, hBuf, hNxt⟩
    rw [received_congr hSame] at hBuf hNxt
    have hPhase₁ : t₁.state.phase = .receiving := by
      rw [hState, hPhase', hReceiving]
    rw [hPayload, Option.bind_some]
    cases hFin : seg.ctl.fin with
    | false =>
      rw [rcvdFin_ignored (Or.inl hFin)]
      exact ⟨t₁, rfl, .data hReceiving hFin hBalanced hPhase₁ hBuf hNxt⟩
    | true =>
      rcases @rcvdFin_finished cfg env t₁ seg hBalanced hFin
          (Or.inl hPhase₁) with
        ⟨t₂, hEq, hBalanced₂, hPhase₂, hBuf₂, hNxt₂⟩
      exact ⟨t₂, hEq, .fin ((hChecks hFin).2 hReceiving)
        hBalanced₂ hPhase₂ (hBuf₂.trans hBuf) hNxt₂⟩
  · rw [rcvdPayload_ignored (by rw [hPhase']; exact hReceiving), Option.bind_some]
    by_cases hFin : seg.ctl.fin = true ∧ t.state.phase = .finished
    · rcases @rcvdFin_finished cfg env t' seg hSame.balanced
          hFin.1 (Or.inr (hPhase'.trans hFin.2)) with
        ⟨t₂, hEq, hBalanced₂, hPhase₂, hBuf₂, hNxt₂⟩
      exact ⟨t₂, hEq, .finAgain hFin.2 ⟨(hChecks hFin.1).1, hFin.1⟩ hBalanced₂ hPhase₂
        (hBuf₂.trans hSame.rcvBuf_eq) hNxt₂⟩
    · rw [rcvdFin_ignored]
      · exact ⟨t', rfl, .same hSame⟩
      · cases hFin' : seg.ctl.fin with
        | false => exact Or.inl rfl
        | true =>
          right
          rw [hPhase']
          cases hPhase'' : t.state.phase with
          | opening => exact absurd hPhase'' hPhase
          | receiving => exact absurd hPhase'' hReceiving
          | finished => exact absurd ⟨hFin', hPhase''⟩ hFin
          | closed => rfl

theorem rcvdOther_rcvStep
    (h : t.Balanced) (hPhase : t.state.phase ≠ .opening)
    (hParse : (optionParse seg.options.length t.mss seg.options).2 = true) :
    ∃ t', rcvdOther cfg env t seg = some t' ∧ t.RcvStep seg t' := by
  have hClosed :
      ∀ t₁, t.SameStream t₁ → ∃ t', transitionTo t₁ .closed = some t' ∧ t.RcvStep seg t' := by
    intro t₁ hSame
    rcases transitionTo_sameStream .closed hSame.balanced (Or.inl rfl) with ⟨t', hEq, hNext, _⟩
    exact ⟨t', hEq, .same (hSame.trans hNext)⟩
  have hRefl := Tcb.SameStream.refl h
  unfold rcvdOther
  split
  · split
    · exact ⟨t, rfl, .same hRefl⟩
    · rcases @sendAck_sameStream cfg env t h with ⟨t', hSend, hSame, _⟩
      exact ⟨t', hSend, .same hSame⟩
  · rename_i hWindow
    split
    · have hNot : ¬ (t.state = .synRcvd ∧ t.passive = true) := by
        rintro ⟨hState, _⟩
        rw [hState] at hPhase
        exact hPhase rfl
      rw [if_neg hNot]
      exact hClosed t hRefl
    · rename_i hRst
      split
      · rcases @buildSend_sameStream cfg env t h
            { TcpCtl.none with rst := true } t.sndNxt t.rcvNxt
            [] with
          ⟨t₁, hSend, hSame, _⟩
        rw [hSend, Option.bind_some]
        exact hClosed t₁ hSame
      · rename_i hSyn
        split
        · rename_i hAck
          rcases @rcvdAck_sameStream cfg env t seg h hPhase with ⟨t₁, further, hEq, hSame, hFurther⟩
          simp only [hEq, Option.bind_eq_bind, Option.bind_some]
          split
          · rename_i hTrue
            rcases hFurther hTrue with ⟨hPhase', hUsable⟩
            apply rcvdPayloadFin_rcvStep hSame hPhase hPhase'
            intro hFin
            have hSyn := Bool.eq_false_iff.mpr hSyn
            refine ⟨hSyn, ?_⟩
            intro hReceiving
            refine ⟨hReceiving, hParse, Bool.eq_false_iff.mpr hWindow,
              Bool.eq_false_iff.mpr hRst, hSyn, hAck, hFin, ?_⟩
            apply hUsable
            revert hReceiving
            cases t.state <;> decide
          · exact ⟨t₁, rfl, .same hSame⟩
        · exact ⟨t, rfl, .same hRefl⟩

/- Whether the options are well-formed is in the bytes. -/
theorem optionParse_snd
    (fuel : Nat) (mss mss' : UInt16) (options : List UInt8) :
    (optionParse fuel mss options).2 = (optionParse fuel mss' options).2 := by
  induction fuel generalizing mss mss' options with
  | zero => rfl
  | succ fuel ih =>
    cases options with
    | nil => rfl
    | cons kind rest =>
      unfold optionParse
      split
      · rfl
      · split
        · exact ih mss mss' rest
        · cases rest with
          | nil => rfl
          | cons length value =>
            dsimp only
            split
            · rfl
            · split
              · rfl
              · exact ih ..

/- Only the options change before the state is looked at. -/
theorem Tcb.RcvStep.of_mss
    {mss : UInt16} (h : { t with mss := mss }.RcvStep seg t') :
    t.RcvStep seg t' := by
  cases h with
  | same hSame =>
    exact .same ⟨hSame.balanced, hSame.rcvNxt_eq, hSame.rcvBuf_eq, hSame.phase⟩
  | data hPhase hFin hBalanced hPhase' hBuf hNxt =>
    exact .data hPhase hFin hBalanced hPhase' hBuf hNxt
  | fin hReaches hBalanced hPhase' hBuf hNxt =>
    refine .fin ?_ hBalanced hPhase' hBuf hNxt
    have hOptions := hReaches.options
    rw [optionParse_snd _ _ t.mss] at hOptions
    exact ⟨hReaches.receiving, hOptions, hReaches.inWindow,
      hReaches.noReset, hReaches.noSyn, hReaches.ack, hReaches.fin, hReaches.usable⟩
  | finAgain hPhase hChecks hBalanced hPhase' hBuf hNxt =>
    exact .finAgain hPhase hChecks hBalanced hPhase' hBuf hNxt

theorem fsmRcvdPkt_rcvStep
    (h : t.Balanced) (hPhase : t.state.phase ≠ .opening) :
    ∃ t', fsmRcvdPkt cfg env t seg = some t' ∧ t.RcvStep seg t' := by
  unfold fsmRcvdPkt
  dsimp only
  cases hParse : (optionParse seg.options.length t.mss seg.options).2 with
  | false => exact ⟨_, rfl, .same ⟨h.congr rfl rfl rfl, rfl, rfl, Or.inr rfl⟩⟩
  | true =>
    rcases @rcvdOther_rcvStep cfg env
        { t with mss := (optionParse seg.options.length t.mss seg.options).1 } seg
        (h.congr rfl rfl rfl) hPhase
        ((optionParse_snd ..).trans hParse) with
      ⟨t', hEq, hStep⟩
    refine ⟨t', ?_, hStep.of_mss⟩
    simp only [if_true]
    split
    · rename_i hState
      rw [hState] at hPhase
      exact absurd rfl hPhase
    · rename_i hState
      rw [hState] at hPhase
      exact absurd rfl hPhase
    · exact hEq

----
-- Calls and Timeouts
----

theorem fsmCallSend_sameStream
    (h : t.Balanced) (buf : List UInt8) :
    ∃ t' n, fsmCallSend cfg env t buf = some (t', n) ∧ t.SameStream t' := by
  unfold fsmCallSend
  split
  · rcases @buildQueueSend_sameStream cfg env t h
        { TcpCtl.none with ack := true, psh := true } t.sndNxt t.rcvNxt
        (buf.take (sendPayload cfg t buf.length)) with
      ⟨t', hSend, hSame, _⟩
    dsimp only
    rw [hSend]
    exact ⟨t', _, rfl, hSame⟩
  · exact ⟨t, 0, rfl, Tcb.SameStream.refl h⟩

theorem fsmCallClose_sameStream
    (h : t.Balanced) (hPhase : t.state.phase ≠ .opening) :
    ∃ t', fsmCallClose cfg env t = some t' ∧ t.SameStream t' := by
  have hSent : ∃ t₁, (if t.state = .synRcvd ∨ t.state = .established ∨ t.state = .closeWait then
          buildQueueSend cfg env t
            { TcpCtl.none with fin := true, ack := true } t.sndNxt t.rcvNxt []
        else
          some t) = some t₁ ∧ t.SameStream t₁ ∧ t₁.state = t.state := by
    split
    · exact buildQueueSend_sameStream h ..
    · exact ⟨t, rfl, Tcb.SameStream.refl h, rfl⟩
  rcases hSent with ⟨t₁, hSent, hSame, hState⟩
  have hTo : ∀ state : FsmState, state.phase = .closed ∨ state.phase = t₁.state.phase →
        ∃ t', transitionTo t₁ state = some t' ∧ t.SameStream t' := by
    intro state hPhase
    rcases transitionTo_sameStream state hSame.balanced hPhase with ⟨t', hEq, hNext, _⟩
    exact ⟨t', hEq, hSame.trans hNext⟩
  rw [← hState] at hPhase
  unfold fsmCallClose
  rw [hSent, Option.bind_eq_bind, Option.bind_some]
  split
  · exact hTo _ (Or.inl rfl)
  · rename_i hSynRcvd
    rw [hSynRcvd] at hPhase
    exact absurd rfl hPhase
  · rename_i hEstablished
    exact hTo _ (Or.inr (by rw [hEstablished]; rfl))
  · rename_i hCloseWait
    exact hTo _ (Or.inr (by rw [hCloseWait]; rfl))
  · exact ⟨t₁, rfl, hSame⟩

theorem transitionTo_closed_sameStream
    (h : t.Balanced) :
    ∃ t', transitionTo t .closed = some t' ∧ t.SameStream t' := by
  rcases transitionTo_sameStream .closed h (Or.inl rfl) with ⟨t', hEq, hSame, _⟩
  exact ⟨t', hEq, hSame⟩

theorem fsmCallAbort_sameStream
    (h : t.Balanced) :
    ∃ t', fsmCallAbort cfg env t = some t' ∧ t.SameStream t' := by
  unfold fsmCallAbort
  split
  · rcases @buildSend_sameStream cfg env t h
        { TcpCtl.none with rst := true } t.sndNxt t.rcvNxt
        [] with
      ⟨t₁, hSend, hSame, _⟩
    rcases transitionTo_closed_sameStream hSame.balanced with ⟨t', hEq, hNext⟩
    rw [hSend, Option.bind_eq_bind, Option.bind_some]
    exact ⟨t', hEq, hSame.trans hNext⟩
  · exact transitionTo_closed_sameStream h

/- The events that neither open a connection nor receive. -/
def TcpEvent.keepsStream : TcpEvent → Bool
| .callOpen _ _ => false
| .callRecv _ _ => false
| .rcvdPkt _ _ => false
| _ => true

theorem tcpExec_sameStream
    {e : TcpEvent} (h : t.Balanced) (hPhase : t.state.phase ≠ .opening)
    (hKeeps : e.keepsStream = true) :
    ∃ t' n, tcpExec cfg t e = some (t', n) ∧ t.SameStream t' := by
  have hMap : ∀ {r : Option Tcb}, (∃ t', r = some t' ∧ t.SameStream t') →
        ∃ t' n, r.map (fun t => (t, 0)) = some (t', n) ∧ t.SameStream t' := by
    rintro r ⟨t', rfl, hSame⟩
    exact ⟨t', 0, rfl, hSame⟩
  cases e with
  | callOpen env passive => cases hKeeps
  | callSend env buf => exact fsmCallSend_sameStream h buf
  | callRecv env len => cases hKeeps
  | callClose env => exact hMap (fsmCallClose_sameStream h hPhase)
  | callAbort env => exact hMap (fsmCallAbort_sameStream h)
  | rcvdPkt env seg => cases hKeeps
  | timeoutTimewait => exact hMap (transitionTo_closed_sameStream h)
  | timeoutRetransmit env =>
    rcases @fsmTimeoutRetransmit_spec env t h with ⟨sent, hSend, hNext⟩
    exact hMap ⟨_, hSend, hNext, rfl, rfl, Or.inr rfl⟩
  | timeoutConnection => exact hMap (transitionTo_closed_sameStream h)
  | sendProbe env =>
    rcases @pktBuild_send cfg env t h
        { TcpCtl.none with ack := true } (t.sndUna - 1)
        t.rcvNxt [1] 0 with
      ⟨sent, hSend⟩
    exact hMap ⟨_, hSend, h.skip _ _, rfl, rfl, Or.inr rfl⟩
  | clearRetransmit =>
    exact hMap ⟨_, clearRetransmit_spec h, balanced_rebook_none .., rfl, rfl, Or.inr rfl⟩

/- The user is handed what the receive buffer held first. -/
theorem fsmCallRecv_spec
    (h : t.Balanced) (hRing : t.rcvBuf.Ok) (len : Nat) :
    ∃ t' bytes, fsmCallRecv cfg env t len = some (t', bytes) ∧
      t'.Balanced ∧ t'.state = t.state ∧ t'.rcvNxt = t.rcvNxt ∧ t'.rcvBuf.Ok ∧
      t.rcvBuf.contents = bytes ++ t'.rcvBuf.contents := by
  rcases t.rcvBuf.get_spec len hRing with ⟨hOk, hSize, hContents⟩
  unfold fsmCallRecv
  split
  · exact ⟨t, [], rfl, h, rfl, rfl, hRing, rfl⟩
  · dsimp only
    split
    · rcases @sendAck_sameStream cfg env
          { t with
            rcvBuf := (t.rcvBuf.get len).1
            rcvWnd := UInt16.ofNat (t.rcvBuf.get len).1.getFree }
          (h.congr rfl rfl rfl) with
        ⟨t', hSend, hSame, hState⟩
      rw [hSend]
      have hBuf : t'.rcvBuf = (t.rcvBuf.get len).1 := hSame.rcvBuf_eq
      refine ⟨t', _, rfl, hSame.balanced, hState, hSame.rcvNxt_eq, ?_, ?_⟩
      · rw [hBuf]
        exact hOk
      · rw [hBuf]
        exact hContents
    · exact ⟨_, _, rfl, h.congr rfl rfl rfl, rfl, rfl, hOk, hContents⟩

end

end Riot
