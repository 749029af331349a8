import Riot.Net.TcpReferences

/-
  What received segments do with the retransmission queue.

  A segment that only acknowledges either keeps the queue, or
  its acknowledgement is new and takes the packet it covers from
  the queue.
-/

----
-- Steps That Keep the Queue
----

namespace Riot

/-
  The queue and what is acknowledged stay the same, and the
  state SYN_SENT is not entered.
-/
structure Tcb.SameQueue
    (t t' : Tcb) : Prop where
  balanced : t'.Balanced
  queue_eq : t'.pktRetransmit = t.pktRetransmit
  sndUna_eq : t'.sndUna = t.sndUna
  synSent : t'.state = .synSent → t.state = .synSent ∧ t'.iss = t.iss

section

variable {cfg : TcpConfig} {env : TcpEnv} {t t' t'' : Tcb} {seg : TcpSegment}

theorem Tcb.SameQueue.refl
    (h : t.Balanced) :
    t.SameQueue t :=
  ⟨h, rfl, rfl, fun hState => ⟨hState, rfl⟩⟩

theorem Tcb.SameQueue.trans
    (h : t.SameQueue t') (h' : t'.SameQueue t'') :
    t.SameQueue t'' := by
  refine ⟨h'.balanced, h'.queue_eq.trans h.queue_eq, h'.sndUna_eq.trans h.sndUna_eq, ?_⟩
  intro hState
  rcases h'.synSent hState with ⟨hState', hIss'⟩
  rcases h.synSent hState' with ⟨hState'', hIss⟩
  exact ⟨hState'', hIss'.trans hIss⟩

theorem buildSend_sameQueue
    (h : t.Balanced)
    (ctl : TcpCtl) (seqNum ackNum : UInt32) (payload : List UInt8) :
    ∃ t', buildSend cfg env t ctl seqNum ackNum payload = some t' ∧ t.SameQueue t' := by
  rcases @buildSend_spec cfg env t h ctl seqNum ackNum payload with ⟨owned, sent, hSend, hBalanced⟩
  exact ⟨_, hSend, hBalanced, rfl, rfl, fun hState => ⟨hState, rfl⟩⟩

theorem sendAck_sameQueue
    (h : t.Balanced) :
    ∃ t', sendAck cfg env t = some t' ∧ t.SameQueue t' :=
  buildSend_sameQueue h ..

/- A transition keeps a queue, or there was none. -/
theorem transitionTo_sameQueue
    (state : FsmState) (h : t.Balanced) (hSynSent : state ≠ .synSent)
    (hKeep : state = .closed → t.pktRetransmit = none) :
    ∃ t', transitionTo t state = some t' ∧ t.SameQueue t' := by
  by_cases hClosed : state = .closed
  · subst hClosed
    refine ⟨_, transitionTo_closed h, ?_, (hKeep rfl).symm, rfl, ?_⟩
    · exact (balanced_rebook_none (t := t) t.sndNxt t.nextId t.sent).congr rfl rfl rfl
    · intro hState
      cases hState
  · refine ⟨_, transitionTo_of_ne hClosed, ?_, rfl, rfl, ?_⟩
    · exact h.congr rfl rfl rfl
    · intro hState
      exact absurd hState hSynSent

theorem updateSndWnd_sameQueue
    (h : t.Balanced) :
    t.SameQueue (updateSndWnd t seg) := by
  unfold updateSndWnd
  split
  · exact ⟨h.congr rfl rfl rfl, rfl, rfl, fun hState => ⟨hState, rfl⟩⟩
  · exact Tcb.SameQueue.refl h

theorem rcvdAckSynRcvd_sameQueue
    (h : t.Balanced) :
    ∃ t', rcvdAckSynRcvd cfg env t seg = some t' ∧ t.SameQueue t' := by
  unfold rcvdAckSynRcvd
  split
  · split
    · rw [transitionTo_of_ne (by decide)]
      refine ⟨_, rfl, h.congr rfl rfl rfl, rfl, rfl, ?_⟩
      intro hState
      cases hState
    · exact buildSend_sameQueue h ..
  · exact ⟨t, rfl, Tcb.SameQueue.refl h⟩

/- The connection is closed only if the queue is empty. -/
theorem checkFinAcked_sameQueue
    (h : t.Balanced) :
    ∃ t' further, checkFinAcked t = some (t', further) ∧ t.SameQueue t' := by
  unfold checkFinAcked
  split
  · rename_i hNone
    have hNone := Option.isNone_iff_eq_none.mp hNone
    have hTo : ∀ (state : FsmState) (further : Bool), state ≠ .synSent → ∃ t',
            (transitionTo t state).map (fun t => (t, further)) = some (t', further) ∧
            t.SameQueue t' := by
      intro state further hNe
      rcases transitionTo_sameQueue state h hNe (fun _ => hNone) with ⟨t', hEq, hSame⟩
      exact ⟨t', by rw [hEq]; rfl, hSame⟩
    split
    · rcases hTo .finWait2 true (by decide) with ⟨t', hEq, hSame⟩
      exact ⟨t', true, hEq, hSame⟩
    · rcases hTo .timeWait true (by decide) with ⟨t', hEq, hSame⟩
      exact ⟨t', true, hEq, hSame⟩
    · rcases hTo .closed false (by decide) with ⟨t', hEq, hSame⟩
      exact ⟨t', false, hEq, hSame⟩
    · exact ⟨t, true, rfl, Tcb.SameQueue.refl h⟩
  · exact ⟨t, true, rfl, Tcb.SameQueue.refl h⟩

theorem rcvdPayload_sameQueue
    (h : t.Balanced) :
    ∃ t', rcvdPayload cfg env t seg = some t' ∧ t.SameQueue t' := by
  unfold rcvdPayload
  split
  · have hAccept : t.SameQueue (acceptPayload t seg) := by
      unfold acceptPayload
      split
      · exact ⟨h.congr rfl rfl rfl, rfl, rfl, fun hState => ⟨hState, rfl⟩⟩
      · exact Tcb.SameQueue.refl h
    dsimp only
    split
    · exact ⟨_, rfl, hAccept⟩
    · rcases @sendAck_sameQueue cfg env _ hAccept.balanced with ⟨t', hSend, hSame⟩
      exact ⟨t', hSend, hAccept.trans hSame⟩
  · exact ⟨t, rfl, Tcb.SameQueue.refl h⟩

theorem rcvdFin_sameQueue
    (h : t.Balanced) :
    ∃ t', rcvdFin cfg env t seg = some t' ∧ t.SameQueue t' := by
  unfold rcvdFin
  split
  · split
    · exact ⟨t, rfl, Tcb.SameQueue.refl h⟩
    · have hNext : t.SameQueue { t with rcvNxt := seg.seqNum + pktGetSegLen seg } :=
        ⟨h.congr rfl rfl rfl, rfl, rfl, fun hState => ⟨hState, rfl⟩⟩
      rcases @sendAck_sameQueue cfg env _ hNext.balanced with ⟨t₁, hSend, hSame⟩
      have hFirst := hNext.trans hSame
      have hTo : ∀ state, state ≠ .synSent → state ≠ .closed →
            ∃ t', transitionTo t₁ state = some t' ∧ t.SameQueue t' := by
        intro state hSynSent hNe
        rcases transitionTo_sameQueue state hFirst.balanced
            hSynSent (fun hClosed => absurd hClosed hNe) with
          ⟨t', hEq, hLast⟩
        exact ⟨t', hEq, hFirst.trans hLast⟩
      simp only [hSend, Option.bind_eq_bind, Option.bind_some]
      split
      · exact hTo _ (by decide) (by decide)
      · exact hTo _ (by decide) (by decide)
      · split
        · exact hTo _ (by decide) (by decide)
        · exact hTo _ (by decide) (by decide)
      · exact hTo _ (by decide) (by decide)
      · exact ⟨t₁, rfl, hFirst⟩
  · exact ⟨t, rfl, Tcb.SameQueue.refl h⟩

----
-- Acknowledgements
----

/- A new acknowledgement is processed. -/
structure Tcb.Acked
    (t : Tcb) (seg : TcpSegment)
    (t' : Tcb) : Prop where
  balanced : t'.Balanced
  queue_eq : t'.pktRetransmit = ackedQueue t.pktRetransmit seg.ackNum
  sndUna_eq : t'.sndUna = seg.ackNum
  new : t.sndUna ≠ seg.ackNum

/- What a segment with an acknowledgement does. -/
def Tcb.AckStep
    (t : Tcb) (seg : TcpSegment) (t' : Tcb) : Prop :=
  t.SameQueue t' ∨ (t.Acked seg t' ∧ t'.state ≠ .synSent)

theorem Tcb.AckStep.balanced
    (h : t.AckStep seg t') :
    t'.Balanced := by
  rcases h with hSame | ⟨hAcked, _⟩
  · exact hSame.balanced
  · exact hAcked.balanced

theorem Tcb.Acked.sameQueue
    (h : t.Acked seg t') (h' : t'.SameQueue t'') :
    t.Acked seg t'' :=
  ⟨h'.balanced, h'.queue_eq.trans h.queue_eq, h'.sndUna_eq.trans h.sndUna_eq, h.new⟩

theorem Tcb.SameQueue.acked
    (h : t.SameQueue t') (h' : t'.Acked seg t'') :
    t.Acked seg t'' := by
  refine ⟨h'.balanced, ?_, h'.sndUna_eq, ?_⟩
  · rw [h'.queue_eq, h.queue_eq]
  · rw [← h.sndUna_eq]
    exact h'.new

theorem Tcb.AckStep.sameQueue
    (h : t.AckStep seg t') (h' : t'.SameQueue t'') :
    t.AckStep seg t'' := by
  rcases h with hSame | ⟨hAcked, hState⟩
  · exact Or.inl (hSame.trans h')
  · refine Or.inr ⟨hAcked.sameQueue h', ?_⟩
    intro hSynSent
    exact hState (h'.synSent hSynSent).1

/- The acknowledged packet leaves the queue. -/
theorem pktAcknowledge_acked
    (h : t.Balanced) (hNew : t.sndUna ≠ seg.ackNum) :
    ∃ t', pktAcknowledge { t with sndUna := seg.ackNum } seg.ackNum = some t' ∧
      t.Acked seg t' ∧ t'.state = t.state ∧ t'.iss = t.iss := by
  rcases @pktAcknowledge_spec { t with sndUna := seg.ackNum }
      (h.congr rfl rfl rfl) seg.ackNum with
    ⟨hAck, hBalanced⟩
  exact ⟨_, hAck, ⟨hBalanced, rfl, rfl, hNew⟩, rfl, rfl⟩

theorem ne_of_lss32Bit
    {x y : UInt32} (hLss : lss32Bit x y = true) :
    x ≠ y := by
  rintro rfl
  rw [lss32Bit_iff, UInt32.sub_self] at hLss
  exact absurd hLss (by decide)

theorem rcvdAck_ackStep
    (h : t.Balanced) :
    ∃ t' further, rcvdAck cfg env t seg = some (t', further) ∧ t.AckStep seg t' := by
  rcases @rcvdAckSynRcvd_sameQueue cfg env t seg h with ⟨t₁, hSynRcvd, hSame⟩
  have hCheck : ∀ t₂, t.AckStep seg t₂ → ∃ t' further,
          checkFinAcked (updateSndWnd t₂ seg) = some (t', further) ∧ t.AckStep seg t' := by
    intro t₂ hStep
    have hWnd := @updateSndWnd_sameQueue t₂ seg hStep.balanced
    rcases checkFinAcked_sameQueue hWnd.balanced with ⟨t', further, hEq, hNext⟩
    exact ⟨t', further, hEq, hStep.sameQueue (hWnd.trans hNext)⟩
  unfold rcvdAck
  simp only [hSynRcvd, Option.bind_eq_bind, Option.bind_some]
  split
  · rename_i hTakes
    split
    · rename_i hNew
      have hNew := ne_of_lss32Bit (Bool.and_eq_true_iff.mp hNew).1
      rcases pktAcknowledge_acked hSame.balanced hNew with ⟨t₂, hAck, hAcked, hState, _⟩
      rw [hAck, Option.bind_some]
      refine hCheck t₂ (Or.inr ⟨hSame.acked hAcked, ?_⟩)
      rw [hState]
      intro hSynSent
      rw [hSynSent] at hTakes
      cases hTakes
    · split
      · rcases @sendAck_sameQueue cfg env t₁ hSame.balanced with ⟨t₂, hSend, hNext⟩
        rw [hSend]
        exact ⟨t₂, false, rfl, Or.inl (hSame.trans hNext)⟩
      · exact hCheck t₁ (Or.inl hSame)
  · exact ⟨t₁, true, rfl, Or.inl hSame⟩

/- A segment that neither resets nor opens. -/
theorem rcvdOther_ackStep
    (h : t.Balanced) (hRst : seg.ctl.rst = false) (hSyn : seg.ctl.syn = false) :
    ∃ t', rcvdOther cfg env t seg = some t' ∧ t.AckStep seg t' := by
  unfold rcvdOther
  simp only [hRst, hSyn, Bool.false_eq_true, if_false]
  split
  · rcases @sendAck_sameQueue cfg env t h with ⟨t', hSend, hSame⟩
    exact ⟨t', hSend, Or.inl hSame⟩
  · split
    · rcases @rcvdAck_ackStep cfg env t seg h with ⟨t₁, further, hAck, hStep⟩
      simp only [hAck, Option.bind_eq_bind, Option.bind_some]
      split
      · rcases @rcvdPayload_sameQueue cfg env t₁ seg hStep.balanced with ⟨t₂, hPayload, hSame⟩
        rcases @rcvdFin_sameQueue cfg env t₂ seg hSame.balanced with ⟨t₃, hFin, hSame'⟩
        rw [hPayload, Option.bind_some, hFin]
        exact ⟨t₃, rfl, hStep.sameQueue (hSame.trans hSame')⟩
      · exact ⟨t₁, rfl, hStep⟩
    · exact ⟨t, rfl, Or.inl (Tcb.SameQueue.refl h)⟩

/- The SYN+ACK that is waited for. -/
theorem rcvdSynSentSyn_acked
    (h : t.Balanced) (hAck : seg.ctl.ack = true) (hNew : t.sndUna ≠ seg.ackNum)
    (hGt : seg.ackNum > t.iss) :
    ∃ t', rcvdSynSentSyn cfg env t seg = some t' ∧ t.Acked seg t' ∧ t'.state = .established := by
  have hOpened : t.SameQueue
        { t with rcvNxt := seg.seqNum + 1, irs := seg.seqNum } :=
    ⟨h.congr rfl rfl rfl, rfl, rfl, fun hState => ⟨hState, rfl⟩⟩
  rcases @pktAcknowledge_acked
      { t with rcvNxt := seg.seqNum + 1, irs := seg.seqNum } seg hOpened.balanced hNew with
    ⟨t₁, hAck₁, hAcked, _, hIss⟩
  rcases @sendAck_sameQueue cfg env t₁ hAcked.balanced with ⟨t₂, hSend, hSame⟩
  have hLast : t₂.SameQueue
        { t₂ with
          state := .established
          sndWnd := seg.window
          sndWl1 := seg.seqNum
          sndWl2 := seg.ackNum } := by
    refine ⟨hSame.balanced.congr rfl rfl rfl, rfl, rfl, ?_⟩
    intro hState
    cases hState
  have hPast : t₁.sndUna > t₁.iss := by
    rw [hAcked.sndUna_eq, hIss]
    exact hGt
  unfold rcvdSynSentSyn
  simp only [hAck, if_true, hAck₁, Option.bind_eq_bind, Option.bind_some, hPast, hSend]
  rw [transitionTo_of_ne (by decide), Option.bind_some]
  exact ⟨_, rfl, (hOpened.acked hAcked).sameQueue (hSame.trans hLast), rfl⟩

/- An acknowledgement in the state SYN_SENT. -/
theorem rcvdSynSent_ackStep
    (h : t.Balanced) (hRst : seg.ctl.rst = false) (hAck : seg.ctl.ack = true)
    (hUna : t.sndUna = t.iss) :
    ∃ t', rcvdSynSent cfg env t seg = some t' ∧ t.AckStep seg t' := by
  unfold rcvdSynSent
  simp only [hRst, hAck, Bool.true_and, Bool.false_eq_true, if_false]
  split
  · rcases @buildSend_sameQueue cfg env t h
        { TcpCtl.none with rst := true } seg.ackNum 0 [] with
      ⟨t', hSend, hSame⟩
    exact ⟨t', hSend, Or.inl hSame⟩
  · rename_i hRange
    simp only [Bool.or_eq_true, decide_eq_true_eq, not_or] at hRange
    have hGt : seg.ackNum > t.iss := UInt32.not_le.mp hRange.1
    have hNew : t.sndUna ≠ seg.ackNum := by
      rw [hUna]
      exact UInt32.ne_of_lt hGt
    split
    · rcases @rcvdSynSentSyn_acked cfg env t seg h hAck hNew hGt with ⟨t', hSyn, hAcked, hState⟩
      refine ⟨t', hSyn, Or.inr ⟨hAcked, ?_⟩⟩
      rw [hState]
      decide
    · exact ⟨t, rfl, Or.inl (Tcb.SameQueue.refl h)⟩

end

----
-- The Invariant
----

/- What holds of a connection between two calls. -/
structure Tcb.Ok
    (t : Tcb) : Prop where
  balanced : t.Balanced
  synSent : t.state = .synSent → t.sndUna = t.iss

section

variable {cfg : TcpConfig} {env : TcpEnv} {t t' t'' : Tcb} {seg : TcpSegment}

theorem Tcb.Ok.sameQueue
    (h : t.Ok) (hSame : t.SameQueue t') :
    t'.Ok := by
  refine ⟨hSame.balanced, ?_⟩
  intro hState
  rcases hSame.synSent hState with ⟨hState', hIss⟩
  rw [hSame.sndUna_eq, hIss]
  exact h.synSent hState'

theorem Tcb.Ok.ackStep
    (h : t.Ok) (hStep : t.AckStep seg t') :
    t'.Ok := by
  rcases hStep with hSame | ⟨hAcked, hState⟩
  · exact h.sameQueue hSame
  · exact ⟨hAcked.balanced, fun hSynSent => absurd hSynSent hState⟩

theorem Tcb.SameQueue.ackStep
    (h : t.SameQueue t') (h' : t'.AckStep seg t'') :
    t.AckStep seg t'' := by
  rcases h' with hSame | ⟨hAcked, hState⟩
  · exact Or.inl (h.trans hSame)
  · exact Or.inr ⟨h.acked hAcked, hState⟩

/- After a transition to another state. -/
theorem transitionTo_ok
    (state : FsmState) (h : t.Balanced) (hNe : state ≠ .synSent) :
    ∃ t', transitionTo t state = some t' ∧ t'.Ok := by
  rcases transitionTo_spec h state with ⟨t', hEq, hBalanced, hState⟩
  refine ⟨t', hEq, hBalanced, ?_⟩
  intro hSynSent
  rw [hState] at hSynSent
  exact absurd hSynSent hNe

theorem rcvdOther_ok
    (h : t.Ok) :
    ∃ t', rcvdOther cfg env t seg = some t' ∧ t'.Ok := by
  by_cases hCtl : seg.ctl.rst = false ∧ seg.ctl.syn = false
  · rcases @rcvdOther_ackStep cfg env t seg h.balanced hCtl.1 hCtl.2 with ⟨t', hEq, hStep⟩
    exact ⟨t', hEq, h.ackStep hStep⟩
  · unfold rcvdOther
    split
    · split
      · exact ⟨t, rfl, h⟩
      · rcases @sendAck_sameQueue cfg env t h.balanced with ⟨t', hSend, hSame⟩
        exact ⟨t', hSend, h.sameQueue hSame⟩
    · split
      · split
        · exact transitionTo_ok _ h.balanced (by decide)
        · exact transitionTo_ok _ h.balanced (by decide)
      · split
        · rcases @buildSend_sameQueue cfg env t h.balanced
              { TcpCtl.none with rst := true } t.sndNxt
              t.rcvNxt [] with
            ⟨t₁, hSend, hSame⟩
          rw [hSend, Option.bind_some]
          exact transitionTo_ok _ hSame.balanced (by decide)
        · rename_i hRst hSyn
          exact absurd ⟨by simpa using hRst, by simpa using hSyn⟩ hCtl

/- A reset leaves no reference. -/
theorem pktBuildResetFromPkt_sameQueue
    (h : t.Balanced) :
    ∃ t', pktSend env (pktBuildResetFromPkt env t seg).1
        (pktBuildResetFromPkt env t seg).2 0 false = some t' ∧ t.SameQueue t' := by
  unfold pktBuildResetFromPkt
  by_cases hAlloc : env.alloc t.nextId = true
  · rw [if_pos hAlloc]
    dsimp only
    rcases pktSend_fresh (p := ⟨t.nextId, _⟩) h env 0 rfl with ⟨sent, hSend⟩
    exact ⟨_, hSend, h.skip _ _, rfl, rfl, fun hState => ⟨hState, rfl⟩⟩
  · rw [if_neg hAlloc]
    exact ⟨_, rfl, h.skip t.sndNxt t.sent, rfl, rfl, fun hState => ⟨hState, rfl⟩⟩

/- An acknowledgement in the state LISTEN is reset. -/
theorem rcvdListen_sameQueue
    (h : t.Balanced) (hAck : seg.ctl.ack = true) :
    ∃ t', rcvdListen cfg env t seg = some t' ∧ t.SameQueue t' := by
  unfold rcvdListen
  rw [if_pos hAck]
  split
  · exact ⟨t, rfl, Tcb.SameQueue.refl h⟩
  · exact pktBuildResetFromPkt_sameQueue h

theorem rcvdListen_ok
    (h : t.Ok) :
    ∃ t', rcvdListen cfg env t seg = some t' ∧ t'.Ok := by
  by_cases hAck : seg.ctl.ack = true
  · rcases @rcvdListen_sameQueue cfg env t seg h.balanced hAck with ⟨t', hEq, hSame⟩
    exact ⟨t', hEq, h.sameQueue hSame⟩
  · unfold rcvdListen
    rw [if_neg hAck]
    split
    · exact ⟨t, rfl, h⟩
    · split
      · split
        · exact ⟨t, rfl, h⟩
        · dsimp only
          rcases @buildQueueSend_spec cfg env
              { t with
                irs := seg.seqNum
                rcvNxt := seg.seqNum + 1
                iss := env.random
                sndUna := env.random
                sndNxt := env.random
                sndWnd := seg.window }
              (h.balanced.congr rfl rfl rfl)
              { TcpCtl.none with syn := true, ack := true } env.random (seg.seqNum + 1) [] with
            ⟨owned, sent, hSend, hNext⟩
          rw [hSend, Option.bind_some]
          exact transitionTo_ok _ hNext (by decide)
      · exact ⟨t, rfl, h⟩

theorem rcvdSynSent_ok
    (h : t.Ok) (hState : t.state = .synSent) :
    ∃ t', rcvdSynSent cfg env t seg = some t' ∧ t'.Ok := by
  by_cases hCtl : seg.ctl.rst = false ∧ seg.ctl.ack = true
  · rcases @rcvdSynSent_ackStep cfg env t seg h.balanced hCtl.1
        hCtl.2 (h.synSent hState) with
      ⟨t', hEq, hStep⟩
    exact ⟨t', hEq, h.ackStep hStep⟩
  · unfold rcvdSynSent
    split
    · split
      · exact ⟨t, rfl, h⟩
      · rcases @buildSend_sameQueue cfg env t h.balanced
            { TcpCtl.none with rst := true } seg.ackNum 0 [] with
          ⟨t', hSend, hSame⟩
        exact ⟨t', hSend, h.sameQueue hSame⟩
    · split
      · split
        · exact transitionTo_ok _ h.balanced (by decide)
        · exact ⟨t, rfl, h⟩
      · rename_i hRst
        have hNoAck : seg.ctl.ack = false := by
          by_contra hAck
          exact hCtl ⟨by simpa using hRst, by simpa using hAck⟩
        split
        · -- a SYN without an acknowledgement
          have hNot : ¬ t.sndUna > t.iss := by
            rw [h.synSent hState]
            exact UInt32.lt_irrefl t.iss
          unfold rcvdSynSentSyn
          simp only [hNoAck, Bool.false_eq_true, if_false,
            Option.bind_eq_bind, Option.bind_some, hNot]
          rcases @buildQueueSend_spec cfg env
              { t with rcvNxt := seg.seqNum + 1, irs := seg.seqNum }
              (h.balanced.congr rfl rfl rfl)
              { TcpCtl.none with syn := true, ack := true } t.iss (seg.seqNum + 1) [] with
            ⟨owned, sent, hSend, hNext⟩
          rw [hSend, Option.bind_some, transitionTo_of_ne (by decide), Option.bind_some]
          refine ⟨_, rfl, hNext.congr rfl rfl rfl, ?_⟩
          intro hSynSent
          cases hSynSent
        · exact ⟨t, rfl, h⟩

/- The segments that only acknowledge. -/
def Tcb.Acknowledges
    (t : Tcb) (seg : TcpSegment) : Prop :=
  seg.ctl.ack = true ∧ seg.ctl.rst = false ∧ (seg.ctl.syn = false ∨ t.state = .synSent)

theorem fsmRcvdPkt_spec
    (h : t.Ok) :
    ∃ t', fsmRcvdPkt cfg env t seg = some t' ∧ t'.Ok ∧ (t.Acknowledges seg → t.AckStep seg t') := by
  have hMss : ∀ mss, t.SameQueue { t with mss := mss } :=
    fun _ => ⟨h.balanced.congr rfl rfl rfl, rfl, rfl, fun hState => ⟨hState, rfl⟩⟩
  unfold fsmRcvdPkt
  dsimp only
  generalize (optionParse seg.options.length t.mss seg.options).1 = mss
  have hOk := h.sameQueue (hMss mss)
  split
  · split
    · rename_i hState
      by_cases hAck : seg.ctl.ack = true
      · rcases @rcvdListen_sameQueue cfg env _ seg hOk.balanced hAck with ⟨t', hEq, hSame⟩
        exact ⟨t', hEq, hOk.sameQueue hSame, fun _ => Or.inl ((hMss mss).trans hSame)⟩
      · rcases @rcvdListen_ok cfg env _ seg hOk with ⟨t', hEq, hNext⟩
        exact ⟨t', hEq, hNext, fun hAcks => absurd hAcks.1 hAck⟩
    · rename_i hState
      by_cases hCtl : seg.ctl.rst = false ∧ seg.ctl.ack = true
      · rcases @rcvdSynSent_ackStep cfg env _ seg hOk.balanced
            hCtl.1 hCtl.2 (hOk.synSent hState) with
          ⟨t', hEq, hStep⟩
        exact ⟨t', hEq, hOk.ackStep hStep, fun _ => (hMss mss).ackStep hStep⟩
      · rcases @rcvdSynSent_ok cfg env _ seg hOk hState with ⟨t', hEq, hNext⟩
        exact ⟨t', hEq, hNext, fun hAcks => absurd ⟨hAcks.2.1, hAcks.1⟩ hCtl⟩
    · rename_i hSynSent
      by_cases hCtl : seg.ctl.rst = false ∧ seg.ctl.syn = false
      · rcases @rcvdOther_ackStep cfg env _ seg hOk.balanced hCtl.1 hCtl.2 with ⟨t', hEq, hStep⟩
        exact ⟨t', hEq, hOk.ackStep hStep, fun _ => (hMss mss).ackStep hStep⟩
      · rcases @rcvdOther_ok cfg env _ seg hOk with ⟨t', hEq, hNext⟩
        refine ⟨t', hEq, hNext, ?_⟩
        rintro ⟨_, hRst, hSyn | hState⟩
        · exact absurd ⟨hRst, hSyn⟩ hCtl
        · exact absurd hState hSynSent
  · exact ⟨_, rfl, hOk, fun _ => Or.inl (hMss mss)⟩

end

end Riot
