import Riot.Net.GnrcTcp

/-
  The references of packets that a connection owns.

  Between two calls, a connection owns one reference of the
  packet in its retransmission queue, and no other one. Every
  function that builds, queues, sends or acknowledges a packet
  keeps it so.
-/

----
-- Balance
----

namespace Riot

/- The references that belong to the queue. -/
def queueRefs
    (queue : Option TcpPkt) : Nat → Nat :=
  fun id => if queue.any (fun p => p.id == id) then 1 else 0

structure Tcb.Balanced
    (t : Tcb) : Prop where
  owned_eq : t.owned = queueRefs t.pktRetransmit
  fresh : ∀ p, t.pktRetransmit = some p → p.id < t.nextId
  resent : ∀ p, t.pktRetransmit = some p → p.seg.sentOnce = false

/- What sending changes of a connection. -/
def Tcb.rebook
    (t : Tcb) (sndNxt : UInt32) (queue : Option TcpPkt) (owned : Nat → Nat) (nextId : Nat)
    (sent : List TcpPkt) : Tcb :=
  { t with
    sndNxt := sndNxt
    pktRetransmit := queue
    owned := owned
    nextId := nextId
    sent := sent }

@[simp]
theorem queueRefs_none :
    queueRefs none = fun _ => 0 := rfl

@[simp]
theorem queueRefs_self
    (p : TcpPkt) :
    queueRefs (some p) p.id = 1 := by
  simp [queueRefs]

theorem queueRefs_of_ne
    {queue : Option TcpPkt} {id : Nat} (hNe : ∀ p, queue = some p → p.id ≠ id) :
    queueRefs queue id = 0 := by
  cases queue with
  | none => rfl
  | some p => simp [queueRefs, hNe p rfl]

/- The only reference is given back. -/
theorem update_queueRefs_zero
    (p : TcpPkt) :
    Function.update (queueRefs (some p)) p.id 0 = queueRefs none := by
  funext id
  by_cases hId : id = p.id
  · subst hId
    simp
  · rw [Function.update_of_ne hId]
    exact queueRefs_of_ne (by
      intro q hq
      cases hq
      exact Ne.symm hId)

section

variable {cfg : TcpConfig} {env : TcpEnv} {t t' : Tcb}

/- Other fields do not matter. -/
theorem Tcb.Balanced.congr
    (h : t.Balanced) (hQueue : t'.pktRetransmit = t.pktRetransmit)
    (hOwned : t'.owned = t.owned) (hNextId : t'.nextId = t.nextId) :
    t'.Balanced := by
  refine ⟨?_, ?_, ?_⟩
  · rw [hOwned, hQueue]
    exact h.owned_eq
  · rw [hQueue, hNextId]
    exact h.fresh
  · rw [hQueue]
    exact h.resent

theorem Tcb.balanced_init :
    Tcb.init.Balanced :=
  ⟨rfl, by simp [Tcb.init], by simp [Tcb.init]⟩

theorem pktbufRelease_eq
    {id n : Nat} (hOwned : t.owned id = n + 1) :
    pktbufRelease t id = some { t with owned := Function.update t.owned id n } := by
  rw [pktbufRelease, if_neg (by omega), hOwned]
  rfl

theorem Tcb.Balanced.fresh_ne
    (h : t.Balanced) :
    ∀ p, t.pktRetransmit = some p → p.id ≠ t.nextId :=
  fun p hp => Nat.ne_of_lt (h.fresh p hp)

theorem Tcb.Balanced.eq_rebook
    (h : t.Balanced) :
    t = t.rebook t.sndNxt t.pktRetransmit (queueRefs t.pktRetransmit) t.nextId t.sent := by
  rw [← h.owned_eq]
  rfl

/- A balanced connection that used up packet ids. -/
theorem Tcb.Balanced.skip
    (h : t.Balanced) (sndNxt : UInt32) (sent : List TcpPkt) :
    (t.rebook sndNxt t.pktRetransmit t.owned (t.nextId + 1) sent).Balanced :=
  ⟨h.owned_eq, fun p hp => Nat.lt_succ_of_lt (h.fresh p hp), h.resent⟩

----
-- Sending
----

/- The reference of a packet is passed on or given back. -/
theorem pktSend_some
    {p : TcpPkt} {n : Nat} (env : TcpEnv) (seqCon : UInt16) (retransmit : Bool)
    (hOwned : t.owned p.id = n + 1) :
    ∃ sent, pktSend env t (some p) seqCon retransmit = some (t.rebook
          (t.sndNxt + if retransmit then 0 else seqCon.toUInt32)
          t.pktRetransmit
          (Function.update t.owned p.id n) t.nextId sent) := by
  unfold pktSend
  cases retransmit with
  | true =>
    simp only [if_true]
    rw [pktbufRelease_eq hOwned, UInt32.add_zero]
    split
    · exact ⟨_, rfl⟩
    · exact ⟨_, rfl⟩
  | false =>
    simp only [Bool.false_eq_true, if_false]
    rw [pktbufRelease_eq (n := n) (by exact hOwned)]
    split
    · exact ⟨_, rfl⟩
    · exact ⟨_, rfl⟩

/- A new packet that is not queued leaves no reference. -/
theorem pktSend_fresh
    {p : TcpPkt} (h : t.Balanced) (env : TcpEnv) (seqCon : UInt16)
    (hId : p.id = t.nextId) :
    ∃ sent, pktSend env { t with
            owned := Function.update t.owned t.nextId 1
            nextId := t.nextId + 1 } (some p) seqCon false =
        some (t.rebook (t.sndNxt + seqCon.toUInt32)
          t.pktRetransmit t.owned (t.nextId + 1) sent) := by
  have hZero : t.owned t.nextId = 0 := by
    rw [h.owned_eq]
    exact queueRefs_of_ne h.fresh_ne
  have hBack : Function.update (Function.update t.owned t.nextId 1) p.id 0 = t.owned := by
    rw [hId, Function.update_idem, ← hZero, Function.update_eq_self]
  rcases pktSend_some
      (t := { t with owned := Function.update t.owned t.nextId 1, nextId := t.nextId + 1 })
      (p := p) (n := 0) env seqCon false
      (by rw [hId]; exact Function.update_self ..) with
    ⟨sent, hSend⟩
  refine ⟨sent, ?_⟩
  rw [hSend]
  simp only [Tcb.rebook, hBack, Bool.false_eq_true, if_false]

/- Packets that are sent only once, for any advance. -/
theorem pktBuild_send
    (h : t.Balanced)
    (ctl : TcpCtl) (seqNum ackNum : UInt32) (payload : List UInt8) (seqCon : UInt16) :
    ∃ sent, pktSend env (pktBuild cfg env t ctl seqNum ackNum payload).1
          (pktBuild cfg env t ctl seqNum ackNum payload).2.1
          seqCon false =
        some (t.rebook (t.sndNxt + if env.alloc t.nextId then seqCon.toUInt32 else 0)
          t.pktRetransmit t.owned (t.nextId + 1) sent) := by
  unfold pktBuild
  by_cases hAlloc : env.alloc t.nextId = true
  · rw [if_pos hAlloc, if_pos hAlloc]
    exact pktSend_fresh h env seqCon rfl
  · rw [if_neg hAlloc, if_neg hAlloc, UInt32.add_zero]
    exact ⟨t.sent, rfl⟩

/- What a call may advance the next sequence number by. -/
def advance
    (env : TcpEnv) (t : Tcb) (ctl : TcpCtl) (payload : List UInt8) : UInt32 :=
  if env.alloc t.nextId then
    (seqConsumed ctl payload).toUInt32
  else
    0

theorem buildSend_spec
    (h : t.Balanced)
    (ctl : TcpCtl) (seqNum ackNum : UInt32) (payload : List UInt8) :
    ∃ owned sent, buildSend cfg env t ctl seqNum ackNum payload =
        some (t.rebook (t.sndNxt + advance env t ctl payload)
          t.pktRetransmit owned (t.nextId + 1) sent) ∧
      (t.rebook (t.sndNxt + advance env t ctl payload)
        t.pktRetransmit owned (t.nextId + 1) sent).Balanced := by
  rcases @pktBuild_send cfg env t h ctl seqNum ackNum payload
      (pktBuild cfg env t ctl seqNum ackNum payload).2.2 with
    ⟨sent, hSend⟩
  refine ⟨t.owned, sent, ?_, h.skip _ _⟩
  have hCon : (if env.alloc t.nextId then
        (pktBuild cfg env t ctl seqNum ackNum payload).2.2.toUInt32
      else 0) = advance env t ctl payload := by
    unfold advance pktBuild
    split <;> rfl
  rw [hCon] at hSend
  exact hSend

/- A pure acknowledgement changes the references only. -/
theorem sendAck_spec
    (h : t.Balanced) :
    ∃ owned sent,
      sendAck cfg env t = some (t.rebook t.sndNxt t.pktRetransmit owned (t.nextId + 1) sent) ∧
      (t.rebook t.sndNxt t.pktRetransmit owned (t.nextId + 1) sent).Balanced := by
  have hZero : advance env t { TcpCtl.none with ack := true } [] = 0 := by
    unfold advance
    split <;> rfl
  have hSpec := @buildSend_spec cfg env t h { TcpCtl.none with ack := true } t.sndNxt t.rcvNxt []
  rwa [hZero, UInt32.add_zero] at hSpec

/- The packet in the queue after a call. -/
def queueAfter
    (cfg : TcpConfig) (env : TcpEnv) (t : Tcb) (ctl : TcpCtl) (seqNum ackNum : UInt32)
    (payload : List UInt8) : Option TcpPkt :=
  if env.alloc t.nextId = true ∧ t.pktRetransmit = none ∧
      (builtPkt cfg t ctl seqNum ackNum
        payload).seg.sentOnce = false then
    some (builtPkt cfg t ctl seqNum ackNum payload)
  else
    t.pktRetransmit

/- A packet is queued if none is there. -/
theorem pktSetupRetransmit_free
    {p : TcpPkt} (hFree : t.pktRetransmit = none) (hOnce : p.seg.sentOnce = false) :
    pktSetupRetransmit t (some p) = pktbufHold { t with pktRetransmit := some p } p.id := by
  unfold pktSetupRetransmit
  simp [hFree, hOnce]

theorem pktSetupRetransmit_kept
    {p : TcpPkt}
    (hKept : (∃ q, t.pktRetransmit = some q ∧ q.id ≠ p.id) ∨ p.seg.sentOnce = true) :
    pktSetupRetransmit t (some p) = t := by
  unfold pktSetupRetransmit
  dsimp only
  rcases hKept with ⟨q, hQueue, hNe⟩ | hOnce
  · rw [if_pos (by simp [hQueue, hNe])]
  · rw [hOnce]
    split
    · rfl
    · rfl

theorem buildQueueSend_spec
    (h : t.Balanced)
    (ctl : TcpCtl) (seqNum ackNum : UInt32) (payload : List UInt8) :
    ∃ owned sent, buildQueueSend cfg env t ctl seqNum ackNum payload =
        some (t.rebook (t.sndNxt + advance env t ctl payload)
          (queueAfter cfg env t ctl seqNum ackNum payload)
          owned (t.nextId + 1) sent) ∧
      (t.rebook (t.sndNxt + advance env t ctl payload)
        (queueAfter cfg env t ctl seqNum ackNum payload)
        owned (t.nextId + 1) sent).Balanced := by
  by_cases hQueued : env.alloc t.nextId = true ∧ t.pktRetransmit = none ∧
        (builtPkt cfg t ctl seqNum ackNum payload).seg.sentOnce = false
  · rcases hQueued with ⟨hAlloc, hFree, hOnce⟩
    unfold buildQueueSend pktBuild advance queueAfter
    rw [if_pos hAlloc, if_pos hAlloc, if_pos ⟨hAlloc, hFree, hOnce⟩]
    dsimp only
    rw [pktSetupRetransmit_free (t := { t with
        owned := Function.update t.owned t.nextId 1
        nextId := t.nextId + 1 }) hFree hOnce]
    rcases pktSend_some
        (t := pktbufHold { t with
          pktRetransmit := some (builtPkt cfg t ctl seqNum ackNum payload)
          owned := Function.update t.owned t.nextId 1
          nextId := t.nextId + 1 } t.nextId)
        (p := builtPkt cfg t ctl seqNum ackNum payload)
        (n := 1) env (seqConsumed ctl payload) false
        (by simp [pktbufHold, builtPkt]) with
      ⟨sent, hSend⟩
    refine ⟨_, sent, hSend, ?_, ?_, ?_⟩
    · have hZero : t.owned = fun _ => 0 := by
        rw [h.owned_eq, hFree]
        rfl
      simp only [Tcb.rebook, pktbufHold, Function.update_idem, hZero]
      funext id
      by_cases hId : id = t.nextId
      · subst hId
        simp [queueRefs, builtPkt]
      · simp [queueRefs, builtPkt, Function.update_of_ne hId, Ne.symm hId]
    · intro p hp
      cases hp
      exact Nat.lt_succ_self t.nextId
    · intro p hp
      cases hp
      exact hOnce
  · have hSame : buildQueueSend cfg env t ctl seqNum ackNum payload =
          buildSend cfg env t ctl seqNum ackNum payload := by
      unfold buildQueueSend buildSend pktBuild
      by_cases hAlloc : env.alloc t.nextId = true
      · rw [if_pos hAlloc]
        dsimp only
        rw [pktSetupRetransmit_kept]
        cases hQueue : t.pktRetransmit with
        | none =>
          right
          by_contra hOnce
          exact hQueued ⟨hAlloc, hQueue, by simpa using hOnce⟩
        | some q => exact Or.inl ⟨q, rfl, h.fresh_ne q hQueue⟩
      · rw [if_neg hAlloc]
        rfl
    unfold queueAfter
    rw [hSame, if_neg hQueued]
    exact buildSend_spec h ctl seqNum ackNum payload

/- The queued packet is sent once more and stays. -/
theorem fsmTimeoutRetransmit_spec
    (h : t.Balanced) :
    ∃ sent,
      fsmTimeoutRetransmit env t = some (t.rebook t.sndNxt t.pktRetransmit t.owned t.nextId sent) ∧
      (t.rebook t.sndNxt t.pktRetransmit t.owned t.nextId sent).Balanced := by
  have hBalanced : ∀ sent, (t.rebook t.sndNxt t.pktRetransmit t.owned t.nextId sent).Balanced :=
    fun _ => ⟨h.owned_eq, h.fresh, h.resent⟩
  unfold fsmTimeoutRetransmit
  cases hQueue : t.pktRetransmit with
  | none =>
    refine ⟨t.sent, ?_, ?_⟩
    · simp only [Tcb.rebook, ← hQueue]
    · rw [← hQueue]
      exact hBalanced _
  | some p =>
    have hOwned : t.owned p.id = 1 := by
      rw [h.owned_eq, hQueue, queueRefs_self]
    have hSetup : pktSetupRetransmit t (some p) = pktbufHold { t with pktRetransmit := some p }
            p.id := by
      unfold pktSetupRetransmit
      simp [hQueue, h.resent p hQueue]
    dsimp only
    rw [hSetup]
    rcases pktSend_some
        (t := pktbufHold { t with pktRetransmit := some p } p.id)
        (p := p) (n := 1) env 0 true
        (by simp [pktbufHold, hOwned]) with
      ⟨sent, hSend⟩
    have hBack : Function.update
            (pktbufHold { t with pktRetransmit := some p } p.id).owned p.id 1 = t.owned := by
      simp only [pktbufHold, Function.update_idem]
      rw [← hOwned, Function.update_eq_self]
    rw [hBack] at hSend
    refine ⟨sent, ?_, ?_⟩
    · rw [hSend]
      simp [Tcb.rebook, pktbufHold]
    · rw [← hQueue]
      exact hBalanced sent

----
-- Giving Up the Queue
----

/- The queue is emptied. -/
theorem Tcb.Balanced.emptied
    {p : TcpPkt} (h : t.Balanced) (hQueue : t.pktRetransmit = some p) :
    (pktbufRelease t p.id).map (fun t => { t with pktRetransmit := none }) =
      some (t.rebook t.sndNxt none (queueRefs none) t.nextId t.sent) := by
  have hOwned : t.owned p.id = 0 + 1 := by
    rw [h.owned_eq, hQueue, queueRefs_self]
  rw [pktbufRelease_eq hOwned, h.owned_eq, hQueue, update_queueRefs_zero]
  rfl

theorem balanced_rebook_none
    (sndNxt : UInt32) (nextId : Nat) (sent : List TcpPkt) :
    (t.rebook sndNxt none (queueRefs none) nextId sent).Balanced :=
  ⟨rfl, by simp [Tcb.rebook], by simp [Tcb.rebook]⟩

/- A queue from which the acknowledged packet was taken. -/
def ackedQueue
    (queue : Option TcpPkt) (ack : UInt32) : Option TcpPkt :=
  queue.filter (fun p =>
    !lss32Bit (p.seg.seqNum + pktGetSegLen p.seg - 1) ack)

theorem pktAcknowledge_spec
    (h : t.Balanced) (ack : UInt32) :
    pktAcknowledge t ack = some (t.rebook t.sndNxt (ackedQueue t.pktRetransmit ack)
          (queueRefs (ackedQueue t.pktRetransmit ack)) t.nextId
          t.sent) ∧
      (t.rebook t.sndNxt (ackedQueue t.pktRetransmit ack)
        (queueRefs (ackedQueue t.pktRetransmit ack)) t.nextId
        t.sent).Balanced := by
  have hSame := h.eq_rebook
  have hKept :
      (t.rebook t.sndNxt t.pktRetransmit (queueRefs t.pktRetransmit) t.nextId t.sent).Balanced := by
    rw [← hSame]
    exact h
  unfold pktAcknowledge
  cases hQueue : t.pktRetransmit with
  | none =>
    rw [hQueue] at hSame hKept
    exact ⟨congrArg some hSame, hKept⟩
  | some p =>
    rw [hQueue] at hSame hKept
    dsimp only
    by_cases hAck : lss32Bit (p.seg.seqNum + pktGetSegLen p.seg - 1) ack = true
    · have hNone : ackedQueue (some p) ack = none := by
        simp [ackedQueue, Option.filter_some, hAck]
      rw [if_pos hAck, h.emptied hQueue, hNone]
      exact ⟨rfl, balanced_rebook_none ..⟩
    · have hSome : ackedQueue (some p) ack = some p := by
        simp [ackedQueue, Option.filter_some, hAck]
      rw [if_neg hAck, hSome]
      exact ⟨congrArg some hSame, hKept⟩

theorem clearRetransmit_spec
    (h : t.Balanced) :
    clearRetransmit t = some (t.rebook t.sndNxt none (queueRefs none) t.nextId t.sent) := by
  unfold clearRetransmit
  cases hQueue : t.pktRetransmit with
  | none =>
    have hSame := h.eq_rebook
    rw [hQueue] at hSame
    exact congrArg some hSame
  | some p => exact h.emptied hQueue

/- Only the state CLOSED gives up the queue. -/
theorem transitionTo_of_ne
    {state : FsmState} (hNe : state ≠ .closed) :
    transitionTo t state = some { t with state := state } := by
  cases state with
  | closed => exact absurd rfl hNe
  | _ => rfl

theorem transitionTo_closed
    (h : t.Balanced) :
    transitionTo t .closed = some { t.rebook t.sndNxt none (queueRefs none) t.nextId
            t.sent with
          rcvBufRaw := false
          state := .closed } := by
  unfold transitionTo
  dsimp only
  rw [clearRetransmit_spec h]
  rfl

theorem transitionTo_spec
    (h : t.Balanced) (state : FsmState) :
    ∃ t', transitionTo t state = some t' ∧ t'.Balanced ∧ t'.state = state := by
  by_cases hClosed : state = .closed
  · subst hClosed
    have hNext := balanced_rebook_none (t := t) t.sndNxt t.nextId t.sent
    exact ⟨_, transitionTo_closed h, ⟨hNext.owned_eq, hNext.fresh, hNext.resent⟩, rfl⟩
  · exact ⟨_, transitionTo_of_ne hClosed, ⟨h.owned_eq, h.fresh, h.resent⟩, rfl⟩

end

end Riot
