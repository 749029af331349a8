import Riot.Lib.System
import Riot.Net.TcpRetransmit

/-
  The retransmission queue over whole runs.

  A packet stays in the queue until an acknowledgement at or
  beyond its end is processed. What does not hold is that the
  bytes which `_fsm_call_send` reports are in the queue: the
  failure of an allocation is not reported.
-/

----
-- Calls
----

namespace Riot

section

variable {cfg : TcpConfig} {env : TcpEnv} {t t' : Tcb}

theorem fsmCallOpen_ok
    (h : t.Ok) :
    ∃ t' r, fsmCallOpen cfg env t = some (t', r) ∧ t'.Ok := by
  unfold fsmCallOpen
  cases hBuf : rcvbufGetBuffer cfg env t with
  | none => exact ⟨t, .enomem, rfl, h⟩
  | some t₁ =>
    have hBalanced : t₁.Balanced := by
      unfold rcvbufGetBuffer at hBuf
      split at hBuf
      · cases hBuf
        exact h.balanced
      · rcases Option.map_eq_some_iff.mp hBuf with ⟨buf, _, hEq⟩
        cases hEq
        exact h.balanced.congr rfl rfl rfl
    dsimp only
    split
    · rcases transitionTo_ok .listen
          (t := { t₁ with rcvWnd := cfg.defaultWindow })
          (hBalanced.congr rfl rfl rfl) (by decide) with
        ⟨t', hEq, hNext⟩
      rw [hEq]
      exact ⟨t', .success, rfl, hNext⟩
    · split
      · rcases transitionTo_ok .closed
            (t := { t₁ with
              rcvWnd := cfg.defaultWindow
              iss := env.random
              sndNxt := env.random
              sndUna := env.random })
            (hBalanced.congr rfl rfl rfl) (by decide) with
          ⟨t', hEq, hNext⟩
        rw [hEq]
        exact ⟨t', .eaddrinuse, rfl, hNext⟩
      · rw [transitionTo_of_ne (by decide), Option.bind_some]
        rcases @buildQueueSend_spec cfg env
            { t₁ with
              state := .synSent
              rcvWnd := cfg.defaultWindow
              iss := env.random
              sndNxt := env.random
              sndUna := env.random }
            (hBalanced.congr rfl rfl rfl)
            { TcpCtl.none with syn := true } env.random 0
            [] with
          ⟨owned, sent, hSend, hNext⟩
        rw [hSend]
        exact ⟨_, .success, rfl, hNext, fun _ => rfl⟩

theorem fsmCallRecv_sameQueue
    (h : t.Balanced) (len : Nat) :
    ∃ t' bytes, fsmCallRecv cfg env t len = some (t', bytes) ∧ t.SameQueue t' := by
  unfold fsmCallRecv
  split
  · exact ⟨t, [], rfl, Tcb.SameQueue.refl h⟩
  · dsimp only
    split
    · rcases @sendAck_sameQueue cfg env
          { t with
            rcvBuf := (t.rcvBuf.get len).1
            rcvWnd := UInt16.ofNat (t.rcvBuf.get len).1.getFree }
          (h.congr rfl rfl rfl) with
        ⟨t', hSend, hSame⟩
      rw [hSend]
      exact ⟨t', _, rfl, hSame.balanced, hSame.queue_eq, hSame.sndUna_eq, hSame.synSent⟩
    · exact ⟨_, _, rfl, h.congr rfl rfl rfl, rfl, rfl, fun hState => ⟨hState, rfl⟩⟩

theorem fsmCallClose_ok
    (h : t.Ok) :
    ∃ t', fsmCallClose cfg env t = some t' ∧ t'.Ok := by
  have hSent : ∃ t₁, (if t.state = .synRcvd ∨ t.state = .established ∨ t.state = .closeWait then
          buildQueueSend cfg env t
            { TcpCtl.none with fin := true, ack := true } t.sndNxt t.rcvNxt []
        else
          some t) = some t₁ ∧ t₁.Ok := by
    split
    · rcases @buildQueueSend_spec cfg env t h.balanced
          { TcpCtl.none with fin := true, ack := true } t.sndNxt t.rcvNxt [] with
        ⟨owned, sent, hSend, hNext⟩
      exact ⟨_, hSend, hNext, h.synSent⟩
    · exact ⟨t, rfl, h⟩
  rcases hSent with ⟨t₁, hSent, hOk⟩
  unfold fsmCallClose
  rw [hSent, Option.bind_eq_bind, Option.bind_some]
  split
  · exact transitionTo_ok _ hOk.balanced (by decide)
  · exact transitionTo_ok _ hOk.balanced (by decide)
  · exact transitionTo_ok _ hOk.balanced (by decide)
  · exact transitionTo_ok _ hOk.balanced (by decide)
  · exact ⟨t₁, rfl, hOk⟩

theorem fsmCallAbort_ok
    (h : t.Ok) :
    ∃ t', fsmCallAbort cfg env t = some t' ∧ t'.Ok := by
  unfold fsmCallAbort
  split
  · rcases @buildSend_sameQueue cfg env t h.balanced
        { TcpCtl.none with rst := true } t.sndNxt t.rcvNxt
        [] with
      ⟨t₁, hSend, hSame⟩
    rw [hSend, Option.bind_eq_bind, Option.bind_some]
    exact transitionTo_ok .closed hSame.balanced (by decide)
  · exact transitionTo_ok .closed h.balanced (by decide)

theorem fsmSendProbe_sameQueue
    (h : t.Balanced) :
    ∃ t', fsmSendProbe cfg env t = some t' ∧ t.SameQueue t' := by
  rcases @pktBuild_send cfg env t h
      { TcpCtl.none with ack := true } (t.sndUna - 1) t.rcvNxt
      [1] 0 with
    ⟨sent, hSend⟩
  exact ⟨_, hSend, h.skip _ _, rfl, rfl, fun hState => ⟨hState, rfl⟩⟩

theorem fsmClearRetransmit_ok
    (h : t.Ok) :
    ∃ t', fsmClearRetransmit t = some t' ∧ t'.Ok :=
  ⟨_, clearRetransmit_spec h.balanced, balanced_rebook_none .., h.synSent⟩

theorem fsmTimeoutRetransmit_sameQueue
    (h : t.Balanced) :
    ∃ t', fsmTimeoutRetransmit env t = some t' ∧ t.SameQueue t' := by
  rcases @fsmTimeoutRetransmit_spec env t h with ⟨sent, hSend, hNext⟩
  exact ⟨_, hSend, hNext, rfl, rfl, fun hState => ⟨hState, rfl⟩⟩

----
-- Sending Data
----

/- The bytes that a call reports are in the queue. -/
structure Tcb.Queued
    (t : Tcb) (buf : List UInt8) (n : Nat)
    (t' : Tcb) : Prop where
  free : t.pktRetransmit = none
  queued :
    ∃ p, t'.pktRetransmit = some p ∧ p.seg.seqNum = t.sndNxt ∧ p.seg.payload.flatten = buf.take n
  exactly : (buf.take n).length = n
  sndNxt_eq : t'.sndNxt = t.sndNxt + UInt32.ofNat n

/- A call in this state builds a packet with payload. -/
def Tcb.SendsBytes
    (cfg : TcpConfig) (t : Tcb) (buf : List UInt8) : Prop :=
  sendWindow cfg t > 0 ∧ t.sndWnd > 0 ∧ t.pktRetransmit = none ∧ cfg.mss > 0 ∧ t.mss > 0 ∧ buf ≠ []

instance
    (cfg : TcpConfig) (t : Tcb) (buf : List UInt8) :
    Decidable (t.SendsBytes cfg buf) :=
  inferInstanceAs (Decidable (_ ∧ _))

theorem sendPayload_lt
    (cfg : TcpConfig) (t : Tcb) (len : Nat) :
    sendPayload cfg t len < 2 ^ 16 := by
  have hMss : t.mss.toNat < 2 ^ 16 := t.mss.toNat_lt
  unfold sendPayload
  omega

theorem toUInt32_ofNat
    {n : Nat} (hLt : n < 2 ^ 16) :
    (UInt16.ofNat n).toUInt32 = UInt32.ofNat n := by
  apply UInt32.toNat_inj.mp
  rw [UInt16.toNat_toUInt32, UInt16.toNat_ofNat_of_lt' hLt,
    UInt32.toNat_ofNat_of_lt' (Nat.lt_trans hLt (by decide))]

/- A packet with payload is kept until it is acknowledged. -/
theorem sentOnce_builtPkt
    (seqNum ackNum : UInt32) {payload : List UInt8} (hNil : payload ≠ [])
    (hLength : payload.length < 2 ^ 32) :
    (builtPkt cfg t { TcpCtl.none with
        ack := true
        psh := true } seqNum ackNum payload).seg.sentOnce = false := by
  have hEmpty : payload.isEmpty = false := by
    simp [hNil]
  have hLen : UInt32.ofNat payload.length ≠ 0 := by
    intro hZero
    have hNat := congrArg UInt32.toNat hZero
    rw [UInt32.toNat_ofNat_of_lt' hLength] at hNat
    exact absurd hNat (by simp; exact hNil)
  unfold TcpSegment.sentOnce pktGetPayLen
  simp [builtPkt, TcpCtl.none, hEmpty, hLen]

theorem fsmCallSend_spec
    (h : t.Ok) (buf : List UInt8) :
    ∃ t' n, fsmCallSend cfg env t buf = some (t', n) ∧ t'.Ok ∧
      (∀ p, t.pktRetransmit = some p → t'.pktRetransmit = some p) ∧
      (0 < n → t.SendsBytes cfg buf ∧ (env.alloc t.nextId = true → t.Queued buf n t')) := by
  unfold fsmCallSend
  split
  · rename_i hOpen
    rcases hOpen with ⟨hWindow, hWnd, hNone⟩
    have hNone := Option.isNone_iff_eq_none.mp hNone
    dsimp only
    have hLt := sendPayload_lt cfg t buf.length
    have hLe : sendPayload cfg t buf.length ≤ buf.length := by
      unfold sendPayload
      omega
    have hBounds : 0 < sendPayload cfg t buf.length → 0 < cfg.mss.toNat ∧ 0 < t.mss.toNat ∧
          0 < buf.length := by
      unfold sendPayload
      omega
    generalize sendPayload cfg t buf.length = n at *
    have hExact : (buf.take n).length = n := by
      rw [List.length_take]
      omega
    rcases @buildQueueSend_spec cfg env t h.balanced
        { TcpCtl.none with ack := true, psh := true } t.sndNxt t.rcvNxt (buf.take n) with
      ⟨owned, sent, hSend, hNext⟩
    rw [hSend]
    refine ⟨_, n, rfl, ⟨hNext, h.synSent⟩, ?_, ?_⟩
    · intro p hp
      rw [hNone] at hp
      cases hp
    · intro hPos
      rcases hBounds hPos with ⟨hMss, hMss', hBuf⟩
      refine ⟨⟨hWindow, hWnd, hNone, hMss, hMss', List.length_pos_iff.mp hBuf⟩, ?_⟩
      intro hAlloc
      have hNil : buf.take n ≠ [] := by
        rw [← List.length_pos_iff, hExact]
        exact hPos
      have hOnce := @sentOnce_builtPkt cfg t t.sndNxt t.rcvNxt (buf.take n) hNil (by omega)
      refine ⟨hNone, ⟨_, if_pos ⟨hAlloc, hNone, hOnce⟩, rfl, ?_⟩, hExact, ?_⟩
      · simp [builtPkt, hNil]
      · rw [show t.sndNxt + UInt32.ofNat n = t.sndNxt + (UInt16.ofNat n).toUInt32 by
          rw [toUInt32_ofNat hLt]]
        simp [Tcb.rebook, advance, hAlloc, seqConsumed, TcpCtl.none, hExact]
  · refine ⟨t, 0, rfl, h, fun p hp => hp, ?_⟩
    intro hPos
    cases hPos

end

----
-- Events
----

/- The events that the state machine handles. -/
inductive TcpEvent where
  | callOpen
      (env : TcpEnv)
      (passive : Bool)
  | callSend
      (env : TcpEnv)
      (buf : List UInt8)
  | callRecv
      (env : TcpEnv)
      (len : Nat)
  | callClose
      (env : TcpEnv)
  | callAbort
      (env : TcpEnv)
  | rcvdPkt
      (env : TcpEnv)
      (seg : TcpSegment)
  | timeoutTimewait
  | timeoutRetransmit
      (env : TcpEnv)
  | timeoutConnection
  | sendProbe
      (env : TcpEnv)
  | clearRetransmit

/- The result of a call is the number of its bytes. -/
def tcpExec
    (cfg : TcpConfig) (t : Tcb) : TcpEvent → Option (Tcb × Nat)
| .callOpen env passive =>
  (fsmCallOpen cfg env { t with passive := t.passive || passive }).map (fun r => (r.1, 0))
| .callSend env buf => fsmCallSend cfg env t buf
| .callRecv env len => (fsmCallRecv cfg env t len).map (fun r => (r.1, r.2.length))
| .callClose env => (fsmCallClose cfg env t).map (fun t => (t, 0))
| .callAbort env => (fsmCallAbort cfg env t).map (fun t => (t, 0))
| .rcvdPkt env seg => (fsmRcvdPkt cfg env t seg).map (fun t => (t, 0))
| .timeoutTimewait => (fsmTimeoutTimewait t).map (fun t => (t, 0))
| .timeoutRetransmit env => (fsmTimeoutRetransmit env t).map (fun t => (t, 0))
| .timeoutConnection => (fsmTimeoutConnection t).map (fun t => (t, 0))
| .sendProbe env => (fsmSendProbe cfg env t).map (fun t => (t, 0))
| .clearRetransmit => (fsmClearRetransmit t).map (fun t => (t, 0))

/- The acknowledgement is at or beyond the end of the packet. -/
def TcpPkt.CoveredBy
    (p : TcpPkt) (ack : UInt32) : Prop :=
  (ack - (p.seg.seqNum + pktGetSegLen p.seg)).toNat < 2 ^ 31

/- A new acknowledgement is taken over. -/
def Tcb.Processes
    (t : Tcb) (ack : UInt32) (t' : Tcb) : Prop :=
  t.sndUna ≠ ack ∧ t'.sndUna = ack

/-
  What is said of one step: data, timeouts and acknowledgements
  keep the packet in the queue unless it is acknowledged, and
  the bytes that are reported are in the queue.
-/
def StepSound
    (t : Tcb) (e : TcpEvent) (n : Nat) (t' : Tcb) : Prop :=
  match e with
  | .callSend _ buf =>
    (∀ p, t.pktRetransmit = some p → t'.pktRetransmit = some p) ∧ (0 < n → t.Queued buf n t')
  | .timeoutRetransmit _ => t'.pktRetransmit = t.pktRetransmit
  | .rcvdPkt _ seg =>
    t.Acknowledges seg → ∀ p, t.pktRetransmit = some p →
        (t.Processes seg.ackNum t' ∧ p.CoveredBy seg.ackNum →
          t'.pktRetransmit = none ∧ t'.owned p.id = 0) ∧
        (¬ (t.Processes seg.ackNum t' ∧ p.CoveredBy seg.ackNum) → t'.pktRetransmit = some p)
  | _ => True

/- A connection, and its last step. -/
structure TcpRun where
  tcb : Tcb
  last : Option (Tcb × TcpEvent × Nat)

/-
  What is said of a state: the only reference is the one of the
  queue, no event gives back a reference that is not there, and
  the last step was sound.
-/
structure RetransmitSound
    (cfg : TcpConfig)
    (s : TcpRun) : Prop where
  refs : s.tcb.owned = queueRefs s.tcb.pktRetransmit
  noFault : ∀ e, (tcpExec cfg s.tcb e).isSome = true
  lastSound : ∀ t e n, s.last = some (t, e, n) → StepSound t e n s.tcb

def tcpSystem
    (cfg : TcpConfig) : System TcpRun TcpEvent where
  Start := fun s => s = ⟨Tcb.init, none⟩
  Enabled := fun _ _ => True
  exec := fun s e =>
    (tcpExec cfg s.tcb e).map (fun r => ⟨r.1, some (s.tcb, e, r.2)⟩)

/- The packet of a call that sends bytes is allocated. -/
def TcpEvent.SendAllocates
    (cfg : TcpConfig)
    (t : Tcb) : TcpEvent → Prop
| .callSend env buf => t.SendsBytes cfg buf → env.alloc t.nextId = true
| _ => True

----
-- Runs
----

section

variable {cfg : TcpConfig} {t t' : Tcb}

theorem lss32Bit_end_iff
    (e a : UInt32) :
    lss32Bit (e - 1) a = true ↔ (a - e).toNat < 2 ^ 31 := by
  have hA := a.toNat_lt
  have hE := e.toNat_lt
  rw [lss32Bit_iff, UInt32.toNat_sub, UInt32.toNat_sub, UInt32.toNat_sub, UInt32.toNat_one]
  omega

/- What is left in the queue after an acknowledgement. -/
theorem ackedQueue_some
    (p : TcpPkt) (ack : UInt32) :
    (p.CoveredBy ack → ackedQueue (some p) ack = none) ∧
      (¬ p.CoveredBy ack → ackedQueue (some p) ack = some p) := by
  unfold TcpPkt.CoveredBy
  rw [← lss32Bit_end_iff]
  constructor
  · intro hCovered
    simp [ackedQueue, Option.filter_some, hCovered]
  · intro hNot
    simp [ackedQueue, Option.filter_some, hNot]

/- An acknowledgement removes the packet that it covers. -/
theorem Tcb.AckStep.sound
    {seg : TcpSegment} {p : TcpPkt} (h : t.AckStep seg t')
    (hQueue : t.pktRetransmit = some p) :
    (t.Processes seg.ackNum t' ∧ p.CoveredBy seg.ackNum →
      t'.pktRetransmit = none ∧ t'.owned p.id = 0) ∧
    (¬ (t.Processes seg.ackNum t' ∧ p.CoveredBy seg.ackNum) → t'.pktRetransmit = some p) := by
  rcases h with hSame | ⟨hAcked, _⟩
  · have hNot : ¬ t.Processes seg.ackNum t' := by
      rintro ⟨hNe, hEq⟩
      exact hNe (hSame.sndUna_eq.symm.trans hEq)
    refine ⟨fun hBoth => absurd hBoth.1 hNot, ?_⟩
    intro _
    rw [hSame.queue_eq]
    exact hQueue
  · have hProcesses : t.Processes seg.ackNum t' := ⟨hAcked.new, hAcked.sndUna_eq⟩
    have hNext := hAcked.queue_eq
    rw [hQueue] at hNext
    rcases ackedQueue_some p seg.ackNum with ⟨hNone, hSome⟩
    constructor
    · rintro ⟨_, hCovered⟩
      rw [hNone hCovered] at hNext
      refine ⟨hNext, ?_⟩
      rw [hAcked.balanced.owned_eq, hNext]
      rfl
    · intro hNot
      rw [hNext]
      exact hSome (fun hCovered => hNot ⟨hProcesses, hCovered⟩)

/- Every event has a result and keeps the invariant. -/
theorem tcpExec_spec
    (h : t.Ok) (e : TcpEvent) :
    ∃ t' n, tcpExec cfg t e = some (t', n) ∧ t'.Ok ∧
      (e.SendAllocates cfg t → StepSound t e n t') := by
  have hMap : ∀ {r : Option Tcb}, (∃ t', r = some t' ∧ t'.Ok) →
        ∃ t' n, r.map (fun t => (t, 0)) = some (t', n) ∧ t'.Ok := by
    rintro r ⟨t', rfl, hOk⟩
    exact ⟨t', 0, rfl, hOk⟩
  have hTrivial : ∀ {r : Option (Tcb × Nat)}, (∃ t' n, r = some (t', n) ∧ t'.Ok) →
        ∃ t' n, r = some (t', n) ∧ t'.Ok ∧ (e.SendAllocates cfg t → True) := by
    rintro r ⟨t', n, hEq, hOk⟩
    exact ⟨t', n, hEq, hOk, fun _ => trivial⟩
  cases e with
  | callOpen env passive =>
    rcases @fsmCallOpen_ok cfg env
        { t with passive := t.passive || passive }
        ⟨h.balanced.congr rfl rfl rfl, h.synSent⟩ with
      ⟨t', r, hEq, hOk⟩
    exact hTrivial ⟨t', 0, by rw [tcpExec, hEq]; rfl, hOk⟩
  | callSend env buf =>
    rcases @fsmCallSend_spec cfg env t h buf with ⟨t', n, hEq, hOk, hKept, hQueued⟩
    refine ⟨t', n, hEq, hOk, fun hAlloc => ⟨hKept, ?_⟩⟩
    intro hPos
    rcases hQueued hPos with ⟨hSends, hQueued⟩
    exact hQueued (hAlloc hSends)
  | callRecv env len =>
    rcases @fsmCallRecv_sameQueue cfg env t h.balanced len with ⟨t', bytes, hEq, hSame⟩
    exact hTrivial ⟨t', bytes.length, by rw [tcpExec, hEq]; rfl, h.sameQueue hSame⟩
  | callClose env => exact hTrivial (hMap (fsmCallClose_ok h))
  | callAbort env => exact hTrivial (hMap (fsmCallAbort_ok h))
  | rcvdPkt env seg =>
    rcases @fsmRcvdPkt_spec cfg env t seg h with ⟨t', hEq, hOk, hStep⟩
    refine ⟨t', 0, by rw [tcpExec, hEq]; rfl, hOk, ?_⟩
    intro _ hAcks p hQueue
    exact (hStep hAcks).sound hQueue
  | timeoutTimewait =>
    exact hTrivial (hMap (transitionTo_ok .closed h.balanced (by decide)))
  | timeoutRetransmit env =>
    rcases @fsmTimeoutRetransmit_sameQueue env t h.balanced with ⟨t', hEq, hSame⟩
    exact ⟨t', 0, by rw [tcpExec, hEq]; rfl, h.sameQueue hSame, fun _ => hSame.queue_eq⟩
  | timeoutConnection =>
    exact hTrivial (hMap (transitionTo_ok .closed h.balanced (by decide)))
  | sendProbe env =>
    rcases @fsmSendProbe_sameQueue cfg env t h.balanced with ⟨t', hEq, hSame⟩
    exact hTrivial (hMap ⟨t', hEq, h.sameQueue hSame⟩)
  | clearRetransmit => exact hTrivial (hMap (fsmClearRetransmit_ok h))

end

instance
    (cfg : TcpConfig) (t : Tcb) (e : TcpEvent) :
    Decidable (e.SendAllocates cfg t) :=
  match e with
  | .callSend env buf =>
    inferInstanceAs (Decidable (t.SendsBytes cfg buf → env.alloc t.nextId = true))
  | .callOpen _ _ => inferInstanceAs (Decidable True)
  | .callRecv _ _ => inferInstanceAs (Decidable True)
  | .callClose _ => inferInstanceAs (Decidable True)
  | .callAbort _ => inferInstanceAs (Decidable True)
  | .rcvdPkt _ _ => inferInstanceAs (Decidable True)
  | .timeoutTimewait => inferInstanceAs (Decidable True)
  | .timeoutRetransmit _ => inferInstanceAs (Decidable True)
  | .timeoutConnection => inferInstanceAs (Decidable True)
  | .sendProbe _ => inferInstanceAs (Decidable True)
  | .clearRetransmit => inferInstanceAs (Decidable True)

instance
    (cfg : TcpConfig) (s : TcpRun) (e : TcpEvent) :
    Decidable ((tcpSystem cfg).Enabled s e) :=
  inferInstanceAs (Decidable True)

/- The bytes that the last step reported as sent. -/
def TcpRun.sentBytes
    (s : TcpRun) : Nat :=
  match s.last with
  | some (_, .callSend _ _, n) => n
  | _ => 0

theorem RetransmitSound.queue_of_sentBytes
    {cfg : TcpConfig} {s : TcpRun} (h : RetransmitSound cfg s)
    (hSent : 0 < s.sentBytes) :
    s.tcb.pktRetransmit ≠ none := by
  unfold TcpRun.sentBytes at hSent
  split at hSent
  · rename_i t env buf n hLast
    rcases (h.lastSound _ _ _ hLast).2 hSent with ⟨_, ⟨p, hQueue, _⟩, _, _⟩
    rw [hQueue]
    exact Option.some_ne_none p
  · cases hSent

/- The SYN+ACK that answers the first SYN. -/
def sampleSynAck : TcpSegment where
  ctl :=
    { TcpCtl.none with syn := true, ack := true }
  seqNum := 100
  ackNum := 1
  window := 1000
  options := [2, 4, 4, 196]
  payload := []

/- Open a connection and send three bytes. -/
def sampleSend
    (alloc : Bool) : List TcpEvent :=
  [.callOpen (roomyTcpEnv 0) false, .rcvdPkt (roomyTcpEnv 0) sampleSynAck,
    .callSend { roomyTcpEnv 0 with alloc := fun _ => alloc } [10, 20, 30]]

end Riot
