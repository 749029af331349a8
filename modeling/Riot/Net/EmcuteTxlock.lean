import Riot.Lib.StateRules
import Riot.Net.Emcute
import Mathlib.Data.List.GetD

/-
  The transmit lock of the MQTT-SN client.

  Most calls release it in every way out.  `emcute_con` keeps
  it when there is a connection already, when the last will
  is too long, and when one of the two exchanges for the will
  fails.  `emcute_unsub` writes a name of any length into the
  transmit buffer.
-/

----
-- Buffers
----

namespace Riot

open ByteBuffer

variable {conf : EmcuteConf} {s s' : Emcute conf}

/- What a write to the transmit buffer changes. -/
theorem Emcute.put_some
    {pos : Nat} {bs : List UInt8} (hPut : s.put pos bs = some s') :
    pos + bs.length ≤ conf.bufsize ∧ ∃ buf, s' = { s with tbuf := buf } := by
  unfold Emcute.put at hPut
  split at hPut
  · rename_i buf hWrite
    rcases writeBytes_eq_some hWrite with ⟨hFits, _⟩
    rw [s.tbuf.2] at hFits
    cases hPut
    exact ⟨hFits, _, rfl⟩
  · cases hPut

/- Bytes that fit are written. -/
theorem Emcute.put_eq
    {pos : Nat} {bs : List UInt8} (hFits : pos + bs.length ≤ conf.bufsize) :
    ∃ buf, s.put pos bs = some { s with tbuf := buf } := by
  unfold Emcute.put
  split
  · rename_i buf hWrite
    exact ⟨_, rfl⟩
  · rename_i hNone
    unfold writeBytes at hNone
    rw [s.tbuf.2, if_pos hFits] at hNone
    cases hNone

theorem emcuteSetLen_eq
    (len : Nat) :
    ∃ buf pos, emcuteSetLen s len = some ({ s with tbuf := buf }, pos) ∧
        ((len < 255 ∧ pos = 1) ∨ (255 ≤ len ∧ pos = 3)) := by
  have hBuf := conf.topicMaxlen_lt_bufsize
  unfold emcuteSetLen
  by_cases hLt : len < 0xff
  · rcases @Emcute.put_eq conf s 0 [UInt8.ofNat (len + 1)] (by
        rw [List.length_singleton]
        omega) with ⟨buf, hPut⟩
    rw [if_pos hLt, hPut]
    exact ⟨buf, 1, rfl, .inl ⟨hLt, rfl⟩⟩
  · rcases @Emcute.put_eq conf s 0 [0x01] (by
        rw [List.length_singleton]
        omega) with ⟨buf, hPut⟩
    rcases @Emcute.put_eq conf { s with tbuf := buf } 1 (htons (len + 3)) (by
          unfold htons
          rw [List.length_cons, List.length_singleton]
          omega) with ⟨buf', hPut'⟩
    rw [if_neg hLt, hPut]
    simp only [bind, Option.bind_some, hPut']
    exact ⟨buf', 3, rfl, .inr ⟨by omega, rfl⟩⟩

theorem lockTx_eq
    (hFree : s.txlock = false) :
    lockTx s = some { s with txlock := true } := by
  unfold lockTx
  rw [hFree]
  rfl

theorem lockTx_held
    (hHeld : s.txlock = true) :
    lockTx s = none := by
  unfold lockTx
  rw [hHeld]
  rfl

----
-- Received Packets
----

/- The type by which the receive thread handles a packet. -/
def packetType
    (conf : EmcuteConf) (pkt : List UInt8) : Option UInt8 :=
  if pkt.length ≤ conf.bufsize ∧ 2 ≤ pkt.length then
    if pkt.getD 0 0 ≠ 0x01 then
      if (pkt.getD 0 0).toNat ≤ pkt.length then
        some (pkt.getD 1 0)
      else
        none
    else if
        4 ≤ pkt.length ∧ fromNetwork [pkt.getD 1 0, pkt.getD 2 0] ≤
            pkt.length then
      some (pkt.getD 3 0)
    else
      none
  else
    none

/- The bytes of a packet are at the start of the buffer. -/
theorem fillRbuf_rbyte
    {pkt : List UInt8} (hFits : pkt.length ≤ conf.bufsize) {pos : Nat}
    (hLt : pos < pkt.length) :
    (fillRbuf s pkt hFits).rbyte pos = pkt.getD pos 0 :=
  List.getD_append _ _ _ _ hLt

/-
  A packet is written to the receive buffer, and handled if
  it has a type.
-/
theorem emcuteRecv_eq
    (s : Emcute conf) (pkt : List UInt8) :
    ∃ buf, emcuteRecv s pkt = match packetType conf pkt with
        | none => { s with rbuf := buf }
        | some type =>
          handlePacket { s with rbuf := buf } type := by
  unfold emcuteRecv packetType
  by_cases hFits : pkt.length ≤ conf.bufsize
  · rw [dif_pos hFits]
    refine ⟨(fillRbuf s pkt hFits).rbuf, ?_⟩
    have hSame :
        { s with rbuf := (fillRbuf s pkt hFits).rbuf } = fillRbuf s pkt hFits := rfl
    rw [hSame]
    dsimp only
    by_cases hTwo : 2 ≤ pkt.length
    · have hNotShort : ¬ pkt.length < 2 := by omega
      have hFirst := @fillRbuf_rbyte conf s pkt hFits 0 (by omega)
      have hSecond := @fillRbuf_rbyte conf s pkt hFits 1 (by omega)
      rw [if_neg hNotShort, if_pos (And.intro hFits hTwo)]
      unfold emcuteGetLen
      rw [hFirst]
      by_cases hShort : pkt.getD 0 0 ≠ 0x01
      · rw [if_neg (fun hBoth => hShort hBoth.2), if_pos hShort, if_pos hShort]
        dsimp only
        rw [hSecond]
        by_cases hLen : (pkt.getD 0 0).toNat ≤ pkt.length
        · have hIn : ¬ ((pkt.getD 0 0).toNat > pkt.length ∨ 1 ≥ pkt.length) := by
            omega
          rw [if_neg hIn, if_pos hLen]
        · have hOut : (pkt.getD 0 0).toNat > pkt.length ∨ 1 ≥ pkt.length := by
            omega
          rw [if_pos hOut, if_neg hLen]
      · rw [if_neg hShort, if_neg hShort]
        by_cases hExact : pkt.length = 2
        · have hFew :
              ¬ (4 ≤ pkt.length ∧ fromNetwork [pkt.getD 1 0, pkt.getD 2 0] ≤ pkt.length) := by
            omega
          rw [if_pos ⟨hExact, not_not.mp hShort⟩, if_neg hFew]
        · have hThird := @fillRbuf_rbyte conf s pkt hFits 2 (by omega)
          rw [if_neg (fun hBoth => hExact hBoth.1)]
          unfold Emcute.rshort
          dsimp only
          rw [hSecond, hThird]
          by_cases hLong : 4 ≤ pkt.length ∧ fromNetwork [pkt.getD 1 0, pkt.getD 2 0] ≤ pkt.length
          · have hFourth := @fillRbuf_rbyte conf s pkt hFits 3 (by omega)
            have hIn :
                ¬ (fromNetwork [pkt.getD 1 0, pkt.getD 2 0] > pkt.length ∨ 3 ≥ pkt.length) := by
              omega
            rw [if_neg hIn, if_pos hLong, hFourth]
          · have hOut : fromNetwork [pkt.getD 1 0, pkt.getD 2 0] > pkt.length ∨ 3 ≥ pkt.length := by
              omega
            rw [if_pos hOut, if_neg hLong]
    · have hShort : pkt.length < 2 := by omega
      rw [if_pos hShort, if_neg (fun hBoth => hTwo hBoth.2)]
  · rw [dif_neg hFits, if_neg (fun hBoth => hFits hBoth.1)]
    exact ⟨s.rbuf, rfl⟩

/- The lock and the awaited type are the client's. -/
structure Handled
    (s s' : Emcute conf) : Prop where
  txlock : s'.txlock = s.txlock
  waiton : s'.waiton = s.waiton

theorem Handled.refl
    (s : Emcute conf) :
    Handled s s :=
  ⟨rfl, rfl⟩

theorem Handled.trans
    {s₁ s₂ s₃ : Emcute conf} (hFirst : Handled s₁ s₂) (hSecond : Handled s₂ s₃) :
    Handled s₁ s₃ :=
  ⟨hSecond.txlock.trans hFirst.txlock, hSecond.waiton.trans hFirst.waiton⟩

theorem onAck_handled
    (s : Emcute conf) (type : UInt8) (idPos retPos resPos : Nat) :
    Handled s (onAck s type idPos retPos resPos) := by
  unfold onAck
  split
  · exact ⟨rfl, rfl⟩
  · exact .refl s

theorem onDisconnect_handled
    (s : Emcute conf) :
    Handled s (onDisconnect s) := by
  unfold onDisconnect
  split
  · exact ⟨rfl, rfl⟩
  · exact .refl s

theorem handlePacket_handled
    (s : Emcute conf) (type : UInt8) :
    Handled s (handlePacket s type) := by
  unfold handlePacket
  repeat'
    split
    · first
      | exact onAck_handled s type _ _ _
      | exact onDisconnect_handled s
  exact .refl s

theorem emcuteRecv_handled
    (s : Emcute conf) (pkt : List UInt8) :
    Handled s (emcuteRecv s pkt) := by
  rcases emcuteRecv_eq s pkt with ⟨buf, hEq⟩
  rw [hEq]
  cases packetType conf pkt with
  | none => exact ⟨rfl, rfl⟩
  | some type =>
    have hSame := handlePacket_handled { s with rbuf := buf } type
    exact ⟨hSame.txlock, hSame.waiton⟩

theorem foldl_handled
    (s : Emcute conf) (pkts : List (List UInt8)) :
    Handled s (pkts.foldl emcuteRecv s) := by
  induction pkts generalizing s with
  | nil => exact .refl s
  | cons pkt pkts ih => exact (emcuteRecv_handled s pkt).trans (ih _)

----
-- Exchanges
----

/-
  What is sent fits the buffer, so all rounds take place.
-/
theorem syncsendFrom_spec
    {len round left : Nat} {env : SyncEnv} (hLen : len ≤ conf.bufsize) :
    ∃ s' res, syncsendFrom len env round left s = some (s', res) ∧ Handled s s' := by
  induction left generalizing round s with
  | zero => exact ⟨s, _, rfl, .refl s⟩
  | succ left ih =>
    have hSent : sockUdpSend s len = some { s with sent := s.sent ++ [s.tbuf.1.take len] } :=
      if_pos hLen
    rw [syncsendFrom, hSent]
    dsimp only [bind, Option.bind_some]
    have hRound : Handled s
          ((env.rounds round).foldl emcuteRecv
            { s with
              sent := s.sent ++ [s.tbuf.1.take len] }) := by
      have hFold :=
        foldl_handled { s with sent := s.sent ++ [s.tbuf.1.take len] } (env.rounds round)
      exact ⟨hFold.txlock, hFold.waiton⟩
    split
    · exact ⟨_, _, rfl, hRound.txlock, hRound.waiton⟩
    · rcases
        @ih ((env.rounds round).foldl emcuteRecv
          { s with sent := s.sent ++ [s.tbuf.1.take len] })
          (round + 1) with ⟨s', res, hRest, hSame⟩
      exact ⟨s', res, hRest, hRound.trans hSame⟩

/- An exchange releases the lock if it is told to. -/
theorem syncsend_spec
    {env : SyncEnv} {resp : UInt8} {len : Nat} {unlock : Bool}
    (hLen : len ≤ conf.bufsize) :
    ∃ s' res,
      syncsend s env resp len unlock = some (s', res) ∧ s'.txlock = (!unlock && s.txlock) := by
  rcases
    @syncsendFrom_spec conf
      { s with waiton := resp, tflagsResp := false } len 0
      (conf.nRetry + 1) env hLen with
    ⟨s₁, res, hRounds, hSame⟩
  have hLate := foldl_handled s₁ env.late
  unfold syncsend
  dsimp only
  rw [hRounds]
  refine ⟨_, res, rfl, ?_⟩
  cases unlock with
  | true => rfl
  | false => exact hLate.txlock.trans hSame.txlock

/- A packet with the awaited type arrives in some round. -/
def Answered
    (conf : EmcuteConf) (env : SyncEnv) (type : UInt8) : Prop :=
  ∃ round ≤ conf.nRetry, ∃ pkt ∈ env.rounds round, packetType conf pkt = some type

/- The requests of the gateway for a last will. -/
def WillRequest
    (type : UInt8) : Prop :=
  type = Emcute.willtopicreq ∨ type = Emcute.willmsgreq

theorem onAck_other
    {type : UInt8} (hNe : s.waiton ≠ type) (idPos retPos resPos : Nat) :
    onAck s type idPos retPos resPos = s :=
  if_neg (fun hBoth => hNe hBoth.1)

/- Only the awaited request is a response. -/
theorem handlePacket_will
    {type : UInt8} (hWill : WillRequest s.waiton) :
    handlePacket s type = if type = s.waiton then
        { s with result := Emcute.ok, tflagsResp := true }
      else s := by
  by_cases hEq : type = s.waiton
  · rw [if_pos hEq]
    have hAck : onAck s type 0 0 0 =
          { s with result := Emcute.ok, tflagsResp := true } := by
      unfold onAck
      rw [if_pos ⟨hEq.symm, .inl rfl⟩]
      rfl
    rw [← hAck]
    rcases hWill with hType | hType
    · rw [← hEq] at hType
      subst hType
      rfl
    · rw [← hEq] at hType
      subst hType
      rfl
  · rw [if_neg hEq]
    have hNe : s.waiton ≠ type := fun h => hEq h.symm
    have hNo : s.waiton ≠ Emcute.disconnect := by
      rcases hWill with hType | hType
      · rw [hType]
        decide
      · rw [hType]
        decide
    have hDis : onDisconnect s = s := if_neg hNo
    unfold handlePacket
    simp only [onAck_other hNe, hDis, ite_self]

/- The packets of a round, for a request. -/
theorem foldl_will
    {pkts : List (List UInt8)} (hWill : WillRequest s.waiton)
    (hOk : s.tflagsResp = true → s.result = Emcute.ok) :
    ((pkts.foldl emcuteRecv s).tflagsResp = true ↔
        s.tflagsResp = true ∨ ∃ pkt ∈ pkts, packetType conf pkt = some s.waiton) ∧
      ((pkts.foldl emcuteRecv s).tflagsResp = true →
        (pkts.foldl emcuteRecv s).result = Emcute.ok) := by
  induction pkts generalizing s with
  | nil =>
    refine ⟨?_, hOk⟩
    simp only [List.foldl_nil, List.not_mem_nil, false_and, exists_false, or_false]
  | cons pkt pkts ih =>
    rcases emcuteRecv_eq s pkt with ⟨buf, hEq⟩
    have hSame := emcuteRecv_handled s pkt
    have hStep : (emcuteRecv s pkt).tflagsResp = (s.tflagsResp ||
              decide (packetType conf pkt = some s.waiton)) ∧
          ((emcuteRecv s pkt).tflagsResp = true → (emcuteRecv s pkt).result = Emcute.ok) := by
      rw [hEq]
      cases hType : packetType conf pkt with
      | none =>
        refine ⟨?_, hOk⟩
        simp
      | some type =>
        dsimp only
        rw [@handlePacket_will conf { s with rbuf := buf } type hWill]
        by_cases hIs : type = s.waiton
        · rw [if_pos hIs, hIs]
          refine ⟨?_, fun _ => rfl⟩
          simp
        · rw [if_neg hIs]
          refine ⟨?_, hOk⟩
          simp [hIs]
    have hNext := @ih (emcuteRecv s pkt) (by
      rw [hSame.waiton]
      exact hWill) hStep.2
    rw [hSame.waiton, hStep.1] at hNext
    refine ⟨?_, hNext.2⟩
    rw [List.foldl_cons, hNext.1]
    simp only [Bool.or_eq_true, decide_eq_true_eq, List.mem_cons, exists_eq_or_imp, or_assoc]

/- A request succeeds when it is answered in time. -/
theorem syncsendFrom_will
    {len round left : Nat} {env : SyncEnv} (hLen : len ≤ conf.bufsize)
    (hWill : WillRequest s.waiton) (hClear : s.tflagsResp = false) :
    ∃ s' res, syncsendFrom len env round left s = some (s', res) ∧ (res = Emcute.ok ↔
          ∃ r, round ≤ r ∧ r < round + left ∧
            ∃ pkt ∈ env.rounds r, packetType conf pkt = some s.waiton) := by
  induction left generalizing round s with
  | zero =>
    refine ⟨s, Emcute.timeout, rfl, ?_⟩
    constructor
    · intro hOk
      cases hOk
    · rintro ⟨r, hGe, hLt, _⟩
      omega
  | succ left ih =>
    have hSent : sockUdpSend s len = some { s with sent := s.sent ++ [s.tbuf.1.take len] } :=
      if_pos hLen
    rw [syncsendFrom, hSent]
    dsimp only [bind, Option.bind_some]
    have hRound :=
      @foldl_will conf { s with sent := s.sent ++ [s.tbuf.1.take len] } (env.rounds round) hWill (by
          dsimp only
          rw [hClear]
          intro hFalse
          cases hFalse)
    have hSame := foldl_handled { s with sent := s.sent ++ [s.tbuf.1.take len] } (env.rounds round)
    dsimp only at hRound hSame
    by_cases hResp : ((env.rounds round).foldl emcuteRecv
          { s with sent := s.sent ++ [s.tbuf.1.take len] }
          ).tflagsResp = true
    · rw [if_pos hResp]
      refine ⟨_, _, rfl, ?_⟩
      constructor
      · intro _
        rcases hRound.1.mp hResp with hFlag | hAnswer
        · rw [hClear] at hFlag
          cases hFlag
        · exact ⟨round, Nat.le_refl _, by omega, hAnswer⟩
      · intro _
        exact hRound.2 hResp
    · rw [if_neg hResp]
      have hWaiton := hSame.waiton
      dsimp only at hWaiton
      rcases
        @ih ((env.rounds round).foldl emcuteRecv
          { s with sent := s.sent ++ [s.tbuf.1.take len] })
          (round + 1) (by rw [hWaiton]; exact hWill)
          (Bool.eq_false_of_not_eq_true hResp) with
        ⟨s', res, hRest, hIff⟩
      refine ⟨s', res, hRest, ?_⟩
      rw [hIff, hWaiton]
      constructor
      · rintro ⟨r, hGe, hLt, hAnswer⟩
        exact ⟨r, by omega, by omega, hAnswer⟩
      · rintro ⟨r, hGe, hLt, hAnswer⟩
        by_cases hHere : r = round
        · subst hHere
          exact absurd (hRound.1.mpr (.inr hAnswer)) hResp
        · exact ⟨r, by omega, by omega, hAnswer⟩

theorem syncsend_answered_iff
    {env : SyncEnv} {type : UInt8} {len : Nat} {res : Int}
    (hLen : len ≤ conf.bufsize) (hWill : WillRequest type)
    (hSync : syncsend s env type len false = some (s', res)) :
    res = Emcute.ok ↔ Answered conf env type := by
  rcases
    @syncsendFrom_will conf
      { s with waiton := type, tflagsResp := false } len 0
      (conf.nRetry + 1) env hLen hWill rfl with
    ⟨s₁, res₁, hRounds, hIff⟩
  unfold syncsend at hSync
  dsimp only at hSync
  rw [hRounds] at hSync
  cases hSync
  rw [hIff]
  constructor
  · rintro ⟨r, _, hLt, hAnswer⟩
    exact ⟨r, by omega, hAnswer⟩
  · rintro ⟨r, hLe, hAnswer⟩
    exact ⟨r, Nat.zero_le _, by omega, hAnswer⟩

----
-- Calls That Return
----

/- A call returns, and the lock is free. -/
def Unlocked
    (result : Emcute conf × Int) : Prop :=
  result.1.txlock = false

theorem put_returns
    {pos : Nat} {bs : List UInt8} (hFits : pos + bs.length ≤ conf.bufsize) :
    Returns (fun s' => ∃ buf, s' = { s with tbuf := buf }) (s.put pos bs) := by
  rcases @Emcute.put_eq conf s pos bs hFits with ⟨buf, hPut⟩
  exact ⟨_, hPut, buf, rfl⟩

theorem emcuteSetLen_returns
    (len : Nat) :
    Returns (fun result =>
        result.1.txlock = s.txlock ∧ ((len < 255 ∧ result.2 = 1) ∨ (255 ≤ len ∧ result.2 = 3)))
      (emcuteSetLen s len) := by
  rcases @emcuteSetLen_eq conf s len with ⟨buf, pos, hEq, hPos⟩
  exact ⟨_, hEq, rfl, hPos⟩

theorem lockTx_returns
    (hFree : s.txlock = false) :
    Returns (fun s' => s' = { s with txlock := true }) (lockTx s) :=
  ⟨_, lockTx_eq hFree, rfl⟩

theorem syncsend_returns
    {env : SyncEnv} {resp : UInt8} {len : Nat} {unlock : Bool}
    (hLen : len ≤ conf.bufsize) :
    Returns (fun result =>
        result.1.txlock = (!unlock && s.txlock))
      (syncsend s env resp len unlock) := by
  rcases @syncsend_spec conf s env resp len unlock hLen with ⟨s', res, hSync, hLock⟩
  exact ⟨_, hSync, hLock⟩

theorem asserts_returns
    {p : Prop} [Decidable p] (hTrue : p) :
    Returns (fun s' => s' = s) (asserts p s) :=
  ⟨s, if_pos hTrue, rfl⟩

/- The last exchange of most calls. -/
theorem syncsend_unlocked
    {env : SyncEnv} {resp : UInt8} {len : Nat} (hLen : len ≤ conf.bufsize) :
    Returns Unlocked (syncsend s env resp len true) :=
  (syncsend_returns hLen).mono (fun _ hLock => hLock)

section

variable {env : Nat → SyncEnv} {len : Nat} {sync : SyncEnv} {name : List UInt8}
variable {flags : UInt32}

theorem emcuteConAck_unlocked
    (hLen : len ≤ conf.bufsize) :
    Returns Unlocked (emcuteConAck s sync len) := by
  refine (syncsend_unlocked hLen).bind ?_
  rintro ⟨s', res⟩ hLock
  refine Returns.ite ?_ ?_
  · intro _
    exact .of_eq hLock
  · intro _
    exact .of_eq hLock

section

variable (hFree : s.txlock = false)

include hFree

theorem emcuteDiscon_unlocked :
    Returns Unlocked (emcuteDiscon s env) := by
  have hBuf := conf.topicMaxlen_lt_bufsize
  refine Returns.ite ?_ ?_
  · intro _
    exact .of_eq hFree
  · intro _
    refine (lockTx_returns hFree).bind ?_
    rintro s' rfl
    refine (put_returns ?_).bind ?_
    · simp only [List.length_cons, List.length_nil]
      omega
    · intro s' _
      exact syncsend_unlocked (by omega)

theorem emcuteReg_unlocked
    {topic : Nat} :
    Returns Unlocked (emcuteReg s env topic name) := by
  have hBuf := conf.topicMaxlen_lt_bufsize
  refine Returns.ite (fun _ => .of_eq hFree) ?_
  intro _
  refine Returns.ite (fun _ => .of_eq hFree) ?_
  intro hName
  refine (lockTx_returns hFree).bind ?_
  rintro s' rfl
  refine (put_returns ?_).bind ?_
  · simp only [htons, List.length_append, List.length_cons, List.length_nil]
    omega
  · intro s₁ _
    refine (put_returns (by omega)).bind ?_
    intro s₂ _
    refine (syncsend_unlocked ?_).bind ?_
    · have hByte : (UInt8.ofNat (name.length + 6)).toNat ≤ name.length + 6 := by
        rw [UInt8.toNat_ofNat']
        exact Nat.mod_le _ _
      omega
    · rintro ⟨s₃, res⟩ hLock
      exact Returns.ite (fun _ => .of_eq hLock) (fun _ => .of_eq hLock)

theorem emcutePub_unlocked
    {topic : Nat} {data : List UInt8}
    (hAsserts : s.topicId topic ≠ 0 ∧ data ≠ [] ∧ flags &&& ~~~Emcute.pubFlags = 0) :
    Returns Unlocked (emcutePub s env topic data flags) := by
  refine (asserts_returns hAsserts).bind ?_
  rintro s rfl
  refine Returns.ite (fun _ => .of_eq hFree) ?_
  intro _
  refine Returns.ite (fun _ => .of_eq hFree) ?_
  intro hData
  refine Returns.ite (fun _ => .of_eq hFree) ?_
  intro _
  refine (lockTx_returns hFree).bind ?_
  rintro s' rfl
  refine (emcuteSetLen_returns _).bind ?_
  rintro ⟨s₁, pos⟩ ⟨_, hPos⟩
  dsimp only at hPos ⊢
  refine (put_returns ?_).bind ?_
  · simp only [htons, List.length_append, List.length_cons, List.length_nil]
    omega
  · intro s₂ _
    refine (put_returns (by omega)).bind ?_
    intro s₃ _
    refine Returns.ite ?_ ?_
    · intro _
      exact syncsend_unlocked (by omega)
    · intro _
      have hSend : Returns (fun _ => True) (sockUdpSend s₃ (data.length + (pos + 6))) :=
        ⟨_, if_pos (by omega), trivial⟩
      refine hSend.bind ?_
      intro s₄ _
      exact .of_eq rfl

theorem emcuteSub_unlocked
    {sub : Nat} (hAsserts : flags &&& ~~~Emcute.subFlags = 0) :
    Returns Unlocked (emcuteSub s env sub name flags) := by
  have hBuf := conf.topicMaxlen_lt_bufsize
  refine (asserts_returns hAsserts).bind ?_
  rintro s rfl
  refine Returns.ite (fun _ => .of_eq hFree) ?_
  intro _
  refine Returns.ite (fun _ => .of_eq hFree) ?_
  intro hName
  refine (lockTx_returns hFree).bind ?_
  rintro s' rfl
  refine (put_returns ?_).bind ?_
  · simp only [htons, List.length_append, List.length_cons, List.length_nil]
    omega
  · intro s₁ _
    refine (put_returns (by omega)).bind ?_
    intro s₂ _
    refine (syncsend_returns ?_).bind ?_
    · have hByte : (UInt8.ofNat (name.length + 5)).toNat ≤ name.length + 5 := by
        rw [UInt8.toNat_ofNat']
        exact Nat.mod_le _ _
      omega
    · rintro ⟨s₃, res⟩ _
      refine Returns.ite ?_ (fun _ => .of_eq rfl)
      intro _
      exact Returns.ite (fun _ => .of_eq rfl) (fun _ => .of_eq rfl)

theorem emcuteUnsub_unlocked
    {sub : Nat} (hFits : s.gatewayPort = 0 ∨ name.length + 5 ≤ conf.bufsize) :
    Returns Unlocked (emcuteUnsub s env sub name) := by
  have hBuf := conf.topicMaxlen_lt_bufsize
  refine Returns.ite (fun _ => .of_eq hFree) ?_
  intro hPort
  have hName := hFits.resolve_left hPort
  refine (lockTx_returns hFree).bind ?_
  rintro s' rfl
  refine (put_returns ?_).bind ?_
  · simp only [htons, List.length_append, List.length_cons, List.length_nil]
    omega
  · intro s₁ _
    refine (put_returns (by omega)).bind ?_
    intro s₂ _
    refine (syncsend_returns ?_).bind ?_
    · have hByte : (UInt8.ofNat (name.length + 5)).toNat ≤ name.length + 5 := by
        rw [UInt8.toNat_ofNat']
        exact Nat.mod_le _ _
      omega
    · rintro ⟨s₃, res⟩ _
      exact Returns.ite (fun _ => .of_eq rfl) (fun _ => .of_eq rfl)

theorem emcuteWillupdTopic_unlocked
    {topic : Option (List UInt8)} (hAsserts : flags &&& ~~~Emcute.pubFlags = 0) :
    Returns Unlocked (emcuteWillupdTopic s env topic flags) := by
  have hBuf := conf.topicMaxlen_lt_bufsize
  refine (asserts_returns hAsserts).bind ?_
  rintro s rfl
  refine Returns.ite (fun _ => .of_eq hFree) ?_
  intro _
  refine Returns.ite (fun _ => .of_eq hFree) ?_
  intro hName
  refine (lockTx_returns hFree).bind ?_
  rintro s' rfl
  refine (put_returns ?_).bind ?_
  · rw [List.length_singleton]
    omega
  · intro s₁ _
    cases topic with
    | none =>
      refine (put_returns ?_).bind ?_
      · rw [List.length_singleton]
        omega
      · intro s₂ _
        exact syncsend_unlocked (by omega)
    | some name =>
      rw [Option.getD_some] at hName
      refine (put_returns ?_).bind ?_
      · rw [List.length_singleton]
        omega
      · intro s₂ _
        refine (put_returns ?_).bind ?_
        · rw [List.length_singleton]
          omega
        · intro s₃ _
          refine (put_returns (by omega)).bind ?_
          intro s₄ _
          apply syncsend_unlocked
          have hByte : (UInt8.ofNat (name.length + 3)).toNat ≤ name.length + 3 := by
            rw [UInt8.toNat_ofNat']
            exact Nat.mod_le _ _
          omega

theorem emcuteWillupdMsg_unlocked
    {data : List UInt8} (hAsserts : data ≠ []) :
    Returns Unlocked (emcuteWillupdMsg s env data) := by
  have hBuf := conf.topicMaxlen_lt_bufsize
  refine (asserts_returns hAsserts).bind ?_
  rintro s rfl
  refine Returns.ite (fun _ => .of_eq hFree) ?_
  intro _
  refine Returns.ite (fun _ => .of_eq hFree) ?_
  intro hData
  refine (lockTx_returns hFree).bind ?_
  rintro s' rfl
  refine (emcuteSetLen_returns _).bind ?_
  rintro ⟨s₁, pos⟩ ⟨_, hPos⟩
  dsimp only at hPos ⊢
  refine (put_returns ?_).bind ?_
  · rw [List.length_singleton]
    omega
  · intro s₂ _
    refine (put_returns (by omega)).bind ?_
    intro s₃ _
    exact syncsend_unlocked (by omega)

end

/- The exchanges of a last will that can be answered. -/
structure WillFits
    (conf : EmcuteConf) (env : Nat → SyncEnv)
    (willTopic willMsg : List UInt8) : Prop where
  topic_le : willTopic.length ≤ conf.topicMaxlen
  msg_le : willMsg.length + 4 ≤ conf.bufsize
  topic_answered : Answered conf (env 0) Emcute.willtopicreq
  msg_answered : Answered conf (env 1) Emcute.willmsgreq

theorem syncsend_will_returns
    {type : UInt8} (hLen : len ≤ conf.bufsize) (hWill : WillRequest type)
    (hAnswered : Answered conf sync type) :
    Returns (fun result => result.2 = Emcute.ok) (syncsend s sync type len false) := by
  rcases @syncsend_spec conf s sync type len false hLen with ⟨s', res, hSync, _⟩
  exact ⟨_, hSync, (syncsend_answered_iff hLen hWill hSync).mpr hAnswered⟩

theorem emcuteConWill_unlocked
    {willTopic willMsg : List UInt8} {willFlags : UInt32}
    (hLen : len ≤ conf.bufsize) (hFits : WillFits conf env willTopic willMsg) :
    Returns Unlocked (emcuteConWill s env len willTopic willMsg willFlags) := by
  have hBuf := conf.topicMaxlen_lt_bufsize
  have hTop := conf.topicMaxlen_lt
  have hTopic := hFits.topic_le
  have hMsg := hFits.msg_le
  have hPow : 2 ^ 16 ≤ 2 ^ conf.width := Nat.pow_le_pow_right (by decide) conf.width_ge
  have hSmall := conf.bufsize_lt
  have hSum : (willMsg.length + 4) % 2 ^ conf.width = willMsg.length + 4 :=
    Nat.mod_eq_of_lt (by omega)
  have hNext : (willMsg.length + 1) % 2 ^ conf.width = willMsg.length + 1 :=
    Nat.mod_eq_of_lt (by omega)
  refine Returns.ite ?_ ?_
  · intro hLong
    rw [hSum] at hLong
    omega
  · intro _
    refine (syncsend_will_returns hLen (.inl rfl) hFits.topic_answered).bind ?_
    rintro ⟨s₁, res₁⟩ hOk
    refine Returns.ite (fun hNot => absurd hOk hNot) ?_
    intro _
    refine (emcuteSetLen_returns _).bind ?_
    rintro ⟨s₂, pos⟩ ⟨_, hPos⟩
    dsimp only at hPos ⊢
    refine (put_returns ?_).bind ?_
    · rw [List.length_singleton]
      omega
    · intro s₃ _
      refine (put_returns ?_).bind ?_
      · rw [List.length_singleton]
        omega
      · intro s₄ _
        refine (put_returns (by omega)).bind ?_
        intro s₅ _
        refine (syncsend_will_returns (by omega) (.inr rfl) hFits.msg_answered).bind ?_
        rintro ⟨s₆, res₆⟩ hOk'
        refine Returns.ite (fun hNot => absurd hOk' hNot) ?_
        intro _
        rw [hNext]
        refine (emcuteSetLen_returns _).bind ?_
        rintro ⟨s₇, pos'⟩ ⟨_, hPos'⟩
        dsimp only at hPos' ⊢
        refine (put_returns ?_).bind ?_
        · rw [List.length_singleton]
          omega
        · intro s₈ _
          refine (put_returns (by omega)).bind ?_
          intro s₉ _
          apply emcuteConAck_unlocked
          have hMod : (pos' + willMsg.length + 1) % 2 ^ conf.width ≤ pos' + willMsg.length + 1 :=
            Nat.mod_le _ _
          omega

/- An exchange that does not unlock keeps the lock. -/
theorem syncsend_kept
    {type : UInt8} {res : Int} (hLen : len ≤ conf.bufsize)
    (hSync : syncsend s sync type len false = some (s', res)) :
    s'.txlock = s.txlock := by
  rcases @syncsend_spec conf s sync type len false hLen with ⟨s₁, res₁, hEq, hLock⟩
  rw [hSync] at hEq
  cases hEq
  exact hLock

/- Giving up the connection does not give up the lock. -/
theorem dropGateway_held
    (hHeld : s.txlock = true) :
    (dropGateway s).txlock ≠ false := by
  unfold dropGateway
  dsimp only
  rw [hHeld]
  decide

theorem put_kept
    {pos : Nat} {bs : List UInt8} (hPut : s.put pos bs = some s') :
    s'.txlock = s.txlock := by
  rcases Emcute.put_some hPut with ⟨_, buf, rfl⟩
  rfl

/- A connect with a will that released the lock. -/
theorem willFits_of_unlocked
    {res : Int} {willTopic willMsg : List UInt8} {willFlags : UInt32}
    (hLen : len ≤ conf.bufsize) (hHeld : s.txlock = true)
    (hCall : emcuteConWill s env len willTopic willMsg willFlags = some (s', res))
    (hFree : s'.txlock = false) :
    WillFits conf env willTopic willMsg := by
  have hBuf := conf.topicMaxlen_lt_bufsize
  have hPow : 2 ^ 16 ≤ 2 ^ conf.width := Nat.pow_le_pow_right (by decide) conf.width_ge
  have hSmall := conf.bufsize_lt
  unfold emcuteConWill at hCall
  by_cases hLong :
      willTopic.length > conf.topicMaxlen ∨ (willMsg.length + 4) % 2 ^ conf.width > conf.bufsize
  · rw [if_pos hLong] at hCall
    cases hCall
    exact absurd hFree (dropGateway_held hHeld)
  · rw [if_neg hLong] at hCall
    rcases Option.bind_eq_some_iff.mp hCall with ⟨⟨s₁, res₁⟩, hFirst, hRest₁⟩
    have hLock₁ := (syncsend_kept hLen hFirst).trans hHeld
    dsimp only at hRest₁
    by_cases hFail₁ : res₁ ≠ Emcute.ok
    · rw [if_pos hFail₁] at hRest₁
      cases hRest₁
      exact absurd hFree (dropGateway_held hLock₁)
    · rw [if_neg hFail₁] at hRest₁
      rcases Option.bind_eq_some_iff.mp hRest₁ with ⟨⟨s₂, pos⟩, hSet, hRest₂⟩
      rcases @emcuteSetLen_eq conf s₁ (willTopic.length + 2) with ⟨buf, pos₀, hSetEq, hPos⟩
      rw [hSet] at hSetEq
      cases hSetEq
      rcases Option.bind_eq_some_iff.mp hRest₂ with ⟨s₃, hPut₃, hRest₃⟩
      rcases Option.bind_eq_some_iff.mp hRest₃ with ⟨s₄, hPut₄, hRest₄⟩
      rcases Option.bind_eq_some_iff.mp hRest₄ with ⟨s₅, hPut₅, hRest₅⟩
      rcases Option.bind_eq_some_iff.mp hRest₅ with ⟨⟨s₆, res₆⟩, hSecond, hRest₆⟩
      have hLen₂ : pos + willTopic.length + 2 ≤ conf.bufsize := by
        omega
      have hLock₆ : s₆.txlock = true := by
        rw [syncsend_kept hLen₂ hSecond, put_kept hPut₅, put_kept hPut₄, put_kept hPut₃]
        exact hLock₁
      dsimp only at hRest₆
      by_cases hFail₆ : res₆ ≠ Emcute.ok
      · rw [if_pos hFail₆] at hRest₆
        cases hRest₆
        exact absurd hFree (dropGateway_held hLock₆)
      · rw [if_neg hFail₆] at hRest₆
        rcases Option.bind_eq_some_iff.mp hRest₆ with ⟨⟨s₇, pos₇⟩, _, hRest₇⟩
        rcases Option.bind_eq_some_iff.mp hRest₇ with ⟨s₈, _, hRest₈⟩
        rcases Option.bind_eq_some_iff.mp hRest₈ with ⟨s₉, hPut₉, _⟩
        -- the message was written, so its length did not wrap
        have hMsg := (Emcute.put_some hPut₉).1
        have hSum : (willMsg.length + 4) % 2 ^ conf.width = willMsg.length + 4 :=
          Nat.mod_eq_of_lt (by omega)
        rw [hSum] at hLong
        exact
          { topic_le := by omega
            msg_le := by omega
            topic_answered := (syncsend_answered_iff hLen (.inl rfl) hFirst).mp (not_not.mp hFail₁)
            msg_answered :=
              (syncsend_answered_iff hLen₂ (.inr rfl) hSecond).mp (not_not.mp hFail₆) }

end

----
-- Releasing the Lock
----

/- The assertion at the start of a call. -/
def EmcuteCall.Asserted
    (s : Emcute conf) : EmcuteCall → Prop
| .con _ _ willTopic willMsg willFlags =>
  willTopic = none ∨ willMsg ≠ none ∧ willFlags &&& ~~~Emcute.pubFlags = 0
| .pub topic data flags =>
  s.topicId topic ≠ 0 ∧ data ≠ [] ∧ flags &&& ~~~Emcute.pubFlags = 0
| .sub _ _ flags => flags &&& ~~~Emcute.subFlags = 0
| .willupdTopic _ flags => flags &&& ~~~Emcute.pubFlags = 0
| .willupdMsg data => data ≠ []
| _ => True

/-
  A call that gets the lock gives it back: a connect finds no
  connection, and its will fits and is answered; a name to
  unsubscribe fits the buffer.
-/
def EmcuteCall.Unlocks
    (s : Emcute conf)
    (env : Nat → SyncEnv) : EmcuteCall → Prop
| .con _ _ willTopic willMsg _ =>
  s.gatewayPort = 0 ∧ s.cliId.length + 6 ≤ conf.bufsize ∧
    ∀ topic ∈ willTopic, WillFits conf env topic (willMsg.getD [])
| .unsub _ name => s.gatewayPort = 0 ∨ name.length + 5 ≤ conf.bufsize
| _ => True

/- A call returns with the transmit lock unlocked. -/
def EmcuteCall.Releases
    (s : Emcute conf) (env : Nat → SyncEnv) (call : EmcuteCall) : Prop :=
  Returns Unlocked (call.exec s env)

section

variable {env : Nat → SyncEnv} {willTopic willMsg : Option (List UInt8)}
variable {f : Emcute conf → Option (Emcute conf × Int)}

theorem emcuteCon_unlocked
    {remotePort : Nat} {clean : Bool} {willFlags : UInt32}
    (hFree : s.txlock = false)
    (hAsserts : willTopic = none ∨ willMsg ≠ none ∧ willFlags &&& ~~~Emcute.pubFlags = 0)
    (hPort : s.gatewayPort = 0) (hId : s.cliId.length + 6 ≤ conf.bufsize)
    (hWill : ∀ topic ∈ willTopic, WillFits conf env topic (willMsg.getD [])) :
    Returns Unlocked (emcuteCon s env remotePort clean willTopic willMsg willFlags) := by
  refine (asserts_returns hAsserts).bind ?_
  rintro s rfl
  refine (lockTx_returns hFree).bind ?_
  rintro s' rfl
  refine Returns.ite (fun hNot => absurd hPort hNot) ?_
  intro _
  refine (put_returns ?_).bind ?_
  · simp only [htons, List.length_append, List.length_cons, List.length_nil]
    omega
  · rintro _ ⟨buf, rfl⟩
    refine (put_returns ?_).bind ?_
    · dsimp only
      omega
    · intro s₂ _
      cases hTopic : willTopic with
      | none => exact emcuteConAck_unlocked hId
      | some topic =>
        rw [hTopic] at hWill
        exact emcuteConWill_unlocked hId (hWill topic rfl)

/- What a connect that released the lock has met. -/
theorem unlocks_of_emcuteCon
    {remotePort : Nat} {clean : Bool} {willFlags : UInt32}
    (hReturns : Returns Unlocked (emcuteCon s env remotePort clean willTopic willMsg willFlags)) :
    s.txlock = false ∧ (EmcuteCall.con remotePort clean willTopic willMsg willFlags).Asserted s ∧
      (EmcuteCall.con remotePort clean willTopic willMsg willFlags).Unlocks s env := by
  rcases hReturns with ⟨⟨s', res⟩, hCall, hUnlocked⟩
  have hFree : s'.txlock = false := hUnlocked
  unfold emcuteCon at hCall
  rcases Option.bind_eq_some_iff.mp hCall with ⟨s₁, hAsserts, hRest₁⟩
  unfold asserts at hAsserts
  split at hAsserts
  · rename_i hTrue
    cases hAsserts
    rcases Option.bind_eq_some_iff.mp hRest₁ with ⟨s₂, hLock, hRest₂⟩
    have hStart : s.txlock = false := by
      apply Bool.eq_false_of_not_eq_true
      intro hHeld
      rw [lockTx_held hHeld] at hLock
      cases hLock
    rw [lockTx_eq hStart] at hLock
    cases hLock
    refine ⟨hStart, hTrue, ?_⟩
    dsimp only at hRest₂
    by_cases hPort : s.gatewayPort ≠ 0
    · rw [if_pos hPort] at hRest₂
      cases hRest₂
      cases hFree
    · rw [if_neg hPort] at hRest₂
      rcases Option.bind_eq_some_iff.mp hRest₂ with ⟨s₃, hPut₃, hRest₃⟩
      rcases Option.bind_eq_some_iff.mp hRest₃ with ⟨s₄, hPut₄, hRest₄⟩
      rcases Emcute.put_some hPut₃ with ⟨_, buf₃, rfl⟩
      rcases Emcute.put_some hPut₄ with ⟨hId, buf₄, rfl⟩
      dsimp only at hId
      have hLen : s.cliId.length + 6 ≤ conf.bufsize := by
        omega
      refine ⟨not_not.mp hPort, hLen, ?_⟩
      intro topic hTopic
      cases hTopic
      exact willFits_of_unlocked hLen rfl hRest₄ hFree
  · cases hAsserts

/- A call that waits for the lock and returns got it. -/
theorem free_of_lockTx
    (hReturns : Returns Unlocked (lockTx s >>= f)) :
    s.txlock = false := by
  apply Bool.eq_false_of_not_eq_true
  intro hHeld
  rw [lockTx_held hHeld] at hReturns
  rcases hReturns with ⟨_, hNone, _⟩
  cases hNone

/- A call that returns early has left the lock alone. -/
theorem free_of_ite
    {p : Prop} [Decidable p] {res : Int} {r : Option (Emcute conf × Int)}
    (hReturns : Returns Unlocked (if p then some (s, res) else r))
    (hElse : Returns Unlocked r → s.txlock = false) :
    s.txlock = false := by
  by_cases hTest : p
  · rw [if_pos hTest] at hReturns
    rcases hReturns with ⟨_, hSome, hFree⟩
    cases hSome
    exact hFree
  · rw [if_neg hTest] at hReturns
    exact hElse hReturns

theorem asserted_of_returns
    {p : Prop} [Decidable p] (hReturns : Returns Unlocked (asserts p s >>= f)) :
    p ∧ Returns Unlocked (f s) := by
  unfold asserts at hReturns
  by_cases hTest : p
  · rw [if_pos hTest] at hReturns
    exact ⟨hTest, hReturns⟩
  · rw [if_neg hTest] at hReturns
    rcases hReturns with ⟨_, hNone, _⟩
    cases hNone

/- What a call that released the lock has met. -/
theorem unlocks_of_releases
    {call : EmcuteCall} (hReleases : call.Releases s env) :
    s.txlock = false ∧ call.Asserted s ∧ call.Unlocks s env := by
  cases call with
  | con remotePort clean willTopic willMsg willFlags => exact unlocks_of_emcuteCon hReleases
  | discon => exact ⟨free_of_ite hReleases free_of_lockTx, trivial, trivial⟩
  | reg topic name =>
    refine ⟨free_of_ite hReleases ?_, trivial, trivial⟩
    intro hRest
    exact free_of_ite hRest free_of_lockTx
  | pub topic data flags =>
    rcases asserted_of_returns hReleases with ⟨hAsserts, hRest⟩
    refine ⟨free_of_ite hRest ?_, hAsserts, trivial⟩
    intro hData
    refine free_of_ite hData ?_
    intro hFlags
    exact free_of_ite hFlags free_of_lockTx
  | sub subId name flags =>
    rcases asserted_of_returns hReleases with ⟨hAsserts, hRest⟩
    refine ⟨free_of_ite hRest ?_, hAsserts, trivial⟩
    intro hName
    exact free_of_ite hName free_of_lockTx
  | unsub subId name =>
    refine ⟨free_of_ite hReleases free_of_lockTx, trivial, ?_⟩
    rw [EmcuteCall.Unlocks, or_iff_not_imp_left]
    intro hPort
    rcases hReleases with ⟨result, hCall, _⟩
    unfold EmcuteCall.exec emcuteUnsub at hCall
    dsimp only at hCall
    rw [if_neg hPort] at hCall
    rcases Option.bind_eq_some_iff.mp hCall with ⟨s₁, _, hRest₁⟩
    rcases Option.bind_eq_some_iff.mp hRest₁ with ⟨s₂, _, hRest₂⟩
    rcases Option.bind_eq_some_iff.mp hRest₂ with ⟨s₃, hPut, _⟩
    have hFits := (Emcute.put_some hPut).1
    omega
  | willupdTopic topic flags =>
    rcases asserted_of_returns hReleases with ⟨hAsserts, hRest⟩
    refine ⟨free_of_ite hRest ?_, hAsserts, trivial⟩
    intro hName
    exact free_of_ite hName free_of_lockTx
  | willupdMsg data =>
    rcases asserted_of_returns hReleases with ⟨hAsserts, hRest⟩
    refine ⟨free_of_ite hRest ?_, hAsserts, trivial⟩
    intro hData
    exact free_of_ite hData free_of_lockTx

/-
  In every state, with all arguments and responses, a call
  returns with the lock unlocked exactly when it finds it
  unlocked, passes its assertion, and takes none of the ways
  out that keep the lock.
-/
theorem releases_iff
    (s : Emcute conf) (env : Nat → SyncEnv) (call : EmcuteCall) :
    call.Releases s env ↔ s.txlock = false ∧ call.Asserted s ∧ call.Unlocks s env := by
  constructor
  · exact unlocks_of_releases
  · rintro ⟨hFree, hAsserts, hUnlocks⟩
    cases call with
    | con remotePort clean willTopic willMsg willFlags =>
      rcases hUnlocks with ⟨hPort, hId, hWill⟩
      exact emcuteCon_unlocked hFree hAsserts hPort hId hWill
    | discon => exact emcuteDiscon_unlocked hFree
    | reg topic name => exact emcuteReg_unlocked hFree
    | pub topic data flags => exact emcutePub_unlocked hFree hAsserts
    | sub subId name flags => exact emcuteSub_unlocked hFree hAsserts
    | unsub subId name => exact emcuteUnsub_unlocked hFree hUnlocks
    | willupdTopic topic flags => exact emcuteWillupdTopic_unlocked hFree hAsserts
    | willupdMsg data => exact emcuteWillupdMsg_unlocked hFree hAsserts

end

/- The default constants, with a short buffer. -/
def sampleEmcuteConf : EmcuteConf where
  bufsize := 32
  topicMaxlen := 16
  nRetry := 3
  keepalive := 360
  width := 32
  topicMaxlen_lt := by decide
  topicMaxlen_lt_bufsize := by decide
  bufsize_lt := by decide
  bufsize_ge := by decide
  width_ge := by decide

/- A client with the id "a", before its first call. -/
def emcuteStart : Emcute sampleEmcuteConf where
  cliId := [0x61]
  gatewayPort := 0
  rbuf := ⟨List.replicate 32 0, by decide⟩
  tbuf := ⟨List.replicate 32 0, by decide⟩
  subs := []
  topicId := fun _ => 0
  txlock := false
  idNext := 0x1234
  waiton := 0xff
  waitonid := 0
  result := 0
  tflagsResp := false
  sent := []

/- A connect without a will to the gateway at port 1883. -/
def plainCon : EmcuteCall :=
  .con 1883 true none none 0

/-
  The gateway accepts the connection.  A second connect
  returns `EMCUTE_NOGW` and keeps the lock, and a disconnect
  waits for it forever.
-/
theorem not_releases_con :
    ∃ (s₁ s₂ : Emcute sampleEmcuteConf)
        (env : Nat → SyncEnv), plainCon.exec emcuteStart env = some (s₁, Emcute.ok) ∧
        s₁.txlock = false ∧ plainCon.exec s₁ env = some (s₂, Emcute.nogw) ∧ s₂.txlock = true ∧
        ¬ plainCon.Releases s₁ env ∧ EmcuteCall.discon.exec s₂ env = none := by
  refine ⟨_, _, fun _ => SyncEnv.answer [3, Emcute.connack, 0], rfl, rfl, rfl, rfl, ?_, rfl⟩
  rintro ⟨result, hCall, hFree⟩
  cases hCall
  cases hFree

end Riot
