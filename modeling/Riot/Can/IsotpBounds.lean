import Riot.Can.IsotpRuns

/-
  Which bytes of a frame the handlers of received frames read,
  and where in the buffer they store them.

  Everything is in bounds as long as frames are no shorter than
  their first bytes, no first frame carries more than it
  announces, and no consecutive frame with data follows a first
  frame that carried the whole message.
-/

----
-- The Accesses of a Frame
----

namespace Riot

/- Indices of `frame->data`, and of `rx.snip` with its size. -/
structure RxAccesses where
  reads : List Nat
  writes : List Nat
  size : Nat
deriving DecidableEq, Repr

def RxAccesses.InBounds
    (a : RxAccesses) (canDlc : Nat) : Prop :=
  (∀ i ∈ a.reads, i < canDlc) ∧ ∀ i ∈ a.writes, i < a.size

/- The length that a first frame announces. -/
def Isotp.ffLen
    (s : Isotp) (frame : CanFrame) : Nat :=
  (frame.byte s.opt.ae &&& 0x0f).toNat <<< 8 + (frame.byte (s.opt.ae + 1)).toNat

def rcvSfAccesses
    (env : IsotpEnv) (s : Isotp) (frame : CanFrame) : RxAccesses :=
  let ae := s.opt.ae
  let len := (frame.byte ae &&& 0x0f).toNat
  if frame.canDlc < len + (sfPciSz + ae) then
    ⟨[ae], [], 0⟩
  else if env.pktbufAdd = false then
    ⟨[ae], [], 0⟩
  else
    ⟨ae :: List.range' (sfPciSz + ae) len, List.range' 0 len, len⟩

def rcvFfAccesses
    (env : IsotpEnv) (s : Isotp) (frame : CanFrame) : RxAccesses :=
  let ae := s.opt.ae
  let len := s.ffLen frame
  if maxMsgLength < len then
    ⟨[ae, ae + 1], [], 0⟩
  else if env.pktbufAdd = false then
    ⟨[ae, ae + 1], [], 0⟩
  else
    let n := frame.canDlc - (ae + ffPciSz)
    ⟨ae :: (ae + 1) :: List.range' (ae + ffPciSz) n, List.range' 0 n, len⟩

/- How many of `n` bytes are stored before the loop is left. -/
def rcvCfStored
    (size : Nat) : Nat → Nat → Nat
| _, 0 => 0
| idx, n + 1 =>
  if size ≤ idx + 1 then 1
  else rcvCfStored size (idx + 1) n + 1

/- No byte fits where there is no buffer. -/
def rcvCfAccesses
    (s : Isotp) (frame : CanFrame) : RxAccesses :=
  let ae := s.opt.ae
  if s.rx.state ≠ .waitCf then
    ⟨[], [], 0⟩
  else if (frame.byte ae &&& 0x0f).toNat ≠ s.rx.sn then
    ⟨[ae], [], 0⟩
  else
    let size := (s.rx.snip.map IsotpSnip.size).getD 0
    let n := rcvCfStored size s.rx.idx (frame.canDlc - (ae + nPciSz))
    ⟨ae :: List.range' (ae + nPciSz) n, List.range' s.rx.idx n, size⟩

/- What is accessed by the handler that a frame is given to. -/
def rcvAccesses
    (env : IsotpEnv) (s : Isotp) (frame : CanFrame) : RxAccesses :=
  if s.opt.extendAddr = true ∧
      frame.byte 0 ≠ s.opt.rxExtAddress then
    ⟨[], [], 0⟩
  else
    let nPciType := s.pciType frame
    if nPciType = nPciSf then
      rcvSfAccesses env s frame
    else if nPciType = nPciFf then
      rcvFfAccesses env s frame
    else if nPciType = nPciCf then
      rcvCfAccesses s frame
    else
      ⟨[], [], 0⟩

/- What is stored starts in the buffer and does not pass it. -/
theorem rcvCfStored_spec
    {size idx n : Nat} :
    rcvCfStored size idx n ≤ n ∧ (n ≠ 0 → rcvCfStored size idx n ≠ 0) ∧
      (idx < size → idx + rcvCfStored size idx n ≤ size) := by
  induction n generalizing idx with
  | zero =>
    simp [rcvCfStored]
    omega
  | succ n ih =>
    rw [rcvCfStored]
    by_cases hFull : size ≤ idx + 1
    · rw [if_pos hFull]
      omega
    · rw [if_neg hFull]
      have hRest := @ih (idx + 1)
      omega

----
-- Frames That Fit
----

/-
  A frame is longer than the bytes that say what it is, a first
  frame carries no more than it announces, and there is still
  something missing when a consecutive frame brings data.
-/
def IsotpEvent.FitsBuffer
    (r : IsotpRun) : IsotpEvent → Prop
| .rcv env frame =>
  let ae := r.ch.opt.ae
  r.ch.Accepts frame → (r.ch.pciType frame = nPciSf → ae < frame.canDlc) ∧
    (r.ch.pciType frame = nPciFf → ae + 1 < frame.canDlc ∧
        (env.pktbufAdd = true → frame.canDlc ≤ ae + ffPciSz + r.ch.ffLen frame)) ∧
    (r.ch.pciType frame = nPciCf → r.ch.rx.state = .waitCf → ae < frame.canDlc ∧
          ((frame.byte ae &&& 0x0f).toNat = r.ch.rx.sn →
            ae + nPciSz < frame.canDlc → ∀ snip ∈ r.ch.rx.snip, r.ch.rx.idx ≠ snip.size))
| _ => True

/- A receiver that waits has not passed the end of its buffer. -/
def Isotp.RxRoom
    (s : Isotp) : Prop :=
  s.rx.state = .waitCf ∨ s.rx.state = .sendingFc →
    ∃ snip, s.rx.snip = some snip ∧ s.rx.idx ≤ snip.size

section

variable {s s' : Isotp} {env : IsotpEnv} {frame : CanFrame}

/- Consecutive indices are in bounds if the last one is. -/
theorem range'_lt_iff
    {k n m : Nat} :
    (∀ i ∈ List.range' k n, i < m) ↔ n = 0 ∨ k + n ≤ m := by
  constructor
  · intro hAll
    cases n with
    | zero => exact Or.inl rfl
    | succ n =>
      have hLast := hAll (k + n) (List.mem_range'_1.mpr (by omega))
      omega
  · intro hEnd i hi
    have := List.mem_range'_1.mp hi
    omega

/- A first byte is read, and then the bytes of the message. -/
theorem inBounds_cons_iff
    {ae k n idx m size canDlc : Nat} :
    RxAccesses.InBounds ⟨ae :: List.range' k n, List.range' idx m, size⟩
        canDlc ↔ ae < canDlc ∧ (n = 0 ∨ k + n ≤ canDlc) ∧ (m = 0 ∨ idx + m ≤ size) := by
  simp only [RxAccesses.InBounds, List.forall_mem_cons, range'_lt_iff, and_assoc]

/- No byte of the message is accessed. -/
theorem inBounds_nil_iff
    {reads : List Nat} {canDlc : Nat} :
    RxAccesses.InBounds ⟨reads, [], 0⟩ canDlc ↔ ∀ i ∈ reads, i < canDlc := by
  simp [RxAccesses.InBounds]

theorem rcvSfAccesses_inBounds_iff :
    (rcvSfAccesses env s frame).InBounds frame.canDlc ↔ s.opt.ae < frame.canDlc := by
  unfold rcvSfAccesses sfPciSz
  dsimp only
  split
  · simp [inBounds_nil_iff]
  split
  · simp [inBounds_nil_iff]
  · rw [inBounds_cons_iff]
    omega

theorem rcvFfAccesses_inBounds_iff :
    (rcvFfAccesses env s frame).InBounds frame.canDlc ↔ s.opt.ae + 1 < frame.canDlc ∧
        (env.pktbufAdd = true → frame.canDlc ≤ s.opt.ae + ffPciSz + s.ffLen frame) := by
  have hLen : ¬ maxMsgLength < s.ffLen frame := Nat.not_lt.mpr (ffLen_le _ _)
  unfold rcvFfAccesses ffPciSz
  dsimp only
  rw [if_neg hLen]
  by_cases hAdd : env.pktbufAdd = false
  · rw [if_pos hAdd, inBounds_nil_iff]
    simp [hAdd]
    omega
  · rw [if_neg hAdd]
    rw [Bool.not_eq_false] at hAdd
    have hReads : s.opt.ae :: (s.opt.ae + 1) ::
            List.range' (s.opt.ae + 2) (frame.canDlc - (s.opt.ae + 2)) =
          s.opt.ae :: List.range' (s.opt.ae + 1) (frame.canDlc - (s.opt.ae + 2) + 1) :=
      rfl
    rw [hReads, inBounds_cons_iff]
    simp only [hAdd, true_implies]
    omega

theorem rcvCfAccesses_inBounds_iff
    (hRoom : s.RxRoom) :
    (rcvCfAccesses s frame).InBounds frame.canDlc ↔ (s.rx.state = .waitCf →
        s.opt.ae < frame.canDlc ∧ ((frame.byte s.opt.ae &&& 0x0f).toNat = s.rx.sn →
            s.opt.ae + nPciSz < frame.canDlc → ∀ snip ∈ s.rx.snip, s.rx.idx ≠ snip.size)) := by
  unfold rcvCfAccesses nPciSz
  dsimp only
  by_cases hState : s.rx.state = .waitCf
  · rcases hRoom (Or.inl hState) with ⟨snip, hSnip, hLe⟩
    rw [if_neg (not_not.mpr hState), hSnip]
    simp only [hState, true_implies]
    by_cases hSn : (frame.byte s.opt.ae &&& 0x0f).toNat = s.rx.sn
    · rcases @rcvCfStored_spec snip.size s.rx.idx
        (frame.canDlc - (s.opt.ae + 1)) with
        ⟨hMost, hSome, hRoom⟩
      rw [if_neg (not_not.mpr hSn), inBounds_cons_iff]
      simp only [hSn, true_implies, Option.map_some, Option.getD_some, Option.mem_some_iff,
        forall_eq']
      omega
    · rw [if_pos hSn, inBounds_nil_iff]
      simp only [hSn, false_implies, and_true, List.forall_mem_singleton]
  · rw [if_pos hState, inBounds_nil_iff]
    simp [hState]

theorem rcvAccesses_inBounds_iff
    {r : IsotpRun} (hRoom : r.ch.RxRoom) :
    (rcvAccesses env r.ch frame).InBounds frame.canDlc ↔
      (IsotpEvent.rcv env frame).FitsBuffer r := by
  unfold rcvAccesses IsotpEvent.FitsBuffer
  dsimp only
  by_cases hOther : r.ch.opt.extendAddr = true ∧ frame.byte 0 ≠ r.ch.opt.rxExtAddress
  · have hNot : ¬ r.ch.Accepts frame := fun hMine => hOther.2 (hMine hOther.1)
    rw [if_pos hOther, inBounds_nil_iff]
    simp [hNot]
  have hMine : r.ch.Accepts frame := by
    intro hExt
    by_contra hNe
    exact hOther ⟨hExt, hNe⟩
  rw [if_neg hOther]
  by_cases hSf : r.ch.pciType frame = nPciSf
  · rw [if_pos hSf, rcvSfAccesses_inBounds_iff]
    simp [hMine, hSf, nPciSf, nPciFf, nPciCf]
  by_cases hFf : r.ch.pciType frame = nPciFf
  · rw [if_neg hSf, if_pos hFf, rcvFfAccesses_inBounds_iff]
    simp [hMine, hFf, nPciSf, nPciFf, nPciCf]
  by_cases hCf : r.ch.pciType frame = nPciCf
  · rw [if_neg hSf, if_neg hFf, if_pos hCf, rcvCfAccesses_inBounds_iff hRoom]
    simp [hMine, hCf, nPciSf, nPciFf, nPciCf]
  · rw [if_neg hSf, if_neg hFf, if_neg hCf, inBounds_nil_iff]
    simp [hSf, hFf, hCf]

end

----
-- Room in the Buffer
----

section

variable {s s' : Isotp} {env : IsotpEnv} {frame : CanFrame}

theorem Isotp.RxRoom.same
    (h : s.RxRoom) (hRx : s'.rx = s.rx) :
    s'.RxRoom := by
  unfold Isotp.RxRoom
  rw [hRx]
  exact h

theorem rxRoom_of_idle
    (hIdle : s.rx.state = .idle) :
    s.RxRoom := by
  rintro (hWait | hWait)
  · rw [hIdle] at hWait
    cases hWait
  · rw [hIdle] at hWait
    cases hWait

theorem Isotp.RxRoom.sendFc
    {status : UInt8} (h : s.RxRoom) :
    (isotpSendFc env s status).RxRoom := by
  unfold isotpSendFc
  dsimp only
  split
  · exact h
  · exact rxRoom_of_idle rfl

@[simp]
theorem isotpDispatchTx_rx
    {report : IsotpReport} :
    (isotpDispatchTx env s report).rx = s.rx := by
  unfold isotpDispatchTx
  rw [snipRelease_eq]

theorem isotpRcvFc_rx :
    (isotpRcvFc env s frame).rx = s.rx := by
  unfold isotpRcvFc
  dsimp only
  split_ifs <;> simp

theorem isotpTxSend_rx :
    (isotpTxSend env s frame).rx = s.rx := by
  unfold isotpTxSend
  dsimp only
  split_ifs <;> simp

theorem isotpDispatchRx_rxRoom
    {snip : IsotpSnip} (hIdle : s.rx.state = .idle) :
    (isotpDispatchRx env s snip).RxRoom := by
  apply rxRoom_of_idle
  rw [(isotpDispatchRx_sameRx env s snip).state, hIdle]

theorem isotpRcvSf_rxRoom :
    (isotpRcvSf env s frame).RxRoom := by
  unfold isotpRcvSf
  dsimp only
  split
  · exact rxRoom_of_idle rfl
  split
  · exact rxRoom_of_idle rfl
  · exact isotpDispatchRx_rxRoom rfl

theorem length_storeBytes
    {buf bytes : List UInt8} {idx : Nat} :
    (storeBytes buf idx bytes).length = buf.length := by
  induction bytes generalizing buf idx with
  | nil => rfl
  | cons b bytes ih => rw [storeBytes, ih, List.length_set]

theorem isotpOverflow_rxRoom
    (hIdle : s.rx.state = .idle) :
    (isotpOverflow env s).RxRoom := by
  unfold isotpOverflow
  split
  · exact rxRoom_of_idle hIdle
  · exact (rxRoom_of_idle hIdle).sendFc

/- The bytes of a first frame that fits fill part of the buffer. -/
theorem isotpRcvFf_rxRoom
    (hFits : env.pktbufAdd = true → frame.canDlc ≤ s.opt.ae + ffPciSz + s.ffLen frame) :
    (isotpRcvFf env s frame).RxRoom := by
  unfold isotpRcvFf
  dsimp only
  rw [snipRelease_eq]
  split
  · exact isotpOverflow_rxRoom rfl
  split
  · exact isotpOverflow_rxRoom rfl
  rename_i hAdd
  have hCarried := hFits (by simpa using hAdd)
  have hRoom : ∀ s' : Isotp, s'.rx.idx = (frame.bytes (s.opt.ae + ffPciSz) frame.canDlc).length →
        (∃ id, s'.rx.snip = some ⟨id, storeBytes (List.replicate (s.ffLen frame) 0) 0
            (frame.bytes (s.opt.ae + ffPciSz) frame.canDlc)⟩) → s'.RxRoom := by
    rintro s' hIdx ⟨id, hSnip⟩ _
    refine ⟨_, hSnip, ?_⟩
    rw [hIdx]
    simp only [IsotpSnip.size, length_storeBytes, List.length_replicate, CanFrame.bytes,
      List.length_map, List.length_range']
    omega
  split
  · exact hRoom _ rfl ⟨_, rfl⟩
  · exact Isotp.RxRoom.sendFc (hRoom _ rfl ⟨_, rfl⟩)

/- The buffer is not full if the message is not handed over. -/
theorem isotpRcvCf_rxRoom
    (h : s.RxRoom) (hRcv : isotpRcvCf env s frame = some s') :
    s'.RxRoom := by
  unfold isotpRcvCf at hRcv
  dsimp only at hRcv
  split at hRcv
  · cases hRcv
    exact h
  split at hRcv
  · cases hRcv
    rw [snipRelease_eq]
    exact rxRoom_of_idle rfl
  split at hRcv
  · cases hRcv
  split at hRcv
  · cases hRcv
    exact isotpDispatchRx_rxRoom rfl
  rename_i hMissing
  have hRoom :
      ∀ s' : Isotp, ∀ snip : IsotpSnip, s'.rx.snip = some snip → ¬ snip.size ≤ s'.rx.idx →
        s'.RxRoom :=
    fun _ snip hSnip hLess _ =>
      ⟨snip, hSnip, Nat.le_of_not_le hLess⟩
  split at hRcv
  · cases hRcv
    exact hRoom _ _ rfl hMissing
  split at hRcv
  · cases hRcv
    exact hRoom _ _ rfl hMissing
  split at hRcv
  · cases hRcv
    exact hRoom _ _ rfl hMissing
  · cases hRcv
    exact Isotp.RxRoom.sendFc (hRoom _ _ rfl hMissing)

theorem Isotp.RxRoom.rcv
    {r : IsotpRun} (h : r.ch.RxRoom)
    (hFits : (IsotpEvent.rcv env frame).FitsBuffer r)
    (hRcv : isotpRcv env r.ch frame = some s') :
    s'.RxRoom := by
  unfold isotpRcv at hRcv
  split at hRcv
  · cases hRcv
    exact h
  rename_i hMine
  have hAccepts : r.ch.Accepts frame := by
    intro hExt
    by_contra hNe
    exact hMine ⟨hExt, hNe⟩
  dsimp only at hRcv
  split at hRcv
  · cases hRcv
    exact h.same isotpRcvFc_rx
  split at hRcv
  · cases hRcv
    exact isotpRcvSf_rxRoom
  split at hRcv
  · rename_i hType
    cases hRcv
    exact isotpRcvFf_rxRoom ((hFits hAccepts).2.1 hType).2
  split at hRcv
  · exact isotpRcvCf_rxRoom h hRcv
  · cases hRcv
    exact h

theorem isotpTxTxConf_rx
    (hConf : isotpTxTxConf env s = some s') :
    s'.rx = s.rx := by
  unfold isotpTxTxConf at hConf
  dsimp only at hConf
  split at hConf
  · cases hConf
    exact isotpDispatchTx_rx
  · cases hConf
    rfl
  · split at hConf
    · cases hConf
    split_ifs at hConf
    · cases hConf
      exact isotpDispatchTx_rx
    · cases hConf
      rfl
    · cases hConf
      rfl
  · cases hConf
    rfl

theorem isotpTxTimeoutTask_rx
    (hTask : isotpTxTimeoutTask env s = some s') :
    s'.rx = s.rx := by
  unfold isotpTxTimeoutTask at hTask
  split at hTask
  · cases hTask
    exact isotpDispatchTx_rx
  · split at hTask
    · cases hTask
    · cases hTask
      exact isotpTxSend_rx
  · cases hTask
    exact isotpDispatchTx_rx
  · cases hTask
    exact isotpDispatchTx_rx
  · cases hTask
    exact isotpDispatchTx_rx
  · cases hTask
    rfl

theorem isotpSendSfFf_rx
    (hSend : isotpSendSfFf env s = some s') :
    s'.rx = s.rx := by
  unfold isotpSendSfFf at hSend
  split at hSend
  · cases hSend
  dsimp only at hSend
  split at hSend
  · cases hSend
    exact isotpTxSend_rx
  · cases hSend
    exact isotpTxSend_rx

theorem isotpSend_rx
    {buf : List UInt8} :
    (isotpSend env s buf).2.rx = s.rx := by
  unfold isotpSend
  split_ifs
  · rfl
  · rfl
  · rfl

theorem isotpRxTxConf_rxRoom
    (h : s.RxRoom) :
    (isotpRxTxConf s).RxRoom := by
  unfold isotpRxTxConf
  dsimp only
  split
  · rename_i hState
    exact fun _ => h (Or.inr hState)
  · exact h

theorem isotpRxTimeoutTask_rxRoom
    {late : Bool} (h : s.RxRoom) :
    (isotpRxTimeoutTask (s.rxExpired late)).RxRoom := by
  have hRx : (s.rxExpired late).rx = s.rx := by
    unfold Isotp.rxExpired
    split
    · rfl
    · rfl
  unfold isotpRxTimeoutTask
  rw [snipRelease_eq]
  split
  · exact rxRoom_of_idle rfl
  · exact rxRoom_of_idle rfl
  · exact h.same hRx

end

theorem Isotp.RxRoom.exec
    {r r' : IsotpRun} {e : IsotpEvent} (h : r.ch.RxRoom) (hFits : e.FitsBuffer r)
    (hExec : r.exec e = some r') :
    r'.ch.RxRoom := by
  cases e with
  | rcv env frame =>
    rcases Option.map_eq_some_iff.mp hExec with ⟨s', hRcv, rfl⟩
    exact h.rcv hFits hRcv
  | conf env handle =>
    rcases Option.map_eq_some_iff.mp hExec with ⟨s', hConf, rfl⟩
    unfold isotpTxConfirmation at hConf
    split at hConf
    · exact h.same (isotpTxTxConf_rx hConf)
    split at hConf
    · cases hConf
      exact isotpRxTxConf_rxRoom h
    · cases hConf
      exact h
  | rxTimeout late =>
    cases hExec
    exact isotpRxTimeoutTask_rxRoom h
  | txTimeout env late =>
    rcases Option.map_eq_some_iff.mp hExec with ⟨s', hTask, rfl⟩
    apply h.same
    rw [isotpTxTimeoutTask_rx hTask]
    unfold Isotp.txExpired
    split
    · rfl
    · rfl
  | send env buf =>
    have hRx := @isotpSend_rx r.ch env buf
    unfold IsotpRun.exec at hExec
    dsimp only at hExec
    split at hExec
    · rename_i hRet
      cases hExec
      rw [hRet] at hRx
      exact h.same hRx
    · rename_i hRet
      cases hExec
      rw [hRet] at hRx
      exact h.same hRx
  | sendFrame env =>
    rcases Option.map_eq_some_iff.mp hExec with ⟨s', hSend, rfl⟩
    exact h.same (isotpSendSfFf_rx hSend)
  | release =>
    cases hExec
    exact rxRoom_of_idle rfl

/-
  After frames that fit, the accesses of the next one are in
  bounds exactly if it fits, too.
-/
theorem rcvAccesses_inBounds_of_reachable
    {opt : IsotpOptions} {fcOptions : IsotpFcOptions} {r : IsotpRun}
    (hReach : (isotpSystem opt fcOptions).ReachableVia (fun r e => e.FitsBuffer r) r)
    (env : IsotpEnv) (frame : CanFrame) :
    (rcvAccesses env r.ch frame).InBounds frame.canDlc ↔
      (IsotpEvent.rcv env frame).FitsBuffer r := by
  apply rcvAccesses_inBounds_iff
  apply hReach.invariant (I := fun r => r.ch.RxRoom)
  · rintro r rfl
    exact rxRoom_of_idle rfl
  · intro r e r' h hFits _ hExec
    exact h.exec hFits hExec

instance
    (r : IsotpRun) : (e : IsotpEvent) → Decidable (e.FitsBuffer r)
| .rcv _ _ => by
  unfold IsotpEvent.FitsBuffer
  infer_instance
| .conf .. | .rxTimeout _ | .txTimeout .. | .send .. | .sendFrame _ | .release =>
  instDecidableTrue

/- The second frame of a message of twenty bytes. -/
theorem rcvAccesses_inBounds_nextSeven :
    ∃ r : IsotpRun,
      (isotpSystem plainOptions oneByOne).ReachableVia
          (fun r e => e.FitsBuffer r) r ∧
        rcvAccesses (.good 2) r.ch nextSeven = ⟨List.range 8, List.range' 6 7, 20⟩ ∧
        (rcvAccesses (.good 2) r.ch nextSeven).InBounds
          nextSeven.canDlc := by
  have hRun :
      ((isotpSystem plainOptions oneByOne).runVia
          (fun r e => e.FitsBuffer r) isotpStart
          [.rcv (.good 1) twentyBytes, .conf (.good 2) 1]).any
        (fun r => decide
          (rcvAccesses (.good 2) r.ch nextSeven = ⟨List.range 8, List.range' 6 7, 20⟩ ∧
            (IsotpEvent.rcv (.good 2) nextSeven).FitsBuffer r)) = true := by
    decide +kernel
  rcases System.exists_reachableVia_of_runVia
    isotpStart_start hRun with
    ⟨r, _, hReach, hAccesses, hFits⟩
  exact ⟨r, hReach, hAccesses,
    (rcvAccesses_inBounds_of_reachable hReach (.good 2) nextSeven).mpr hFits⟩

/- Two bytes are announced, and six are stored. -/
theorem not_rcvAccesses_inBounds :
    ¬ ∀ r env (frame : CanFrame), (isotpSystem plainOptions oneByOne).Reachable r →
      frame.canDlc ≤ canMaxDlen → (rcvAccesses env r.ch frame).InBounds frame.canDlc := by
  intro hAll
  have hFrame := hAll isotpStart (.good 1)
    ⟨2, 8, [0x10, 2, 1, 2, 3, 4, 5, 6]⟩
    (.start isotpStart_start) (by decide)
  have hSix :
      rcvAccesses (.good 1) isotpStart.ch
          ⟨2, 8, [0x10, 2, 1, 2, 3, 4, 5, 6]⟩ = ⟨List.range 8, List.range 6, 2⟩ := by
    decide
  rw [hSix] at hFrame
  have hLast := hFrame.2 5 (by decide)
  revert hLast
  decide

end Riot
