import Riot.Can.Isotp
import Riot.Lib.System
import Mathlib.Data.List.Perm.Basic
import Mathlib.Data.List.Count
import Mathlib.Data.List.Range

/-
  Runs of a channel: received frames, confirmations, timeouts,
  and calls from the upper layer, in any order.

  Every snip is released or handed over once, as long as no
  single frame and no call of `isotp_send` finds a snip in
  place, and no first frame that finds one fails to get another.
  The receiver waits with its timer armed, as long as no
  confirmation comes while it waits for consecutive frames.
-/

----
-- The System
----

namespace Riot

/-
  A channel, the messages of `isotp_send` that were not received
  yet, and whether the channel is still bound.
-/
structure IsotpRun where
  ch : Isotp
  sendFrames : Nat
  bound : Bool
deriving DecidableEq, Repr

/-
  The message of a timeout is late if it is received when the
  timer was set or removed again.
-/
inductive IsotpEvent where
  | rcv
      (env : IsotpEnv)
      (frame : CanFrame)
  | conf
      (env : IsotpEnv)
      (handle : Int)
  | rxTimeout
      (late : Bool)
  | txTimeout
      (env : IsotpEnv)
      (late : Bool)
  | send
      (env : IsotpEnv)
      (buf : List UInt8)
  | sendFrame
      (env : IsotpEnv)
  | release
deriving DecidableEq, Repr

def IsotpEvent.Possible
    (r : IsotpRun) : IsotpEvent → Prop
| .rxTimeout late => r.bound = true ∧ (late = false → r.ch.rxTimer ≠ none)
| .txTimeout _ late => r.bound = true ∧ (late = false → r.ch.txTimer ≠ none)
| .send _ buf => r.bound = true ∧ 0 < buf.length ∧ buf.length ≤ maxMsgLength
| .sendFrame _ => r.bound = true ∧ 0 < r.sendFrames
| _ => r.bound = true

/- The timer that expired is not armed any more. -/
def Isotp.rxExpired
    (s : Isotp) (late : Bool) : Isotp :=
  if late then s else { s with rxTimer := none }

def Isotp.txExpired
    (s : Isotp) (late : Bool) : Isotp :=
  if late then s else { s with txTimer := none }

def IsotpRun.exec
    (r : IsotpRun) : IsotpEvent → Option IsotpRun
| .rcv env frame => (isotpRcv env r.ch frame).map (fun s => { r with ch := s })
| .conf env handle =>
  (isotpTxConfirmation env r.ch handle).map (fun s => { r with ch := s })
| .rxTimeout late => some { r with ch := isotpRxTimeoutTask (r.ch.rxExpired late) }
| .txTimeout env late =>
  (isotpTxTimeoutTask env (r.ch.txExpired late)).map (fun s => { r with ch := s })
| .send env buf =>
  match isotpSend env r.ch buf with
  | (.len _, s) => some { r with ch := s, sendFrames := r.sendFrames + 1 }
  | (_, s) => some { r with ch := s }
| .sendFrame env =>
  (isotpSendSfFf env r.ch).map
    (fun s =>
      { r with ch := s, sendFrames := r.sendFrames - 1 })
| .release => some { r with ch := isotpRelease r.ch, bound := false }

def isotpSystem
    (opt : IsotpOptions) (fcOptions : IsotpFcOptions) :
    System IsotpRun IsotpEvent where
  Start := fun r => r = ⟨isotpBind opt fcOptions, 0, true⟩
  Enabled := fun r e => e.Possible r
  exec := IsotpRun.exec

----
-- Accounts of Snips
----

def placedSnip : Option IsotpSnip → List Nat
| none => []
| some snip => [snip.id]

/- The snips in place, released, and handed over. -/
def Isotp.account
    (s : Isotp) : List Nat :=
  placedSnip s.rx.snip ++ placedSnip s.tx.snip ++ s.released ++ s.handed.map IsotpSnip.id

/- Every snip that was allocated is there exactly once. -/
def Isotp.Accounted
    (s : Isotp) : Prop :=
  s.account.Perm (List.range s.nextSnip)

/-
  No snip is lost, released twice or used after its release, and
  none is left when the channel is released.
-/
def OwnershipSound
    (r : IsotpRun) : Prop :=
  r.ch.Accounted ∧ (r.bound = false → r.ch.rx.snip = none ∧ r.ch.tx.snip = none)

/- Nothing that the accounts depend on differs. -/
structure SameSnips
    (s s' : Isotp) : Prop where
  rx : s'.rx.snip = s.rx.snip
  tx : s'.tx.snip = s.tx.snip
  released : s'.released = s.released
  handed : s'.handed = s.handed
  next : s'.nextSnip = s.nextSnip

section

variable {s s' s'' : Isotp} {env : IsotpEnv} {frame : CanFrame}

theorem SameSnips.refl :
    SameSnips s s :=
  ⟨rfl, rfl, rfl, rfl, rfl⟩

theorem SameSnips.accounted
    (hSame : SameSnips s s') (h : s.Accounted) :
    s'.Accounted := by
  unfold Isotp.Accounted Isotp.account
  rw [hSame.rx, hSame.tx, hSame.released, hSame.handed, hSame.next]
  exact h

/- A snip moves from one place to another. -/
theorem Isotp.Accounted.moved
    (h : s.Accounted) (hCount : ∀ n, s'.account.count n = s.account.count n)
    (hNext : s'.nextSnip = s.nextSnip) :
    s'.Accounted := by
  unfold Isotp.Accounted
  rw [hNext]
  exact (List.perm_iff_count.mpr hCount).trans h

/- A new snip is put in place. -/
theorem Isotp.Accounted.added
    (h : s.Accounted)
    (hCount : ∀ n, s'.account.count n = s.account.count n + [s.nextSnip].count n)
    (hNext : s'.nextSnip = s.nextSnip + 1) :
    s'.Accounted := by
  unfold Isotp.Accounted
  rw [hNext, List.range_succ]
  refine (List.perm_iff_count.mpr ?_).trans (h.append_right [s.nextSnip])
  intro n
  rw [hCount, List.count_append]

theorem count_account
    (n : Nat) :
    s.account.count n = (placedSnip s.rx.snip).count n + (placedSnip s.tx.snip).count n +
        s.released.count n + (s.handed.map IsotpSnip.id).count n := by
  simp only [Isotp.account, List.count_append]

theorem count_released
    (snip : Option IsotpSnip) (n : Nat) :
    (s.pktbufRelease snip).released.count n = (placedSnip snip).count n + s.released.count n := by
  cases snip with
  | none => simp [Isotp.pktbufRelease, placedSnip]
  | some snip =>
    simp only [Isotp.pktbufRelease, placedSnip, List.count_cons, List.count_nil]
    omega

/- Releasing a snip changes nothing else. -/
theorem snipRelease_eq
    (snip : Option IsotpSnip) :
    s.pktbufRelease snip = { s with
        released := (s.pktbufRelease snip).released } := by
  cases snip with
  | none => rfl
  | some snip => rfl

@[simp]
theorem snipRelease_tx
    (snip : Option IsotpSnip) :
    (s.pktbufRelease snip).tx = s.tx := by
  rw [snipRelease_eq]

@[simp]
theorem snipRelease_handed
    (snip : Option IsotpSnip) :
    (s.pktbufRelease snip).handed = s.handed := by
  rw [snipRelease_eq]

@[simp]
theorem snipRelease_nextSnip
    (snip : Option IsotpSnip) :
    (s.pktbufRelease snip).nextSnip = s.nextSnip := by
  rw [snipRelease_eq]

----
-- What Handlers Do to the Accounts
----

theorem Isotp.Accounted.dispatchTx
    {report : IsotpReport} (h : s.Accounted) :
    (isotpDispatchTx env s report).Accounted := by
  refine h.moved ?_ ?_
  · intro n
    rw [count_account, count_account]
    unfold isotpDispatchTx
    rw [snipRelease_eq]
    dsimp only
    rw [count_released]
    simp only [placedSnip, List.count_nil]
    omega
  · unfold isotpDispatchTx
    rw [snipRelease_eq]

theorem Isotp.Accounted.dispatchRx
    {snip : IsotpSnip} (h : s.Accounted) (hSnip : s.rx.snip = some snip) :
    (isotpDispatchRx env s snip).Accounted := by
  unfold isotpDispatchRx
  split
  · exact h
  · split
    · refine h.moved ?_ rfl
      intro n
      rw [count_account, count_account, hSnip]
      simp only [Isotp.pktbufRelease, placedSnip, List.count_nil, List.count_cons]
      omega
    · refine h.moved ?_ rfl
      intro n
      rw [count_account, count_account, hSnip]
      simp only [placedSnip, List.count_nil, List.map_append,
        List.count_append, List.map_cons, List.map_nil]
      omega

theorem isotpSendFc_same
    (env : IsotpEnv) (s : Isotp) (status : UInt8) :
    SameSnips s (isotpSendFc env s status) := by
  unfold isotpSendFc
  dsimp only
  split
  · exact ⟨rfl, rfl, rfl, rfl, rfl⟩
  · exact ⟨rfl, rfl, rfl, rfl, rfl⟩

theorem Isotp.Accounted.rcvFc
    (h : s.Accounted) :
    (isotpRcvFc env s frame).Accounted := by
  unfold isotpRcvFc
  dsimp only
  split
  · exact h
  split
  · exact SameSnips.accounted ⟨rfl, rfl, rfl, rfl, rfl⟩ h
  split
  · exact SameSnips.accounted ⟨rfl, rfl, rfl, rfl, rfl⟩ h
  split
  · split
    · refine Isotp.Accounted.dispatchTx ?_
      exact SameSnips.accounted ⟨rfl, rfl, rfl, rfl, rfl⟩ h
    · exact SameSnips.accounted ⟨rfl, rfl, rfl, rfl, rfl⟩ h
  · refine Isotp.Accounted.dispatchTx ?_
    exact SameSnips.accounted ⟨rfl, rfl, rfl, rfl, rfl⟩ h

/- A new snip is put where no snip is in place. -/
theorem Isotp.Accounted.received
    {snip : IsotpSnip} (h : s.Accounted) (hFree : s.rx.snip = none)
    (hId : snip.id = s.nextSnip) (hRx : s'.rx.snip = some snip)
    (hTx : s'.tx.snip = s.tx.snip) (hReleased : s'.released = s.released)
    (hHanded : s'.handed = s.handed) (hNext : s'.nextSnip = s.nextSnip + 1) :
    s'.Accounted := by
  refine h.added ?_ hNext
  intro n
  rw [count_account, count_account, hRx, hTx, hReleased, hHanded, hFree]
  simp only [placedSnip, hId, List.count_nil]
  omega

theorem Isotp.Accounted.rcvSf
    (h : s.Accounted)
    (hSafe : ¬ frame.canDlc < (frame.byte s.opt.ae &&& 0x0f).toNat + (sfPciSz + s.opt.ae) →
        env.pktbufAdd = true → s.rx.snip = none) :
    (isotpRcvSf env s frame).Accounted := by
  unfold isotpRcvSf
  dsimp only
  split
  · exact SameSnips.accounted ⟨rfl, rfl, rfl, rfl, rfl⟩ h
  split
  · exact SameSnips.accounted ⟨rfl, rfl, rfl, rfl, rfl⟩ h
  · rename_i hLong hAdd
    refine Isotp.Accounted.dispatchRx ?_ rfl
    exact h.received (hSafe hLong (by simpa using hAdd)) rfl rfl
      rfl rfl rfl rfl

theorem isotpOverflow_same
    (env : IsotpEnv) (s : Isotp) :
    SameSnips s (isotpOverflow env s) := by
  unfold isotpOverflow
  split
  · exact .refl
  · exact isotpSendFc_same env s _

section

variable (h : s.Accounted)

include h

theorem Isotp.Accounted.rcvFf
    (hSafe : maxMsgLength <
          (frame.byte s.opt.ae &&& 0x0f).toNat <<< 8 + (frame.byte (s.opt.ae + 1)).toNat ∨
        env.pktbufAdd = false → s.rx.snip = none) :
    (isotpRcvFf env s frame).Accounted := by
  have hKept : s.rx.snip = none → (Isotp.pktbufRelease
          { s with rx := { s.rx with state := .idle } }
          s.rx.snip).Accounted := by
    intro hNone
    rw [hNone]
    exact SameSnips.accounted ⟨rfl, rfl, rfl, rfl, rfl⟩ h
  unfold isotpRcvFf
  dsimp only
  split
  · rename_i hLong
    exact (isotpOverflow_same env _).accounted (hKept (hSafe (Or.inl hLong)))
  split
  · rename_i hAdd
    exact (isotpOverflow_same env _).accounted (hKept (hSafe (Or.inr hAdd)))
  · rw [snipRelease_eq]
    have hNew : ∀ (snip : IsotpSnip) (s' : Isotp), snip.id = s.nextSnip → s'.rx.snip = some snip →
          s'.tx.snip = s.tx.snip → s'.released = (Isotp.pktbufRelease
              { s with rx := { s.rx with state := .idle } }
              s.rx.snip).released → s'.handed = s.handed → s'.nextSnip = s.nextSnip + 1 →
          s'.Accounted := by
      intro snip s' hId hRx hTx hReleased hHanded hNext
      refine h.added ?_ hNext
      intro n
      rw [count_account, count_account, hRx, hTx, hReleased, hHanded, count_released]
      simp only [placedSnip, hId]
      omega
    split
    · exact hNew _ _ rfl rfl rfl rfl rfl rfl
    · exact (isotpSendFc_same env _ _).accounted (hNew _ _ rfl rfl rfl rfl rfl rfl)

theorem Isotp.Accounted.rcvCf
    (hRcv : isotpRcvCf env s frame = some s') :
    s'.Accounted := by
  unfold isotpRcvCf at hRcv
  dsimp only at hRcv
  split at hRcv
  · cases hRcv
    exact h
  split at hRcv
  · cases hRcv
    refine h.moved ?_ ?_
    · intro n
      rw [count_account, count_account, snipRelease_eq]
      dsimp only
      rw [count_released]
      simp only [placedSnip, List.count_nil]
      omega
    · rw [snipRelease_eq]
  cases hSnip : s.rx.snip with
  | none =>
    rw [hSnip] at hRcv
    cases hRcv
  | some snip =>
    rw [hSnip] at hRcv
    dsimp only at hRcv
    have hStored : ∀ s' : Isotp, placedSnip s'.rx.snip = [snip.id] → s'.tx.snip = s.tx.snip →
          s'.released = s.released → s'.handed = s.handed → s'.nextSnip = s.nextSnip →
          s'.Accounted := by
      intro s' hRx hTx hReleased hHanded hNext
      refine h.moved ?_ hNext
      intro n
      rw [count_account, count_account, hRx, hTx, hReleased, hHanded, hSnip]
      rfl
    split at hRcv
    · cases hRcv
      exact Isotp.Accounted.dispatchRx (hStored _ rfl rfl rfl rfl rfl) rfl
    split at hRcv
    · cases hRcv
      exact hStored _ rfl rfl rfl rfl rfl
    split at hRcv
    · cases hRcv
      exact hStored _ rfl rfl rfl rfl rfl
    split at hRcv
    · cases hRcv
      exact hStored _ rfl rfl rfl rfl rfl
    · cases hRcv
      exact (isotpSendFc_same env _ _).accounted (hStored _ rfl rfl rfl rfl rfl)

theorem Isotp.Accounted.txSend :
    (isotpTxSend env s frame).Accounted := by
  unfold isotpTxSend
  dsimp only
  split
  · refine Isotp.Accounted.dispatchTx ?_
    exact SameSnips.accounted ⟨rfl, rfl, rfl, rfl, rfl⟩ h
  · exact SameSnips.accounted ⟨rfl, rfl, rfl, rfl, rfl⟩ h

theorem Isotp.Accounted.sendSfFf
    (hSend : isotpSendSfFf env s = some s') :
    s'.Accounted := by
  unfold isotpSendSfFf at hSend
  split at hSend
  · cases hSend
  dsimp only at hSend
  split at hSend
  · cases hSend
    refine Isotp.Accounted.txSend ?_
    exact SameSnips.accounted ⟨rfl, rfl, rfl, rfl, rfl⟩ h
  · cases hSend
    refine Isotp.Accounted.txSend ?_
    exact SameSnips.accounted ⟨rfl, rfl, rfl, rfl, rfl⟩ h

theorem Isotp.Accounted.txTimeoutTask
    (hTask : isotpTxTimeoutTask env s = some s') :
    s'.Accounted := by
  have hIdle : (isotpDispatchTx env { s with tx := { s.tx with state := .idle } }
        .txError).Accounted :=
    Isotp.Accounted.dispatchTx (SameSnips.accounted ⟨rfl, rfl, rfl, rfl, rfl⟩ h)
  unfold isotpTxTimeoutTask at hTask
  split at hTask
  · cases hTask
    exact hIdle
  · split at hTask
    · cases hTask
    · cases hTask
      refine Isotp.Accounted.txSend ?_
      exact SameSnips.accounted ⟨rfl, rfl, rfl, rfl, rfl⟩ h
  · cases hTask
    exact hIdle
  · cases hTask
    exact hIdle
  · cases hTask
    exact hIdle
  · cases hTask
    exact h

theorem Isotp.Accounted.txTxConf
    (hConf : isotpTxTxConf env s = some s') :
    s'.Accounted := by
  unfold isotpTxTxConf at hConf
  dsimp only at hConf
  split at hConf
  · cases hConf
    refine Isotp.Accounted.dispatchTx ?_
    exact SameSnips.accounted ⟨rfl, rfl, rfl, rfl, rfl⟩ h
  · cases hConf
    exact SameSnips.accounted ⟨rfl, rfl, rfl, rfl, rfl⟩ h
  · split at hConf
    · cases hConf
    split at hConf
    · cases hConf
      refine Isotp.Accounted.dispatchTx ?_
      exact SameSnips.accounted ⟨rfl, rfl, rfl, rfl, rfl⟩ h
    split at hConf
    · cases hConf
      exact SameSnips.accounted ⟨rfl, rfl, rfl, rfl, rfl⟩ h
    · cases hConf
      exact SameSnips.accounted ⟨rfl, rfl, rfl, rfl, rfl⟩ h
  · cases hConf
    exact SameSnips.accounted ⟨rfl, rfl, rfl, rfl, rfl⟩ h

end

theorem isotpRxTxConf_same
    (s : Isotp) :
    SameSnips s (isotpRxTxConf s) := by
  unfold isotpRxTxConf
  dsimp only
  split
  · exact ⟨rfl, rfl, rfl, rfl, rfl⟩
  · exact ⟨rfl, rfl, rfl, rfl, rfl⟩

/- The snip in place is released. -/
theorem Isotp.Accounted.rxReleased
    (h : s.Accounted) (hRx : s'.rx.snip = none) (hTx : s'.tx.snip = s.tx.snip)
    (hReleased : s'.released = (s.pktbufRelease s.rx.snip).released)
    (hHanded : s'.handed = s.handed) (hNext : s'.nextSnip = s.nextSnip) :
    s'.Accounted := by
  refine h.moved ?_ hNext
  intro n
  rw [count_account, count_account, hRx, hTx, hReleased, hHanded, count_released]
  simp only [placedSnip, List.count_nil]
  omega

theorem Isotp.Accounted.rxTimeoutTask
    (h : s.Accounted) :
    (isotpRxTimeoutTask s).Accounted := by
  have hReleased : Isotp.Accounted
        { s.pktbufRelease s.rx.snip with
          rx := { (s.pktbufRelease s.rx.snip).rx with
              state := .idle
              snip := none } } := by
    rw [snipRelease_eq]
    exact h.rxReleased rfl rfl rfl rfl rfl
  unfold isotpRxTimeoutTask
  split
  · exact hReleased
  · exact hReleased
  · exact h

theorem Isotp.Accounted.send
    {buf : List UInt8} (h : s.Accounted)
    (hSafe : s.tx.state = .idle → env.pktbufAdd = true → s.tx.snip = none) :
    (isotpSend env s buf).2.Accounted := by
  unfold isotpSend
  dsimp only
  split
  · exact h
  split
  · exact h
  · rename_i hIdle hAdd
    refine h.added ?_ rfl
    intro n
    rw [count_account, count_account, hSafe (by simpa using hIdle) (by simpa using hAdd)]
    simp only [Isotp.pktbufAdd, placedSnip, List.count_nil]
    omega

theorem Isotp.Accounted.release
    (h : s.Accounted) :
    (isotpRelease s).Accounted := by
  refine h.moved ?_ ?_
  · intro n
    rw [count_account, count_account]
    unfold isotpRelease
    dsimp only
    rw [count_released, count_released]
    simp only [snipRelease_tx, snipRelease_handed, placedSnip, List.count_nil]
    omega
  · unfold isotpRelease
    simp only [snipRelease_nextSnip]

end

----
-- Ownership of Snips
----

/- The frame is for this channel. -/
def Isotp.Accepts
    (s : Isotp) (frame : CanFrame) : Prop :=
  s.opt.extendAddr = true → frame.byte 0 = s.opt.rxExtAddress

def Isotp.pciType
    (s : Isotp) (frame : CanFrame) : UInt8 :=
  frame.byte s.opt.ae &&& 0xf0

/- A single frame holds the bytes that it announces. -/
def Isotp.HoldsSingle
    (s : Isotp) (frame : CanFrame) : Prop :=
  (frame.byte s.opt.ae &&& 0x0f).toNat + (sfPciSz + s.opt.ae) ≤ frame.canDlc

/- What an event has to meet for no snip to get lost. -/
def IsotpEvent.KeepsSnips
    (r : IsotpRun) : IsotpEvent → Prop
| .rcv env frame =>
  r.ch.Accepts frame → (r.ch.pciType frame = nPciSf → r.ch.HoldsSingle frame →
      env.pktbufAdd = true → r.ch.rx.snip = none) ∧
    (r.ch.pciType frame = nPciFf → env.pktbufAdd = false → r.ch.rx.snip = none)
| .send env _ => r.ch.tx.state = .idle → env.pktbufAdd = true → r.ch.tx.snip = none
| _ => True

/- The length in a first frame has twelve bits. -/
theorem ffLen_le
    (a b : UInt8) :
    (a &&& 0x0f).toNat <<< 8 + b.toNat ≤ maxMsgLength := by
  have hHigh : (a &&& 0x0f).toNat ≤ 15 := by
    rw [UInt8.toNat_and]
    exact Nat.and_le_right
  have hLow := b.toNat_lt
  rw [Nat.shiftLeft_eq]
  unfold maxMsgLength
  omega

theorem Isotp.Accounted.rcv
    {s s' : Isotp} {env : IsotpEnv} {frame : CanFrame} (h : s.Accounted)
    (hSafe : s.Accepts frame →
        (s.pciType frame = nPciSf → s.HoldsSingle frame → env.pktbufAdd = true → s.rx.snip = none) ∧
        (s.pciType frame = nPciFf → env.pktbufAdd = false → s.rx.snip = none))
    (hRcv : isotpRcv env s frame = some s') :
    s'.Accounted := by
  unfold isotpRcv at hRcv
  split at hRcv
  · cases hRcv
    exact h
  rename_i hMine
  have hAccepts : s.Accepts frame := by
    intro hExt
    by_contra hNe
    exact hMine ⟨hExt, hNe⟩
  rcases hSafe hAccepts with ⟨hSingle, hFirst⟩
  dsimp only at hRcv
  split at hRcv
  · cases hRcv
    exact h.rcvFc
  split at hRcv
  · rename_i hType
    cases hRcv
    refine h.rcvSf ?_
    intro hLong
    exact hSingle hType (Nat.le_of_not_lt hLong)
  split at hRcv
  · rename_i hType
    cases hRcv
    refine h.rcvFf ?_
    rintro (hLong | hAdd)
    · exact absurd (ffLen_le _ _) (Nat.not_le.mpr hLong)
    · exact hFirst hType hAdd
  split at hRcv
  · exact h.rcvCf hRcv
  · cases hRcv
    exact h

theorem Isotp.Accounted.confirmation
    {s s' : Isotp} {env : IsotpEnv} {handle : Int} (h : s.Accounted)
    (hConf : isotpTxConfirmation env s handle = some s') :
    s'.Accounted := by
  unfold isotpTxConfirmation at hConf
  split at hConf
  · exact h.txTxConf hConf
  split at hConf
  · cases hConf
    exact (isotpRxTxConf_same s).accounted h
  · cases hConf
    exact h

theorem OwnershipSound.exec
    {r r' : IsotpRun} {e : IsotpEvent} (h : OwnershipSound r)
    (hSafe : e.KeepsSnips r) (hPossible : e.Possible r)
    (hExec : r.exec e = some r') :
    OwnershipSound r' := by
  have hBound : r.bound = true := by
    cases e with
    | rcv env frame => exact hPossible
    | conf env handle => exact hPossible
    | rxTimeout late => exact hPossible.1
    | txTimeout env late => exact hPossible.1
    | send env buf => exact hPossible.1
    | sendFrame env => exact hPossible.1
    | release => exact hPossible
  have hKept : ∀ r' : IsotpRun, r'.ch.Accounted → r'.bound = r.bound → OwnershipSound r' := by
    intro r' hNew hSame
    refine ⟨hNew, ?_⟩
    intro hFalse
    rw [hSame, hBound] at hFalse
    cases hFalse
  have hCh := h.1
  cases e with
  | rcv env frame =>
    rcases Option.map_eq_some_iff.mp hExec with ⟨s', hRcv, rfl⟩
    exact hKept _ (hCh.rcv hSafe hRcv) rfl
  | conf env handle =>
    rcases Option.map_eq_some_iff.mp hExec with ⟨s', hConf, rfl⟩
    exact hKept _ (hCh.confirmation hConf) rfl
  | rxTimeout late =>
    cases hExec
    refine hKept _ (Isotp.Accounted.rxTimeoutTask ?_) rfl
    unfold Isotp.rxExpired
    split
    · exact hCh
    · exact SameSnips.accounted ⟨rfl, rfl, rfl, rfl, rfl⟩ hCh
  | txTimeout env late =>
    rcases Option.map_eq_some_iff.mp hExec with ⟨s', hTask, rfl⟩
    refine hKept _ (Isotp.Accounted.txTimeoutTask ?_ hTask) rfl
    unfold Isotp.txExpired
    split
    · exact hCh
    · exact SameSnips.accounted ⟨rfl, rfl, rfl, rfl, rfl⟩ hCh
  | send env buf =>
    have hNew : (isotpSend env r.ch buf).2.Accounted := hCh.send hSafe
    unfold IsotpRun.exec at hExec
    dsimp only at hExec
    split at hExec
    · rename_i hRet
      cases hExec
      rw [hRet] at hNew
      exact hKept _ hNew rfl
    · rename_i hRet
      cases hExec
      rw [hRet] at hNew
      exact hKept _ hNew rfl
  | sendFrame env =>
    rcases Option.map_eq_some_iff.mp hExec with ⟨s', hSend, rfl⟩
    exact hKept _ (hCh.sendSfFf hSend) rfl
  | release =>
    cases hExec
    exact ⟨hCh.release, fun _ => ⟨rfl, rfl⟩⟩

/- No snip is lost or released twice in a run of such events. -/
theorem ownershipSound_of_reachable
    {opt : IsotpOptions} {fcOptions : IsotpFcOptions} {r : IsotpRun}
    (hReach : (isotpSystem opt fcOptions).ReachableVia (fun r e => e.KeepsSnips r) r) :
    OwnershipSound r := by
  apply hReach.invariant (I := OwnershipSound)
  · rintro r rfl
    refine ⟨List.Perm.refl [], ?_⟩
    intro hFalse
    cases hFalse
  · intro r e r' h hSafe hPossible hExec
    exact h.exec hSafe hPossible hExec

----
-- The Timer of the Receiver
----

/- A receiver that waits will be woken up by its timer. -/
def Isotp.RxTimed
    (s : Isotp) : Prop :=
  s.rx.state = .waitCf ∨ s.rx.state = .sendingFc → s.rxTimer ≠ none

/- No confirmation comes while consecutive frames are due. -/
def IsotpEvent.KeepsTimer
    (r : IsotpRun) : IsotpEvent → Prop
| .conf _ handle =>
  r.ch.tx.txHandle ≠ handle → r.ch.rx.txHandle = handle → r.ch.rx.state ≠ .waitCf
| _ => True

/- The parts that decide about the timer of the receiver. -/
structure SameRx
    (s s' : Isotp) : Prop where
  opt : s'.opt = s.opt
  state : s'.rx.state = s.rx.state
  timer : s'.rxTimer = s.rxTimer

/- A channel outside listen mode, with the timer in order. -/
structure Isotp.Timed
    (s : Isotp) : Prop where
  listen : s.opt.listenMode = false
  timed : s.RxTimed

section

variable {s s' : Isotp} {env : IsotpEnv} {frame : CanFrame}

theorem SameRx.timed
    (hSame : SameRx s s') (h : s.Timed) :
    s'.Timed := by
  refine ⟨?_, ?_⟩
  · rw [hSame.opt]
    exact h.listen
  · unfold Isotp.RxTimed
    rw [hSame.state, hSame.timer]
    exact h.timed

theorem Isotp.Timed.same
    (h : s.Timed) (hOpt : s'.opt = s.opt) (hState : s'.rx.state = s.rx.state)
    (hTimer : s'.rxTimer = s.rxTimer) :
    s'.Timed :=
  SameRx.timed ⟨hOpt, hState, hTimer⟩ h

/- A receiver that does not wait needs no timer. -/
theorem Isotp.Timed.idle
    (h : s.Timed) (hOpt : s'.opt = s.opt) (hIdle : s'.rx.state = .idle) :
    s'.Timed := by
  refine ⟨?_, ?_⟩
  · rw [hOpt]
    exact h.listen
  · rintro (hWait | hWait)
    · rw [hIdle] at hWait
      cases hWait
    · rw [hIdle] at hWait
      cases hWait

/- A timer that was just set is armed. -/
theorem Isotp.Timed.armed
    {n : Nat} (h : s.Timed) (hOpt : s'.opt = s.opt) (hTimer : s'.rxTimer = some n) :
    s'.Timed := by
  refine ⟨?_, ?_⟩
  · rw [hOpt]
    exact h.listen
  · intro _
    rw [hTimer]
    intro hNone
    cases hNone

theorem isotpDispatchTx_sameRx
    (env : IsotpEnv) (s : Isotp) (report : IsotpReport) :
    SameRx s (isotpDispatchTx env s report) := by
  unfold isotpDispatchTx
  rw [snipRelease_eq]
  exact ⟨rfl, rfl, rfl⟩

theorem isotpDispatchRx_sameRx
    (env : IsotpEnv) (s : Isotp) (snip : IsotpSnip) :
    SameRx s (isotpDispatchRx env s snip) := by
  unfold isotpDispatchRx
  split
  · exact ⟨rfl, rfl, rfl⟩
  split
  · exact ⟨rfl, rfl, rfl⟩
  · exact ⟨rfl, rfl, rfl⟩

/- Flow control is sent, or the receiver gives up. -/
theorem isotpSendFc_timer
    (env : IsotpEnv) (s : Isotp) (status : UInt8) :
    (isotpSendFc env s status).opt = s.opt ∧ ((isotpSendFc env s status).rx.state = .idle ∨
        (isotpSendFc env s status).rxTimer = some canIsotpTimeoutNAr) := by
  unfold isotpSendFc
  dsimp only
  split
  · exact ⟨rfl, Or.inr rfl⟩
  · exact ⟨rfl, Or.inl rfl⟩

theorem Isotp.Timed.sendFc
    {status : UInt8} (h : s.Timed) (hOpt : s'.opt = s.opt) :
    (isotpSendFc env s' status).Timed := by
  rcases isotpSendFc_timer env s' status with ⟨hSame, hIdle | hArmed⟩
  · exact h.idle (hSame.trans hOpt) hIdle
  · exact h.armed (hSame.trans hOpt) hArmed

theorem isotpRcvFc_sameRx
    (env : IsotpEnv) (s : Isotp) (frame : CanFrame) :
    SameRx s (isotpRcvFc env s frame) := by
  have hDispatch : ∀ (s' : Isotp) (report : IsotpReport), SameRx s s' →
        SameRx s (isotpDispatchTx env s' report) := by
    intro s' report hSame
    rcases isotpDispatchTx_sameRx env s' report with ⟨hOpt, hState, hTimer⟩
    exact ⟨hOpt.trans hSame.opt, hState.trans hSame.state, hTimer.trans hSame.timer⟩
  unfold isotpRcvFc
  dsimp only
  split
  · exact ⟨rfl, rfl, rfl⟩
  split
  · exact ⟨rfl, rfl, rfl⟩
  split
  · exact ⟨rfl, rfl, rfl⟩
  split
  · split
    · exact hDispatch _ _ ⟨rfl, rfl, rfl⟩
    · exact ⟨rfl, rfl, rfl⟩
  · exact hDispatch _ _ ⟨rfl, rfl, rfl⟩

section

variable (h : s.Timed)

include h

theorem Isotp.Timed.rcvSf :
    (isotpRcvSf env s frame).Timed := by
  unfold isotpRcvSf
  dsimp only
  split
  · exact h.idle rfl rfl
  split
  · exact h.idle rfl rfl
  · refine (isotpDispatchRx_sameRx env _ _).timed ?_
    exact h.idle rfl rfl

theorem Isotp.Timed.rcvFf :
    (isotpRcvFf env s frame).Timed := by
  have hOverflow :
      ∀ s' : Isotp, s'.opt = s.opt → s'.rx.state = .idle → (isotpOverflow env s').Timed := by
    intro s' hOpt hIdle
    unfold isotpOverflow
    split
    · exact h.idle hOpt hIdle
    · exact h.sendFc hOpt
  unfold isotpRcvFf
  dsimp only
  rw [snipRelease_eq]
  split
  · exact hOverflow _ rfl rfl
  split
  · exact hOverflow _ rfl rfl
  split
  · rename_i hListen
    have hNot : s.opt.listenMode = true := hListen
    rw [h.listen] at hNot
    cases hNot
  · exact h.sendFc rfl

theorem Isotp.Timed.rcvCf
    (hRcv : isotpRcvCf env s frame = some s') :
    s'.Timed := by
  unfold isotpRcvCf at hRcv
  dsimp only at hRcv
  split at hRcv
  · cases hRcv
    exact h
  split at hRcv
  · cases hRcv
    rw [snipRelease_eq]
    exact h.idle rfl rfl
  split at hRcv
  · cases hRcv
  split at hRcv
  · cases hRcv
    refine (isotpDispatchRx_sameRx env _ _).timed ?_
    exact h.idle rfl rfl
  split at hRcv
  · rename_i hListen
    rw [h.listen] at hListen
    cases hListen
  split at hRcv
  · cases hRcv
    exact h.armed rfl rfl
  split at hRcv
  · cases hRcv
    exact h.armed rfl rfl
  · cases hRcv
    exact h.sendFc rfl

theorem Isotp.Timed.rcv
    (hRcv : isotpRcv env s frame = some s') :
    s'.Timed := by
  unfold isotpRcv at hRcv
  split at hRcv
  · cases hRcv
    exact h
  dsimp only at hRcv
  split at hRcv
  · cases hRcv
    exact (isotpRcvFc_sameRx env s frame).timed h
  split at hRcv
  · cases hRcv
    exact h.rcvSf
  split at hRcv
  · cases hRcv
    exact h.rcvFf
  split at hRcv
  · exact h.rcvCf hRcv
  · cases hRcv
    exact h

theorem Isotp.Timed.txSend :
    (isotpTxSend env s frame).Timed := by
  unfold isotpTxSend
  dsimp only
  split
  · refine (isotpDispatchTx_sameRx env _ _).timed ?_
    exact h.same rfl rfl rfl
  · exact h.same rfl rfl rfl

theorem Isotp.Timed.sendSfFf
    (hSend : isotpSendSfFf env s = some s') :
    s'.Timed := by
  unfold isotpSendSfFf at hSend
  split at hSend
  · cases hSend
  dsimp only at hSend
  split at hSend
  · cases hSend
    refine Isotp.Timed.txSend ?_
    exact h.same rfl rfl rfl
  · cases hSend
    refine Isotp.Timed.txSend ?_
    exact h.same rfl rfl rfl

theorem Isotp.Timed.txTimeoutTask
    (hTask : isotpTxTimeoutTask env s = some s') :
    s'.Timed := by
  have hIdle : (isotpDispatchTx env { s with tx := { s.tx with state := .idle } }
        .txError).Timed :=
    (isotpDispatchTx_sameRx env _ _).timed (h.same rfl rfl rfl)
  unfold isotpTxTimeoutTask at hTask
  split at hTask
  · cases hTask
    exact hIdle
  · split at hTask
    · cases hTask
    · cases hTask
      refine Isotp.Timed.txSend ?_
      exact h.same rfl rfl rfl
  · cases hTask
    exact hIdle
  · cases hTask
    exact hIdle
  · cases hTask
    exact hIdle
  · cases hTask
    exact h

theorem Isotp.Timed.txTxConf
    (hConf : isotpTxTxConf env s = some s') :
    s'.Timed := by
  unfold isotpTxTxConf at hConf
  dsimp only at hConf
  split at hConf
  · cases hConf
    refine (isotpDispatchTx_sameRx env _ _).timed ?_
    exact h.same rfl rfl rfl
  · cases hConf
    exact h.same rfl rfl rfl
  · split at hConf
    · cases hConf
    split at hConf
    · cases hConf
      refine (isotpDispatchTx_sameRx env _ _).timed ?_
      exact h.same rfl rfl rfl
    split at hConf
    · cases hConf
      exact h.same rfl rfl rfl
    · cases hConf
      exact h.same rfl rfl rfl
  · cases hConf
    exact h.same rfl rfl rfl

/- The receiver waits for frames again with its timer set. -/
theorem Isotp.Timed.rxTxConf
    (hSafe : s.rx.state ≠ .waitCf) :
    (isotpRxTxConf s).Timed := by
  unfold isotpRxTxConf
  dsimp only
  split
  · exact h.armed rfl rfl
  · rename_i hState
    refine ⟨h.listen, ?_⟩
    rintro (hWait | hWait)
    · exact absurd hWait hSafe
    · exact absurd hWait hState

theorem Isotp.Timed.rxTimeoutTask
    (late : Bool) :
    (isotpRxTimeoutTask (s.rxExpired late)).Timed := by
  have hOpt : (s.rxExpired late).opt = s.opt := by
    unfold Isotp.rxExpired
    split
    · rfl
    · rfl
  have hState : (s.rxExpired late).rx = s.rx := by
    unfold Isotp.rxExpired
    split
    · rfl
    · rfl
  unfold isotpRxTimeoutTask
  rw [snipRelease_eq]
  split
  · exact h.idle hOpt rfl
  · exact h.idle hOpt rfl
  · rename_i hNotFc hNotCf
    refine ⟨?_, ?_⟩
    · rw [hOpt]
      exact h.listen
    · rintro (hWait | hWait)
      · exact absurd hWait hNotCf
      · exact absurd hWait hNotFc

end

theorem isotpSend_sameRx
    (env : IsotpEnv) (s : Isotp) (buf : List UInt8) :
    SameRx s (isotpSend env s buf).2 := by
  unfold isotpSend
  dsimp only
  split
  · exact ⟨rfl, rfl, rfl⟩
  split
  · exact ⟨rfl, rfl, rfl⟩
  · exact ⟨rfl, rfl, rfl⟩

theorem Isotp.Timed.release
    (h : s.Timed) :
    (isotpRelease s).Timed := by
  refine h.idle ?_ rfl
  unfold isotpRelease
  dsimp only
  rw [snipRelease_eq, snipRelease_eq s.rx.snip]

end

theorem Isotp.Timed.exec
    {r r' : IsotpRun} {e : IsotpEvent} (h : r.ch.Timed) (hSafe : e.KeepsTimer r)
    (hExec : r.exec e = some r') :
    r'.ch.Timed := by
  cases e with
  | rcv env frame =>
    rcases Option.map_eq_some_iff.mp hExec with ⟨s', hRcv, rfl⟩
    exact h.rcv hRcv
  | conf env handle =>
    rcases Option.map_eq_some_iff.mp hExec with ⟨s', hConf, rfl⟩
    unfold isotpTxConfirmation at hConf
    split at hConf
    · exact h.txTxConf hConf
    split at hConf
    · rename_i hTx hRx
      cases hConf
      exact h.rxTxConf (hSafe hTx hRx)
    · cases hConf
      exact h
  | rxTimeout late =>
    cases hExec
    exact h.rxTimeoutTask late
  | txTimeout env late =>
    rcases Option.map_eq_some_iff.mp hExec with ⟨s', hTask, rfl⟩
    refine Isotp.Timed.txTimeoutTask ?_ hTask
    unfold Isotp.txExpired
    split
    · exact h
    · exact h.same rfl rfl rfl
  | send env buf =>
    have hNew := (isotpSend_sameRx env r.ch buf).timed h
    unfold IsotpRun.exec at hExec
    dsimp only at hExec
    split at hExec
    · rename_i hRet
      cases hExec
      rw [hRet] at hNew
      exact hNew
    · rename_i hRet
      cases hExec
      rw [hRet] at hNew
      exact hNew
  | sendFrame env =>
    rcases Option.map_eq_some_iff.mp hExec with ⟨s', hSend, rfl⟩
    exact h.sendSfFf hSend
  | release =>
    cases hExec
    exact h.release

/- The receiver never waits without its timer in such a run. -/
theorem rxTimed_of_reachable
    {opt : IsotpOptions} {fcOptions : IsotpFcOptions} {r : IsotpRun}
    (hListen : opt.listenMode = false)
    (hReach : (isotpSystem opt fcOptions).ReachableVia (fun r e => e.KeepsTimer r) r) :
    r.ch.RxTimed := by
  have hTimed : r.ch.Timed := by
    apply hReach.invariant (I := fun r => r.ch.Timed)
    · rintro r rfl
      refine ⟨hListen, ?_⟩
      rintro (hWait | hWait)
      · cases hWait
      · cases hWait
    · intro r e r' h hSafe _ hExec
      exact h.exec hSafe hExec
  exact hTimed.timed

----
-- Runs of One Channel
----

instance
    (r : IsotpRun) (e : IsotpEvent) :
    Decidable (e.Possible r) := by
  cases e <;> unfold IsotpEvent.Possible <;> infer_instance

instance
    (opt : IsotpOptions) (fcOptions : IsotpFcOptions) (r : IsotpRun) (e : IsotpEvent) :
    Decidable ((isotpSystem opt fcOptions).Enabled r e) :=
  inferInstanceAs (Decidable (e.Possible r))

instance
    (s : Isotp) (frame : CanFrame) :
    Decidable (s.Accepts frame) :=
  inferInstanceAs (Decidable (_ → _))

instance
    (s : Isotp) (frame : CanFrame) :
    Decidable (s.HoldsSingle frame) :=
  inferInstanceAs (Decidable (_ ≤ _))

instance
    (r : IsotpRun) (e : IsotpEvent) :
    Decidable (e.KeepsSnips r) := by
  cases e <;> unfold IsotpEvent.KeepsSnips <;> infer_instance

instance
    (r : IsotpRun) (e : IsotpEvent) :
    Decidable (e.KeepsTimer r) := by
  cases e <;> unfold IsotpEvent.KeepsTimer <;> infer_instance

def plainOptions : IsotpOptions where
  txId := 1
  rxId := 2
  listenMode := false
  extendAddr := false
  txPadding := false
  extAddress := 0
  txpadContent := 0xcc
  rxExtAddress := 0

/- Flow control is sent for every consecutive frame. -/
def oneByOne : IsotpFcOptions :=
  ⟨1, 0, 1⟩

def isotpStart : IsotpRun :=
  ⟨isotpBind plainOptions oneByOne, 0, true⟩

theorem isotpStart_start :
    (isotpSystem plainOptions oneByOne).Start isotpStart :=
  rfl

/- Every call succeeds, and frames get the given handle. -/
def IsotpEnv.good
    (handle : Int) : IsotpEnv :=
  ⟨true, handle, true, true⟩

def twentyBytes : CanFrame :=
  ⟨2, 8, [0x10, 20, 1, 2, 3, 4, 5, 6]⟩

def nextSeven : CanFrame :=
  ⟨2, 8, [0x21, 7, 8, 9, 10, 11, 12, 13]⟩

def oneByte : CanFrame :=
  ⟨2, 2, [0x01, 42, 0, 0, 0, 0, 0, 0]⟩

/- A first frame, a timeout, and then a single frame. -/
theorem ownershipSound_timeout :
    ∃ r : IsotpRun,
      (isotpSystem plainOptions oneByOne).ReachableVia
          (fun r e => e.KeepsSnips r) r ∧ r.ch.released = [0] ∧ OwnershipSound r := by
  exact System.exists_reachableVia
    [.rcv (.good 1) twentyBytes, .rxTimeout false, .rcv (.good 2) oneByte, .release]
    isotpStart_start (by decide +kernel) (fun _ => ownershipSound_of_reachable)

/- A single frame in the middle of a longer message. -/
theorem not_ownershipSound_singleFrame :
    ∃ r : IsotpRun, (isotpSystem plainOptions oneByOne).Reachable r ∧ ¬ OwnershipSound r := by
  have hRun :
      ((isotpSystem plainOptions oneByOne).runVia
          (fun _ _ => True) isotpStart
          [.rcv (.good 1) twentyBytes, .rcv (.good 2) oneByte]).any
        (fun r => decide (r.ch.account = [1] ∧ r.ch.nextSnip = 2)) = true := by
    decide +kernel
  rcases System.exists_reachableVia_of_runVia
    isotpStart_start hRun with
    ⟨r, _, hReach, hAccount, hNext⟩
  refine ⟨r, hReach, ?_⟩
  rintro ⟨hPerm, _⟩
  unfold Isotp.Accounted at hPerm
  rw [hAccount, hNext] at hPerm
  cases hPerm.length_eq

/- The first flow control frame is confirmed. -/
theorem rxTimed_firstBlock :
    ∃ r : IsotpRun,
      (isotpSystem plainOptions oneByOne).ReachableVia
          (fun r e => e.KeepsTimer r) r ∧ r.ch.rx.state = .waitCf ∧ r.ch.RxTimed := by
  exact System.exists_reachableVia [.rcv (.good 1) twentyBytes, .conf (.good 2) 1]
    isotpStart_start (by decide +kernel) (fun _ => rxTimed_of_reachable rfl)

/- The second flow control frame is confirmed. -/
theorem not_rxTimed_secondBlock :
    ∃ r : IsotpRun, (isotpSystem plainOptions oneByOne).Reachable r ∧ ¬ r.ch.RxTimed := by
  have hRun :
      ((isotpSystem plainOptions oneByOne).runVia
          (fun _ _ => True) isotpStart
          [.rcv (.good 1) twentyBytes, .conf (.good 2) 1,
            .rcv (.good 2) nextSeven, .conf (.good 3) 2]).any
        (fun r => decide (r.ch.rx.state = .waitCf ∧ r.ch.rxTimer = none)) = true := by
    decide +kernel
  rcases System.exists_reachableVia_of_runVia
    isotpStart_start hRun with
    ⟨r, _, hReach, hState, hTimer⟩
  refine ⟨r, hReach, ?_⟩
  intro hTimed
  exact hTimed (Or.inl hState) hTimer

end Riot
