import Riot.Timers.ZtimerTime

/-
  Extended clocks track the time.

  While the handler does not run, an alarm is armed at most
  half of the counter's range after the last checkpoint.  If
  every alarm is handled within another half, the counter
  does not wrap between two readings.
-/

----
-- Specification
----

namespace Riot

variable {N : Nat}

/-
  The time is at most half of the range after the due time
  of the alarm, or of the alarm that is being handled.
-/
def HandledBy
    (cfg : ZtimerConfig) (s : ZtimerState N) (time : Nat) : Prop :=
  match s.phase with
  | .idle => ∀ due ∈ s.clock.alarm, time ≤ due + cfg.maxValue.toNat / 2
  | .callback _ due => time ≤ due + cfg.maxValue.toNat / 2

/- Alarms are handled within half of the range. -/
def HandledInTime
    (cfg : ZtimerConfig) (s : ZtimerState N) (op : ZtimerOp N) : Prop :=
  HandledBy cfg s op.time

instance
    (cfg : ZtimerConfig) (s : ZtimerState N) (op : ZtimerOp N) :
    Decidable (HandledInTime cfg s op) := by
  unfold HandledInTime HandledBy
  split <;> infer_instance

/-
  The last checkpoint is that of the time `s.reading`.  The
  alarm that follows it is armed unless it is just being
  handled, and the clock can be read until then.
-/
structure TracksTime
    (cfg : ZtimerConfig)
    (s : ZtimerState N) : Prop where
  reading_le : s.reading ≤ s.time
  checkpoint : s.clock.checkpoint = BitVec.ofNat 32 s.reading
  lowerLast : s.clock.lowerLast = cfg.opsNow s.reading
  alarm :
    s.phase = .idle → ∃ due, s.clock.alarm = some due ∧ due ≤ s.reading + cfg.maxValue.toNat / 2
  now :
    ∀ time, s.time ≤ time → HandledBy cfg s time →
      (ztimerNowExtend cfg time s.clock).2 = BitVec.ofNat 32 time

----
-- Invariant
----

variable {cfg : ZtimerConfig} {s s' : ZtimerState N}
variable {q q' : ZtimerQueue N} {op : ZtimerOp N} {time reading : Nat}

/- A read before the counter wraps returns the time. -/
theorem ReadsAt.now_exact
    {t : Nat} (hExt : cfg.extended = true) (h : ReadsAt cfg q time reading reading)
    (hLe : reading ≤ t) (hLt : t < reading + cfg.period) :
    q.now cfg t = BitVec.ofNat 32 t := by
  rcases h.extended hExt with ⟨hLower, hCheck⟩
  have hSum : reading + (t - reading) = t := by omega
  unfold ZtimerQueue.now
  rw [if_pos hExt, hCheck, hLower, addModulo_opsNow hExt hLe, Nat.mod_eq_of_lt (by omega),
    ← BitVec.ofNat_add, hSum]

/-
  The clock was last read when it had counted all ticks; the
  alarm that follows, or is being handled, is near.
-/
structure TrackInv
    (cfg : ZtimerConfig) (s : ZtimerState N)
    (q : ZtimerQueue N) : Prop where
  reads : ReadsAt cfg q s.time s.reading s.reading
  alarm :
    match s.phase with
    | .idle => ∃ due, q.alarm = some due ∧ due ≤ s.reading + ZtimerQueue.halfRange cfg
    | .callback _ due => due ≤ s.reading + ZtimerQueue.halfRange cfg

/- A step in time reads the clock before it wraps. -/
theorem TrackInv.lt_period
    (hExt : cfg.extended = true) (h : TrackInv cfg s q)
    (hRefines : s.clock.Refines cfg q) (hIn : HandledBy cfg s time) :
    time < s.reading + cfg.period := by
  have hPeriod := ZtimerConfig.period_extended hExt
  have hAlarm := h.alarm
  unfold HandledBy at hIn
  unfold ZtimerQueue.halfRange at hAlarm
  cases hPhase : s.phase with
  | idle =>
    rw [hPhase] at hAlarm hIn
    rcases hAlarm with ⟨due, hSome, hLe⟩
    have hDue : due ∈ s.clock.alarm := by
      rw [hRefines.alarm]
      exact hSome
    have hTime := hIn due hDue
    omega
  | callback t due =>
    rw [hPhase] at hAlarm hIn
    dsimp only at hAlarm hIn
    omega

/- The account of the time after a step. -/
theorem TrackInv.reads_step
    (hExt : cfg.extended = true) (h : TrackInv cfg s q) (hLe : s.time ≤ op.time)
    (hLt : op.time < s.reading + cfg.period) (hClock : s'.clock.Refines cfg q')
    (hStep : ZtimerStep cfg s q op s' q') :
    ReadsAt cfg q' s'.time s'.reading s'.reading ∧ s.reading ≤ s'.reading ∧
      (SameReading (q.read cfg op.time) q' → s'.reading = op.time) := by
  have hMax := ZtimerConfig.maxValue_lt hExt
  have hPeriod := ZtimerConfig.period_extended hExt
  have hRead := h.reads.read_le
  rcases hStep.time_eq with ⟨hTime, hReading⟩
  have hNow := h.reads.now_exact hExt (t := op.time) (by omega) hLt
  unfold ZtimerState.nextReading at hReading
  rw [if_pos hExt, hClock.checkpoint] at hReading
  by_cases hSame : SameReading (q.read cfg op.time) q'
  · have hLower : q'.lowerLast = cfg.opsNow op.time := by
      rw [hSame.lowerLast]
      unfold ZtimerQueue.read
      rw [if_pos hExt]
    have hCheck : q'.checkpoint = BitVec.ofNat 32 op.time := by
      rw [hSame.checkpoint, ← hNow]
      unfold ZtimerQueue.read
      rw [if_pos hExt]
    rw [hCheck, catchUp_ofNat (by omega) (by omega)] at hReading
    rw [hReading, hTime]
    refine ⟨⟨Nat.le_refl _, Nat.le_refl _, ?_, ?_⟩, by omega, fun _ => rfl⟩
    · intro _
      exact ⟨hLower, hCheck⟩
    · intro _
      exact ⟨rfl, rfl⟩
  · have hUnread : SameReading q q' := hStep.sameReading.resolve_right hSame
    rw [hUnread.checkpoint, (h.reads.extended hExt).2, catchUp_self] at hReading
    rw [hReading, hTime]
    refine ⟨?_, Nat.le_refl _, fun h => (hSame h).elim⟩
    exact ((h.reads.pass hLe).1 hExt).congr hUnread.lowerLast hUnread.checkpoint

/- Every alarm is armed at most half of the range ahead. -/
theorem alarmDistance_le
    {o : Nat} (hExt : cfg.extended = true) :
    ZtimerQueue.alarmDistance cfg o ≤ ZtimerQueue.halfRange cfg := by
  unfold ZtimerQueue.alarmDistance
  rw [if_pos hExt]
  exact Nat.min_le_right ..

variable (time) in
theorem ZtimerQueue.arm_alarm
    (hExt : cfg.extended = true) :
    ∃ due, (q.arm cfg time).alarm = some due ∧ due ≤ time + ZtimerQueue.halfRange cfg := by
  unfold ZtimerQueue.arm
  split
  · refine ⟨_, rfl, ?_⟩
    exact Nat.add_le_add_left (alarmDistance_le hExt) time
  · rw [if_pos hExt]
    exact ⟨_, rfl, Nat.le_refl _⟩

/- The alarm, or the one being handled, is kept. -/
theorem TrackInv.keep_alarm
    (h : TrackInv cfg s q) (hMono : s.reading ≤ s'.reading)
    (hPhase : s'.phase = s.phase) (hAlarm : q'.alarm = q.alarm) :
    match s'.phase with
    | .idle => ∃ due, q'.alarm = some due ∧ due ≤ s'.reading + ZtimerQueue.halfRange cfg
    | .callback _ due =>
      due ≤ s'.reading + ZtimerQueue.halfRange cfg := by
  have hOld := h.alarm
  rw [hPhase, hAlarm]
  cases hs : s.phase with
  | idle =>
    rw [hs] at hOld
    rcases hOld with ⟨due, hSome, hLe⟩
    exact ⟨due, hSome, by omega⟩
  | callback t due =>
    rw [hs] at hOld
    dsimp only at hOld ⊢
    omega

/- The alarm is armed anew. -/
theorem TrackInv.new_alarm
    {due : Nat} (h : TrackInv cfg s q) (hMono : s.reading ≤ s'.reading)
    (hPhase : s'.phase = s.phase) (hAlarm : q'.alarm = some due)
    (hDue : due ≤ s'.reading + ZtimerQueue.halfRange cfg) :
    match s'.phase with
    | .idle => ∃ due, q'.alarm = some due ∧ due ≤ s'.reading + ZtimerQueue.halfRange cfg
    | .callback _ due =>
      due ≤ s'.reading + ZtimerQueue.halfRange cfg := by
  have hOld := h.alarm
  rw [hPhase]
  cases hs : s.phase with
  | idle => exact ⟨due, hAlarm, hDue⟩
  | callback t due =>
    rw [hs] at hOld
    dsimp only at hOld ⊢
    omega

/- One step of an extended clock. -/
theorem TrackInv.step
    (hExt : cfg.extended = true) (h : TrackInv cfg s q)
    (hRefines : s.clock.Refines cfg q) (hIn : HandledInTime cfg s op)
    (hEnabled : op.Enabled s) (hClock : s'.clock.Refines cfg q')
    (hStep : ZtimerStep cfg s q op s' q') :
    TrackInv cfg s' q' := by
  have hLt := h.lt_period hExt hRefines hIn
  rcases h.reads_step hExt hEnabled.1 hLt hClock hStep with ⟨hReads, hMono, hReading⟩
  refine ⟨hReads, ?_⟩
  cases hStep with
  | set hRef =>
    rename_i time t val clock
    have hTime := hReading ZtimerQueue.set_sameReading
    by_cases hHead : (q.setTimers cfg time t val).timers.head?.map Prod.fst = some t
    · have hSet : (q.set cfg time t val).alarm =
            some (time + ZtimerQueue.alarmDistance cfg (adjusted cfg val).toNat) := by
        unfold ZtimerQueue.set
        rw [if_pos hHead]
        rfl
      have hLe := alarmDistance_le (o := (adjusted cfg val).toNat) hExt
      refine h.new_alarm hMono rfl hSet ?_
      rw [hTime]
      exact Nat.add_le_add_left hLe time
    · have hSet : (q.set cfg time t val).alarm = q.alarm := by
        unfold ZtimerQueue.set
        rw [if_neg hHead]
        exact ZtimerQueue.read_alarm
      exact h.keep_alarm hMono rfl hSet
  | remove hCounts hNe hRef =>
    rename_i time t counts clock
    cases counts with
    | true =>
      have hEq := q.remove_true cfg time t
      rw [hEq] at hReading ⊢
      have hUpdate : SameReading (q.read cfg time) ((q.update cfg time).del t) := ⟨rfl, rfl⟩
      have hTime := hReading (hUpdate.trans ZtimerQueue.arm_sameReading)
      rcases ZtimerQueue.arm_alarm time
          (q := (q.update cfg time).del t) hExt with
        ⟨due, hSome, hDue⟩
      refine h.new_alarm hMono rfl hSome ?_
      rw [hTime]
      exact hDue
    | false => exact h.keep_alarm hMono rfl rfl
  | now hRef => exact h.keep_alarm hMono rfl ZtimerQueue.read_alarm
  | handler hAlarm hHandler hRef =>
    rename_i time due entry clock
    have hSame := ZtimerQueue.handler_sameReading hHandler
    have hTime := hReading ⟨hSame.lowerLast.trans (by
          unfold ZtimerQueue.read ZtimerOp.time
          rw [if_pos hExt, if_pos hExt]),
        hSame.checkpoint.trans (by
          unfold ZtimerQueue.read ZtimerOp.time
          rw [if_pos hExt, if_pos hExt]
          rfl)⟩
    rcases ZtimerQueue.handler_cases hHandler with ⟨t, o, l, hList, _, hq, rfl⟩ | ⟨_, rfl, hCases⟩
    · rcases hEnabled.2 with ⟨_, due', hDue', hLe⟩
      rw [hRefines.alarm, hAlarm] at hDue'
      cases hDue'
      have hTime' : (s.afterHandler cfg time due clock (some t)).reading = time := hTime
      have hGoal : due ≤
            (s.afterHandler cfg time due clock (some t)).reading + ZtimerQueue.halfRange cfg := by
        rw [hTime']
        omega
      exact hGoal
    · rcases hCases with ⟨t, o, l, hList, _, rfl⟩ | ⟨hList, rfl⟩
      · refine ⟨_, rfl, ?_⟩
        rw [hTime]
        exact Nat.add_le_add_left (alarmDistance_le hExt) time
      · rw [hTime]
        exact ZtimerQueue.arm_alarm _ hExt
  | callbackReturns hPhase hRef =>
    rename_i time due t clock
    have hOld := h.alarm
    rw [hPhase] at hOld
    dsimp only at hOld
    rcases ZtimerQueue.handlerNext_cases cfg time q with
      ⟨u, l, hList, hNext⟩ | ⟨u, l, hList, hNext⟩ | hNext
    · rw [hNext] at hMono ⊢
      exact hOld.trans (Nat.add_le_add_right hMono _)
    · rw [hNext] at hMono ⊢
      exact hOld.trans (Nat.add_le_add_right hMono _)
    · rw [hNext] at hReading ⊢
      have hUpdate : SameReading (q.read cfg time) (q.update cfg time) := ⟨rfl, rfl⟩
      have hTime := hReading (hUpdate.trans ZtimerQueue.arm_sameReading)
      rw [hTime]
      exact ZtimerQueue.arm_alarm _ hExt

/- The clock as the code has it. -/
theorem TrackInv.tracksTime
    (hExt : cfg.extended = true) (h : TrackInv cfg s q)
    (hRefines : s.clock.Refines cfg q) :
    TracksTime cfg s := by
  rcases h.reads.extended hExt with ⟨hLower, hCheck⟩
  have hRead := h.reads.read_le
  refine ⟨hRead, hRefines.checkpoint.trans hCheck, hRefines.lowerLast.trans hLower, ?_, ?_⟩
  · intro hIdle
    have hAlarm := h.alarm
    rw [hIdle] at hAlarm
    rw [hRefines.alarm]
    exact hAlarm
  · intro time hLe hIn
    have hLt := h.lt_period hExt hRefines hIn
    rw [← h.reads.now_exact hExt (by omega) hLt]
    unfold ztimerNowExtend ZtimerQueue.now
    dsimp only
    rw [if_pos hExt, hRefines.checkpoint, hRefines.lowerLast]

----
-- Runs
----

/-
  In every run with alarms that are handled in time, an alarm
  is armed at most half of the range after the last
  checkpoint, and reading the clock returns the time.
-/
theorem tracksTime_of_reachable
    (cfg : ZtimerConfig) (hExt : cfg.extended = true) (s : ZtimerState N)
    (hReach : (ztimerSystem N cfg).ReachableVia (HandledInTime cfg) s) :
    TracksTime cfg s := by
  have hInv : ∃ q, s.clock.Refines cfg q ∧ TrackInv cfg s q := by
    refine exists_refines_of_reachable (I := fun s q => TrackInv cfg s q) hReach ?_ ?_
    · intro s hStart
      refine ⟨⟨?_, Nat.le_refl _, ?_, ?_⟩, ?_⟩
      · rw [hStart.reading, hStart.time]
      · intro _
        rw [hStart.reading]
        refine ⟨?_, rfl⟩
        unfold ZtimerConfig.opsNow
        simp [startQueue]
      · intro _
        rw [hStart.reading, hStart.time]
        exact ⟨rfl, rfl⟩
      · rw [hStart.phase, hStart.reading]
        refine ⟨ZtimerQueue.halfRange cfg, ?_, by omega⟩
        unfold startQueue
        dsimp only
        rw [if_pos hExt]
    · intro s q op s' q' hRefines h hIn hEnabled hClock hStep
      exact h.step hExt hRefines hIn hEnabled hClock hStep
  rcases hInv with ⟨q, hRefines, h⟩
  exact h.tracksTime hExt hRefines

/- The counter wraps, and a timer fires after that. -/
theorem tracksTime_of_wrapRun :
    ∃ s : ZtimerState 1,
      (ztimerSystem 1 counter16).runVia
          (HandledInTime counter16) (ztimerStart 1 counter16)
          [.ztimerHandler 0x9000, .ztimerSet 0x12000 0 0x20#32, .ztimerHandler 0x1201E,
            .callbackReturns 0x12020] = some s ∧ s.reading = 0x12020 ∧
        TracksTime counter16 s := by
  exact System.exists_run (ztimerStart_start counter16) (by decide +kernel)
    (tracksTime_of_reachable counter16 rfl)

end Riot
