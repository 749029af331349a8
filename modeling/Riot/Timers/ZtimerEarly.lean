import Riot.Timers.ZtimerPunctual

/-
  When timers fire early.

  On an extended clock the handler takes the head for due if
  it has 2^31 ticks or more left.  On a clock of 32 bits it
  does not look at the time at all; `ztimer_set` does not arm
  the alarm again when it moves the head behind another
  timer.  All other runs are on time.
-/

----
-- Extended Clocks
----

namespace Riot

variable {N : Nat} {cfg : ZtimerConfig} {s s' : ZtimerState N}
variable {q q' : ZtimerQueue N} {op : ZtimerOp N} {b r : Nat}

/-
  When the alarm goes off, the head has less than 2^31 ticks
  left.
-/
def HeadNear
    (cfg : ZtimerConfig)
    (s : ZtimerState N) : ZtimerOp N → Prop
| .ztimerHandler time =>
  match s.clock.listNext with
  | .ref head =>
    (s.clock.mem.offset head).toNat -
        ((ztimerNow cfg time s.clock).2 - s.clock.listOffset).toNat < 2 ^ 31
  | _ => True
| _ => True

instance
    (cfg : ZtimerConfig) (s : ZtimerState N) (op : ZtimerOp N) :
    Decidable (HeadNear cfg s op) :=
  match op with
  | .ztimerHandler _ => by
      unfold HeadNear
      dsimp only
      split <;> infer_instance
  | .ztimerSet .. => inferInstanceAs (Decidable True)
  | .ztimerRemove .. => inferInstanceAs (Decidable True)
  | .ztimerNow _ => inferInstanceAs (Decidable True)
  | .callbackReturns _ => inferInstanceAs (Decidable True)

/- The condition, on the list of timers. -/
theorem HeadNear.queue
    {time o : Nat} {t : Fin N} {l : List (Fin N × Nat)}
    (hNear : HeadNear cfg s (.ztimerHandler time))
    (hRefines : s.clock.Refines cfg q) (hList : q.timers = (t, o) :: l) :
    o < 2 ^ 32 ∧ o - (q.now cfg time - q.listOffset).toNat < 2 ^ 31 := by
  have hTimers := hRefines.timers
  rw [hList] at hTimers
  rcases hTimers.cons with ⟨hRef, hOffset, hLt, _, _⟩
  have hRef' : s.clock.listNext = .ref t := hRef
  unfold HeadNear at hNear
  rw [hRef'] at hNear
  dsimp only at hNear
  rw [hOffset, (ztimerNow_refines _ hRefines).2, hRefines.listOffset, BitVec.toNat_ofNat,
    Nat.mod_eq_of_lt hLt] at hNear
  exact ⟨hLt, hNear⟩

/- A head that is near and triggered is due. -/
theorem due_of_ticksLeft
    {o w : Nat} (hLe : b ≤ w) (hLt : o < 2 ^ 32)
    (hNear : o - (BitVec.ofNat 32 w - BitVec.ofNat 32 b).toNat < 2 ^ 31)
    (hLeft : ¬ 0 < (BitVec.ofNat 32 b + BitVec.ofNat 32 o - BitVec.ofNat 32 w).toInt) :
    b + o ≤ w := by
  have hElapsed := Counter.toNat_ofNat_sub_le hLe
  by_contra hNot
  apply hLeft
  have hDiff : (BitVec.ofNat 32 b + BitVec.ofNat 32 o -
          BitVec.ofNat 32 w).toNat = o - (BitVec.ofNat 32 w - BitVec.ofNat 32 b).toNat := by
    simp only [BitVec.toNat_sub, BitVec.toNat_add, BitVec.toNat_ofNat] at hElapsed hNear ⊢
    omega
  rw [BitVec.toInt_eq_toNat_of_lt (by omega), hDiff]
  omega

/- One step of an extended clock. -/
theorem PunctualInv.step_extended
    (hExt : cfg.extended = true) (h : PunctualInv cfg s q b r)
    (hRefines : s.clock.Refines cfg q) (hNear : HeadNear cfg s op)
    (hEnabled : op.Enabled s) (hClock : s'.clock.Refines cfg q')
    (hStep : ZtimerStep cfg s q op s' q') :
    ∃ b' r', PunctualInv cfg s' q' b' r' := by
  have hNodup := hRefines.timers.nodup
  have hIn : InTime cfg s op.time := by
    refine ⟨hEnabled.1, ?_⟩
    intro hPlain
    rw [hExt] at hPlain
    cases hPlain
  have hStep' := hStep
  cases hStep' with
  | set _ => exact ⟨_, h.set hIn hNodup hClock hStep⟩
  | remove hCounts hNe hRef =>
    rename_i time t counts clock
    cases counts with
    | true => exact ⟨_, h.removeSet hIn hNodup hStep hRef⟩
    | false =>
      refine ⟨b, h.keep hIn hClock hStep rfl rfl (Or.inr ⟨t, rfl, ?_⟩)⟩
      intro hMem
      cases hCounts hMem
  | now _ =>
    exact ⟨b, h.keep hIn hClock hStep ZtimerQueue.read_timers ZtimerQueue.read_listOffset
      (Or.inl rfl)⟩
  | handler hAlarm hHandler hRef =>
    rename_i time due entry clock
    rcases ZtimerQueue.handler_cases hHandler with ⟨t, o, l, hList, hLeft, hq, rfl⟩ |
      ⟨_, rfl, hCases⟩
    · rcases hNear.queue hRefines hList with ⟨hLt, hHead⟩
      rcases h.reads.step _ hIn.1 hIn.2 hClock hStep with ⟨_, _, hMono, _, _, hRead⟩
      have hSame := ZtimerQueue.handler_sameReading hHandler
      have hNow := (hRead (Or.inr ⟨hSame.lowerLast.trans ?_, hSame.checkpoint.trans ?_⟩)).1
      · have hNow' : q.now cfg time =
              BitVec.ofNat 32 (s.afterHandler cfg time due clock (some t)).reading := hNow
        refine ⟨_, h.trigger hIn hNodup hClock hStep hList ?_ ?_ rfl ?_⟩
        · rw [hq]
        · rw [hq]
        · have hBase := h.base_le
          have hLeft' := hLeft hExt
          unfold ZtimerQueue.ticksLeft at hLeft'
          have hAlarmNow : ({ q with alarm := none } :
                  ZtimerQueue N).now cfg time = q.now cfg time := rfl
          dsimp only at hLeft'
          rw [hAlarmNow, hNow', h.base] at hLeft'
          rw [hNow', h.base] at hHead
          exact due_of_ticksLeft (by omega) hLt hHead hLeft'
      · unfold ZtimerQueue.read ZtimerOp.time
        rw [if_pos hExt, if_pos hExt]
      · unfold ZtimerQueue.read ZtimerOp.time
        rw [if_pos hExt, if_pos hExt]
        rfl
    · rcases hCases with ⟨t, o, l, hList, _, rfl⟩ | ⟨hList, rfl⟩
      · refine ⟨b, h.keep hIn hClock hStep ?_ ?_ (Or.inl rfl)⟩
        · exact ZtimerQueue.read_timers
        · exact ZtimerQueue.read_listOffset
      · refine ⟨b, h.keep hIn hClock hStep ?_ ?_ (Or.inl rfl)⟩
        · rw [ZtimerQueue.arm_timers, ZtimerQueue.read_timers]
        · rw [ZtimerQueue.arm_listOffset, ZtimerQueue.read_listOffset]
  | callbackReturns hPhase hRef =>
    rcases h.returns hIn hNodup hClock hStep with ⟨b', r', hInv, _⟩
    exact ⟨b', r', hInv⟩

/- The wait is the value less the adjustment. -/
theorem adjustedWait_eq
    (val : BitVec 32) :
    adjustedWait cfg val = val.toNat - cfg.adjustSet.toNat := by
  have hLt := cfg.adjustSet.isLt
  have hWidth : (cfg.adjustSet.setWidth 32).toNat = cfg.adjustSet.toNat := by
    rw [BitVec.toNat_setWidth]
    omega
  unfold adjustedWait adjusted
  split
  · rename_i hLess
    rw [BitVec.toNat_sub_of_le (BitVec.le_of_lt hLess), hWidth]
  · rename_i hLess
    have hNat : ¬ _ < val.toNat := hLess
    have hZero : (0#32).toNat = 0 := rfl
    omega

/-
  On an extended clock no timer fires early, in every run in
  which the head is near when the alarm goes off.
-/
theorem notEarly_of_reachable_extended
    (cfg : ZtimerConfig) (hExt : cfg.extended = true) (s : ZtimerState N)
    (hReach : (ztimerSystem N cfg).ReachableVia (HeadNear cfg) s) :
    NotEarly (fun val => val.toNat - cfg.adjustSet.toNat)
      s.log := by
  have hInv : ∃ q, s.clock.Refines cfg q ∧ ∃ b r, PunctualInv cfg s q b r := by
    refine exists_refines_of_reachable (I := fun s q => ∃ b r, PunctualInv cfg s q b r) hReach ?_ ?_
    · intro s hStart
      exact ⟨0, 0, PunctualInv.start hStart⟩
    · rintro s q op s' q' hRefines ⟨b, r, h⟩ hNear hEnabled hClock hStep
      exact h.step_extended hExt hRefines hNear hEnabled hClock hStep
  rcases hInv with ⟨q, _, b, r, h⟩
  have hWait :
      adjustedWait cfg = fun val => val.toNat - cfg.adjustSet.toNat :=
    funext adjustedWait_eq
  rw [← hWait]
  exact h.notEarly

/- A timeout of more than half the range of the counter. -/
theorem notEarly_of_postponedRun :
    ∃ s : ZtimerState 1,
      (ztimerSystem 1 counter16).runVia (HeadNear counter16)
          (ztimerStart 1 counter16)
          [.ztimerSet 5 0 0x9000#32, .ztimerHandler 0x8004,
            .ztimerHandler 0x9003, .callbackReturns 0x9004] = some s ∧
        s.log = [.fired 0 0x9003, .set 0 5 5 0x9000#32] ∧
        NotEarly
          (fun val => val.toNat - counter16.adjustSet.toNat)
          s.log := by
  exact System.exists_run (ztimerStart_start counter16) (by decide +kernel)
    (notEarly_of_reachable_extended counter16 rfl)

/-
  A timeout of more than 2^31 ticks is over at the first
  interrupt.
-/
theorem not_notEarly_extended :
    ∃ s : ZtimerState 1, (ztimerSystem 1 counter16).Reachable s ∧
        ¬ NotEarly
          (fun val => val.toNat - counter16.adjustSet.toNat)
          s.log := by
  have hRun :
      ((ztimerSystem 1 counter16).runVia (fun _ _ => True)
          (ztimerStart 1 counter16)
          [.ztimerSet 0 0 0xC0000000#32, .ztimerHandler 0x7FFF]).any
        (fun s =>
          decide (s.log = [.fired 0 0x7FFF, .set 0 0 0 0xC0000000#32])) = true := by
    decide +kernel
  rcases System.exists_reachableVia_of_runVia
      (ztimerStart_start counter16) hRun with
    ⟨s, _, hReach, hLog⟩
  refine ⟨s, hReach, ?_⟩
  rw [hLog]
  rintro ⟨⟨start, was, val, hLast, hLe⟩, _⟩
  have hSet :
      lastEntry (0 : Fin 1) [.set 0 0 0 0xC0000000#32] = some (.set 0 0 0 0xC0000000#32) := rfl
  rw [hSet] at hLast
  cases hLast
  revert hLe
  decide

----
-- Clocks of 32 Bits
----

variable {time : Nat} {t : Fin N}

/-
  Steps are less than 2^32 ticks apart, and the handler is
  called when the alarm time is reached: nothing but the
  handler happens after it.
-/
def Timely
    (s : ZtimerState N) (op : ZtimerOp N) : Prop :=
  op.time < s.time + 2 ^ 32 ∧
    match op with
    | .ztimerHandler _ => True
    | .callbackReturns _ => True
    | _ => s.phase = .idle → ∀ due ∈ s.clock.alarm, op.time ≤ due

/-
  Outside of callbacks, the first timer is not set to a time
  behind the second one, unless both are due together.
-/
def KeepsAlarm
    (cfg : ZtimerConfig)
    (s : ZtimerState N) : ZtimerOp N → Prop
| .ztimerSet time t val =>
  s.phase = .idle →
    match ztimerUpdateHeadOffset cfg time s.clock with
    | some clock =>
      clock.listNext = .ref t →
        match clock.mem.next (.entry t) with
        | .ref u =>
          clock.mem.offset u = 0#32 ∨
            (adjusted cfg val).toNat < (clock.mem.offset t).toNat + (clock.mem.offset u).toNat
        | _ => True
    | none => True
| _ => True

instance
    (s : ZtimerState N) (op : ZtimerOp N) :
    Decidable (Timely s op) :=
  match op with
  | .ztimerSet .. => by unfold Timely; infer_instance
  | .ztimerRemove .. => by unfold Timely; infer_instance
  | .ztimerNow _ => by unfold Timely; infer_instance
  | .ztimerHandler _ => by unfold Timely; infer_instance
  | .callbackReturns _ => by unfold Timely; infer_instance

instance
    (cfg : ZtimerConfig) (s : ZtimerState N) (op : ZtimerOp N) :
    Decidable (KeepsAlarm cfg s op) :=
  match op with
  | .ztimerSet .. => by
      unfold KeepsAlarm
      dsimp only
      refine @instDecidableForall _ _ inferInstance ?_
      split
      · refine @instDecidableForall _ _ inferInstance ?_
        split <;> infer_instance
      · infer_instance
  | .ztimerRemove .. => inferInstanceAs (Decidable True)
  | .ztimerNow _ => inferInstanceAs (Decidable True)
  | .ztimerHandler _ => inferInstanceAs (Decidable True)
  | .callbackReturns _ => inferInstanceAs (Decidable True)

/- The condition, on the list of timers. -/
theorem KeepsAlarm.queue
    {val : BitVec 32} {u : Fin N} {o₁ o₂ : Nat} {l : List (Fin N × Nat)}
    (hKeeps : KeepsAlarm cfg s (.ztimerSet time t val))
    (hRefines : s.clock.Refines cfg q) (hIdle : s.phase = .idle)
    (hList : (q.update cfg time).timers = (t, o₁) :: (u, o₂) :: l) :
    o₂ = 0 ∨ (adjusted cfg val).toNat < o₁ + o₂ := by
  rcases ztimerUpdateHeadOffset_refines time hRefines with ⟨c, hUpdate, hRef⟩
  have hTimers := hRef.timers
  rw [hList] at hTimers
  rcases hTimers.cons with ⟨hHead, hOffset, hLt, hRest, hTail⟩
  have hHead' : c.listNext = .ref t := hHead
  have hNext : c.mem.next (.entry t) = .ref u := hRest.1
  have hSecond : (c.mem.offset u).toNat = o₂ := by
    rw [List.map_cons, DeltaMem.deltas_cons] at hTail
    have hEq := (List.cons.inj hTail).1
    exact congrArg Prod.snd hEq
  have hKeeps' := hKeeps hIdle
  rw [hUpdate] at hKeeps'
  have hBoth := hKeeps' hHead'
  rw [hNext] at hBoth
  dsimp only at hBoth
  rw [hOffset, hSecond, BitVec.toNat_ofNat, Nat.mod_eq_of_lt hLt] at hBoth
  rcases hBoth with hZero | hLess
  · left
    rw [hZero] at hSecond
    exact hSecond.symm
  · exact Or.inr hLess

/- While the handler does not run, the alarm fits the head. -/
def AlarmFits
    (s : ZtimerState N) (q : ZtimerQueue N) (b : Nat) : Prop :=
  s.phase = .idle →
    match q.timers with
    | [] => q.alarm = none
    | (_, o) :: _ => ∃ a, q.alarm = some a ∧ b + o ≤ max a s.time ∧ a < b + 2 ^ 32

/- The head after an insertion. -/
theorem insert_head
    {v : Nat} (l : List (Fin N × Nat)) :
    (∃ k, DeltaList.insert t v l = (t, v) :: k) ∨
      ∃ u o k, l.head? = some (u, o) ∧ ¬ v < o ∧ DeltaList.insert t v l = (u, o) :: k := by
  cases l with
  | nil => exact Or.inl ⟨[], rfl⟩
  | cons x l =>
    rcases x with ⟨u, o⟩
    by_cases hLt : v < o
    · refine Or.inl ⟨(u, o - v) :: l, ?_⟩
      rw [DeltaList.insert, if_pos hLt]
    · refine Or.inr ⟨u, o, DeltaList.insert t (v - o) l, rfl, hLt, ?_⟩
      rw [DeltaList.insert, if_neg hLt]

/- Moving the base keeps the head and its deadline. -/
theorem advance_head
    {o d : Nat} {l : List (Fin N × Nat)} :
    ∃ k, DeltaList.advance d ((t, o) :: l) = (t, o - d) :: k := by
  by_cases hLe : d ≤ o
  · refine ⟨l, ?_⟩
    rw [DeltaList.advance, if_pos hLe]
  · refine ⟨DeltaList.advance (d - o) l, ?_⟩
    rw [DeltaList.advance, if_neg hLe]
    have hZero : o - d = 0 := by omega
    rw [hZero]

/- The alarm distance of a clock of 32 bits. -/
theorem alarmDistance_eq
    {o : Nat} (hPlain : cfg.extended = false) :
    ZtimerQueue.alarmDistance cfg o = o := by
  unfold ZtimerQueue.alarmDistance
  rw [if_neg (by simp [hPlain])]

/- The alarm after it was armed for the head. -/
theorem AlarmFits.arm
    (hPlain : cfg.extended = false) (hTotal : DeltaList.total q.timers < 2 ^ 32) :
    AlarmFits s (q.arm cfg time) time := by
  intro _
  rw [ZtimerQueue.arm_timers]
  unfold ZtimerQueue.arm
  cases hList : q.timers with
  | nil =>
    dsimp only
    rw [if_neg (by simp [hPlain])]
  | cons x l =>
    rcases x with ⟨u, o⟩
    rw [hList, DeltaList.total_cons] at hTotal
    refine ⟨time + o, ?_, by omega, by omega⟩
    unfold ZtimerQueue.armAt
    dsimp only
    rw [alarmDistance_eq hPlain]

variable (s') in
/- Setting a timer while the handler does not run. -/
theorem AlarmFits.set
    {val : BitVec 32} (hPlain : cfg.extended = false) (hFits : AlarmFits s q b)
    (hRefines : s.clock.Refines cfg q) (hOffset : q.listOffset = BitVec.ofNat 32 b)
    (hBase : b ≤ s.time) (hLe : s.time ≤ time)
    (hNear : s.phase = .idle → q.timers ≠ [] → time < b + 2 ^ 32)
    (hKeeps : KeepsAlarm cfg s (.ztimerSet time t val))
    (hPhase : s'.phase = s.phase) (hTime : s'.time = time) :
    AlarmFits s' (q.set cfg time t val) time := by
  intro hIdle'
  have hIdle : s.phase = .idle := by rw [← hPhase, hIdle']
  have hLt := (adjusted cfg val).isLt
  have hNodup : ((q.update cfg time).timers.map Prod.fst).Nodup := by
    rw [ZtimerQueue.update_keys]
    exact hRefines.timers.nodup
  -- a new head is armed at once
  have hArmed : ∀ k, (q.setTimers cfg time t val).timers = (t, (adjusted cfg val).toNat) :: k →
          match (q.set cfg time t val).timers with
          | [] => (q.set cfg time t val).alarm = none
          | (_, o) :: _ =>
            ∃ a, (q.set cfg time t val).alarm = some a ∧ time + o ≤ max a s'.time ∧
                a < time + 2 ^ 32 := by
    intro k hHead
    have hSet : q.set cfg time t val =
          (q.setTimers cfg time t val).armAt cfg time (adjusted cfg val).toNat := by
      unfold ZtimerQueue.set
      rw [if_pos (by rw [hHead]; rfl)]
    have hTimers : (q.set cfg time t val).timers = (t, (adjusted cfg val).toNat) :: k := by
      rw [hSet]
      exact hHead
    rw [hTimers, hSet]
    refine ⟨time + (adjusted cfg val).toNat, ?_, by omega, by omega⟩
    unfold ZtimerQueue.armAt
    dsimp only
    rw [alarmDistance_eq hPlain]
  have hSetTimers : (q.setTimers cfg time t val).timers =
        DeltaList.insert t (adjusted cfg val).toNat
          (DeltaList.erase t (q.update cfg time).timers) := rfl
  have hFits' := hFits hIdle
  cases hList : q.timers with
  | nil =>
    apply hArmed []
    rw [hSetTimers]
    unfold ZtimerQueue.update
    dsimp only
    rw [hList]
    rfl
  | cons x l =>
    rcases x with ⟨t₀, o₀⟩
    rw [hList] at hFits'
    rcases hFits' with ⟨a, hAlarm, hHead, hRange⟩
    have hLess := hNear hIdle (by rw [hList]; simp)
    have hDiff : (q.now cfg time - q.listOffset).toNat = time - b := by
      unfold ZtimerQueue.now
      rw [if_neg (by simp [hPlain]), ZtimerConfig.opsNow_plain hPlain, hOffset]
      exact Counter.toNat_ofNat_sub (by omega) (by omega)
    rcases advance_head (t := t₀) (o := o₀) (d := time - b) (l := l) with ⟨k, hAdvance⟩
    have hUpdate : (q.update cfg time).timers = (t₀, o₀ - (time - b)) :: k := by
      unfold ZtimerQueue.update
      dsimp only
      rw [hDiff, hList, hAdvance]
    rcases insert_head (t := t) (v := (adjusted cfg val).toNat)
        (DeltaList.erase t (q.update cfg time).timers) with
      ⟨k', hNew⟩ | ⟨u, o, k', hFirst, hNot, hNew⟩
    · exact hArmed k' (hSetTimers.trans hNew)
    · -- the alarm stays; the head is due no later than it
      have hErase : u ∈ ((q.update cfg time).timers.map Prod.fst).erase t := by
        rw [← DeltaList.erase_keys]
        have hIn := List.mem_of_mem_head? hFirst
        exact List.mem_map_of_mem (f := Prod.fst) hIn
      have hNe : u ≠ t := by
        rintro rfl
        exact hNodup.not_mem_erase hErase
      have hSet : q.set cfg time t val = q.setTimers cfg time t val := by
        unfold ZtimerQueue.set
        rw [if_neg]
        rw [hSetTimers, hNew]
        simpa using hNe
      have hAlarm' : (q.setTimers cfg time t val).alarm = some a := by
        unfold ZtimerQueue.setTimers ZtimerQueue.update
        exact ZtimerQueue.read_alarm.trans hAlarm
      rw [hSet, hSetTimers, hNew]
      refine ⟨a, hAlarm', ?_, by omega⟩
      rw [hUpdate] at hFirst
      by_cases hSame : t₀ = t
      · subst hSame
        rw [DeltaList.erase, if_pos rfl] at hFirst
        cases k with
        | nil => cases hFirst
        | cons y k =>
          rcases y with ⟨u₂, o₂⟩
          cases hFirst
          have hBoth := hKeeps.queue hRefines hIdle hUpdate
          have hZero : o₂ = 0 := by
            rcases hBoth with hZero | hLess
            · exact hZero
            · omega
          omega
      · rw [DeltaList.erase, if_neg hSame] at hFirst
        cases hFirst
        omega

/- Time passes, and the list and the alarm stay. -/
theorem AlarmFits.keep
    (hFits : AlarmFits s q b) (hPhase : s'.phase = s.phase)
    (hTime : s.time ≤ s'.time) (hTimers : q'.timers = q.timers)
    (hAlarm : q'.alarm = q.alarm) :
    AlarmFits s' q' b := by
  intro hIdle
  rw [hPhase] at hIdle
  have hFits' := hFits hIdle
  rw [hTimers, hAlarm]
  cases hList : q.timers with
  | nil =>
    rw [hList] at hFits'
    exact hFits'
  | cons x l =>
    rw [hList] at hFits'
    rcases hFits' with ⟨a, hSome, hHead, hRange⟩
    exact ⟨a, hSome, by omega, hRange⟩

/- One step of a clock of 32 bits. -/
theorem PunctualInv.step_plain
    (hPlain : cfg.extended = false) (h : PunctualInv cfg s q b r)
    (hFits : AlarmFits s q b) (hRefines : s.clock.Refines cfg q)
    (hTimely : Timely s op) (hKeeps : KeepsAlarm cfg s op) (hEnabled : op.Enabled s)
    (hClock : s'.clock.Refines cfg q') (hStep : ZtimerStep cfg s q op s' q') :
    ∃ b' r', PunctualInv cfg s' q' b' r' ∧ AlarmFits s' q' b' := by
  have hNodup := hRefines.timers.nodup
  have hIn : InTime cfg s op.time := ⟨hEnabled.1, fun _ => hTimely.1⟩
  have hTotal := hClock.timers.total
  have hStep' := hStep
  cases hStep' with
  | set hRef =>
    rcases h.set hIn hNodup hClock hStep with ⟨r', hInv⟩
    refine ⟨_, r', hInv, ?_⟩
    rw [(hInv.reads.plain hPlain).1]
    have hBase := h.base_le
    rw [(h.reads.plain hPlain).1] at hBase
    refine AlarmFits.set _ hPlain hFits hRefines h.base hBase hEnabled.1 ?_ hKeeps rfl rfl
    intro hIdle hNe
    have hFits' := hFits hIdle
    cases hList : q.timers with
    | nil => exact (hNe hList).elim
    | cons x l =>
      rw [hList] at hFits'
      rcases hFits' with ⟨a, hSome, _, hRange⟩
      have hDue : a ∈ s.clock.alarm := by
        rw [hRefines.alarm]
        exact hSome
      exact Nat.lt_of_le_of_lt (hTimely.2 hIdle a hDue) hRange
  | remove hCounts hNe hRef =>
    rename_i time t counts clock
    cases counts with
    | true =>
      rcases h.removeSet hIn hNodup hStep hRef with ⟨r', hInv⟩
      have hEq := q.remove_true cfg time t
      have hReading : s.nextReading cfg time clock = time := (hInv.reads.plain hPlain).1
      refine ⟨s.nextReading cfg time clock, r', hInv, ?_⟩
      rw [hEq, ZtimerQueue.arm_timers] at hTotal
      rw [hEq, hReading]
      exact AlarmFits.arm hPlain hTotal
    | false =>
      have hNot : t ∉ q.timers.map Prod.fst := by
        intro hMem
        cases hCounts hMem
      rcases h.keep hIn hClock hStep rfl rfl (Or.inr ⟨t, rfl, hNot⟩) with ⟨r', hInv⟩
      exact ⟨b, r', hInv, hFits.keep rfl hEnabled.1 rfl rfl⟩
  | now hRef =>
    rcases h.keep hIn hClock hStep ZtimerQueue.read_timers
        ZtimerQueue.read_listOffset (Or.inl rfl) with
      ⟨r', hInv⟩
    exact ⟨b, r', hInv, hFits.keep rfl hEnabled.1 ZtimerQueue.read_timers ZtimerQueue.read_alarm⟩
  | handler hAlarm hHandler hRef =>
    rename_i time due entry clock
    rcases ZtimerQueue.handler_cases hHandler with ⟨t, o, l, hList, _, hq, rfl⟩ | ⟨hExt, _⟩
    · rcases h.reads.step _ hIn.1 hIn.2 hClock hStep with ⟨_, hReads, _⟩
      have hReading := (hReads.plain hPlain).1
      rcases hEnabled.2 with ⟨hIdle, due', hDue', hLe⟩
      have hFits' := hFits hIdle
      have hList' : q.timers = (t, o) :: l := hList
      rw [hList'] at hFits'
      rcases hFits' with ⟨a, hSome, hHead, _⟩
      rw [hRefines.alarm, hSome] at hDue'
      cases hDue'
      have hTime := hEnabled.1
      have hTime' : s.time ≤ time := hTime
      rcases h.trigger hIn hNodup hClock hStep hList (by rw [hq]) (by rw [hq]) rfl (by
            rw [hReading, ZtimerState.afterHandler_time]
            omega) with
        ⟨r', hInv⟩
      refine ⟨_, r', hInv, ?_⟩
      intro hIdle'
      cases hIdle'
    · rw [hPlain] at hExt
      cases hExt
  | callbackReturns hPhase hRef =>
    rename_i time due t clock
    rcases h.returns hIn hNodup hClock hStep with ⟨b', r', hInv, hEnd⟩
    refine ⟨b', r', hInv, ?_⟩
    intro hIdle
    rcases hEnd hIdle with ⟨hBase, hq⟩
    have hReading := (hInv.reads.plain hPlain).1
    rw [ZtimerState.afterHandler_time] at hReading
    rw [hq, ZtimerQueue.arm_timers] at hTotal
    rw [hBase, hReading, hq]
    exact AlarmFits.arm hPlain hTotal
      (s := s.afterHandler cfg time due clock (q.handlerNext cfg time).2) hIdle

/-
  On a clock of 32 bits no timer fires early, in every run
  in which the first timer is not set to a time behind the
  second one.
-/
theorem notEarly_of_reachable
    (cfg : ZtimerConfig) (hPlain : cfg.extended = false)
    (hAdjust : cfg.adjustSet = 0#16) (s : ZtimerState N)
    (hReach : (ztimerSystem N cfg).ReachableVia (fun s op => Timely s op ∧ KeepsAlarm cfg s op) s) :
    NotEarly BitVec.toNat s.log := by
  have hInv : ∃ q, s.clock.Refines cfg q ∧ ∃ b r, PunctualInv cfg s q b r ∧ AlarmFits s q b := by
    refine exists_refines_of_reachable
      (I := fun s q =>
        ∃ b r, PunctualInv cfg s q b r ∧ AlarmFits s q b)
      hReach ?_ ?_
    · intro s hStart
      refine ⟨0, 0, PunctualInv.start hStart, ?_⟩
      intro _
      unfold startQueue
      dsimp only
      rw [if_neg (by simp [hPlain])]
    · rintro s q op s' q' hRefines ⟨b, r, h, hFits⟩ ⟨hTimely, hKeeps⟩ hEnabled hClock hStep
      exact h.step_plain hPlain hFits hRefines hTimely hKeeps hEnabled hClock hStep
  rcases hInv with ⟨q, _, b, r, h, _⟩
  have hWait : adjustedWait cfg = BitVec.toNat := by
    funext val
    rw [adjustedWait_eq, hAdjust]
    rfl
  rw [← hWait]
  exact h.notEarly

/-
  The first timer is set again in front of the second one,
  and by its own callback.
-/
theorem notEarly_of_periodicRun :
    ∃ s : ZtimerState 2,
      (ztimerSystem 2 counter32).runVia
          (fun s op => Timely s op ∧ KeepsAlarm counter32 s op)
          (ztimerStart 2 counter32)
          [.ztimerSet 0 0 10#32, .ztimerSet 0 1 20#32, .ztimerSet 5 0 14#32, .ztimerHandler 19,
            .ztimerSet 19 0 14#32, .callbackReturns 21, .callbackReturns 22] = some s ∧ s.log =
          [.fired 1 21, .set 0 19 19 14#32, .fired 0 19, .set 0 5 5 14#32, .set 1 0 0 20#32,
            .set 0 0 0 10#32] ∧ NotEarly BitVec.toNat s.log := by
  exact System.exists_run (ztimerStart_start counter32) (by decide +kernel)
    (notEarly_of_reachable counter32 rfl rfl)

/-
  The first timer is set to a time behind the second one, and
  the old alarm fires the second one.
-/
theorem not_notEarly :
    ∃ s : ZtimerState 2,
      (ztimerSystem 2 counter32).ReachableVia
          (fun s op => Timely s op) s ∧ ¬ NotEarly BitVec.toNat s.log := by
  have hRun :
      ((ztimerSystem 2 counter32).runVia
          (fun s op => Timely s op)
          (ztimerStart 2 counter32)
          [.ztimerSet 0 0 10#32, .ztimerSet 0 1 20#32,
            .ztimerSet 5 0 100#32, .ztimerHandler 10]).any
        (fun s =>
          decide (s.log = [.fired 1 10, .set 0 5 5 100#32, .set 1 0 0 20#32, .set 0 0 0 10#32])) =
        true := by
    decide +kernel
  rcases System.exists_reachableVia_of_runVia
      (ztimerStart_start counter32) hRun with
    ⟨s, _, hReach, hLog⟩
  refine ⟨s, hReach, ?_⟩
  rw [hLog]
  rintro ⟨⟨start, was, val, hLast, hLe⟩, _⟩
  have hSet :
      lastEntry (1 : Fin 2)
          [.set 0 5 5 100#32, .set 1 0 0 20#32, .set 0 0 0 10#32] =
        some (.set 1 0 0 20#32) := rfl
  rw [hSet] at hLast
  cases hLast
  revert hLe
  decide

end Riot
