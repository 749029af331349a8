import Riot.Timers.ZtimerSystem

/-
  Time on a clock: what the counter has counted, how far it
  lags behind the true time, and when timers are due.

  Key definitions include:
    * `ReadsAt`
    * `Punctual`

  Key theorems include:
    * `ReadsAt.now`
    * `ReadsAt.step`
    * `Punctual.update`
-/

----
-- Counters
----

namespace Riot

variable {n m : Nat}

/- A number less than a range away is found again. -/
theorem catchUp_ofNat
    (hLe : n ≤ m) (hLt : m < n + 2 ^ 32) :
    catchUp n (BitVec.ofNat 32 m) = m := by
  unfold catchUp
  rw [Counter.toNat_ofNat_sub hLe hLt]
  omega

@[simp]
theorem catchUp_self :
    catchUp n (BitVec.ofNat 32 n) = n := by
  unfold catchUp
  simp

/- The distance of two remainders. -/
theorem sub_mod_eq
    {p r k : Nat} (hPos : 0 < p) :
    k % p = if (r + k) % p < r % p then (r + k) % p + p - r % p else (r + k) % p - r % p := by
  have hAdd := Nat.add_mod r k p
  have hr := Nat.mod_lt r hPos
  have hk := Nat.mod_lt k hPos
  by_cases hLt : r % p + k % p < p
  · rw [Nat.mod_eq_of_lt hLt] at hAdd
    rw [if_neg (by omega)]
    omega
  · have hWrap : (r % p + k % p) % p = r % p + k % p - p := by
      rw [Nat.mod_eq_sub_mod (by omega), Nat.mod_eq_of_lt (by omega)]
    rw [if_pos (by omega)]
    omega

variable {cfg : ZtimerConfig}

/- The range of an extended counter. -/
theorem ZtimerConfig.maxValue_lt
    (hExt : cfg.extended = true) :
    cfg.maxValue.toNat < 2 ^ 32 - 1 := by
  unfold ZtimerConfig.extended at hExt
  simpa using (Bool.and_eq_true_iff.mp hExt).2

theorem ZtimerConfig.period_extended
    (hExt : cfg.extended = true) :
    cfg.period = cfg.maxValue.toNat + 1 := by
  unfold ZtimerConfig.period
  rw [if_pos hExt]

/- A counter of 32 bits shows the time. -/
theorem ZtimerConfig.opsNow_plain
    {time : Nat} (hExt : cfg.extended = false) :
    cfg.opsNow time = BitVec.ofNat 32 time := by
  unfold ZtimerConfig.opsNow ZtimerConfig.period
  rw [if_neg (by simp [hExt]), ← BitVec.toNat_inj, BitVec.toNat_ofNat, BitVec.toNat_ofNat]
  omega

/- What the counter has counted between two readings. -/
theorem addModulo_opsNow
    {r time : Nat} (hExt : cfg.extended = true) (hLe : r ≤ time) :
    addModulo (cfg.opsNow time) (cfg.opsNow r) cfg.maxValue =
      BitVec.ofNat 32 ((time - r) % cfg.period) := by
  have hMax := ZtimerConfig.maxValue_lt hExt
  have hPeriod := ZtimerConfig.period_extended hExt
  have hPos : 0 < cfg.period := by omega
  have hSub := sub_mod_eq (r := r) (k := time - r) hPos
  rw [Nat.add_sub_cancel' hLe] at hSub
  have hTime := Nat.mod_lt time hPos
  have hRead := Nat.mod_lt r hPos
  have hTime' : (cfg.opsNow time).toNat = time % cfg.period := by
    unfold ZtimerConfig.opsNow
    rw [BitVec.toNat_ofNat, Nat.mod_eq_of_lt (by omega)]
  have hRead' : (cfg.opsNow r).toNat = r % cfg.period := by
    unfold ZtimerConfig.opsNow
    rw [BitVec.toNat_ofNat, Nat.mod_eq_of_lt (by omega)]
  rw [← BitVec.toNat_inj, BitVec.toNat_ofNat, hSub]
  unfold addModulo
  by_cases hLt : time % cfg.period < r % cfg.period
  · have hLt' : cfg.opsNow time < cfg.opsNow r := by
      rw [BitVec.lt_def]
      omega
    have hRange : (cfg.maxValue + 1#32).toNat = cfg.period := by
      have hOne : (1#32).toNat = 1 := rfl
      rw [hPeriod, BitVec.toNat_add]
      omega
    rw [if_pos hLt', if_pos hLt, BitVec.toNat_sub, BitVec.toNat_add, hRange, hTime', hRead']
    omega
  · have hLt' : ¬ cfg.opsNow time < cfg.opsNow r := by
      rw [BitVec.lt_def]
      omega
    rw [if_neg hLt', if_neg hLt, BitVec.toNat_sub, hTime', hRead']
    omega

----
-- Reading the Clock
----

variable {N : Nat} {q q' : ZtimerQueue N}
variable {time reading r : Nat} {s s' : ZtimerState N} {op : ZtimerOp N}

/-
  The clock was last read at `r`, when it had counted
  `reading` ticks.  An extended clock may have missed some;
  any other clock is its counter.
-/
structure ReadsAt
    (cfg : ZtimerConfig) (q : ZtimerQueue N)
    (time reading r : Nat) : Prop where
  read_le : r ≤ time
  lag : reading ≤ r
  extended :
    cfg.extended = true → q.lowerLast = cfg.opsNow r ∧ q.checkpoint = BitVec.ofNat 32 reading
  plain : cfg.extended = false → reading = time ∧ r = time

theorem ReadsAt.congr
    (h : ReadsAt cfg q time reading r) (hLower : q'.lowerLast = q.lowerLast)
    (hCheck : q'.checkpoint = q.checkpoint) :
    ReadsAt cfg q' time reading r := by
  refine ⟨h.read_le, h.lag, ?_, h.plain⟩
  intro hExt
  rw [hLower, hCheck]
  exact h.extended hExt

/- What a read returns, and the clock after it. -/
theorem ReadsAt.now
    {t : Nat} (h : ReadsAt cfg q time reading r) (hLe : time ≤ t)
    (hGap : cfg.extended = false → t < time + 2 ^ 32) :
    ∃ w, q.now cfg t = BitVec.ofNat 32 w ∧ reading ≤ w ∧ w < reading + 2 ^ 32 ∧
        w + r ≤ t + reading ∧ ReadsAt cfg (q.read cfg t) t w t := by
  have hRead := h.read_le
  have hLag := h.lag
  unfold ZtimerQueue.now ZtimerQueue.read
  cases hExt : cfg.extended with
  | true =>
    rcases h.extended hExt with ⟨hLower, hCheck⟩
    have hMax := ZtimerConfig.maxValue_lt hExt
    have hPeriod := ZtimerConfig.period_extended hExt
    have hMod : (t - r) % cfg.period < cfg.period := Nat.mod_lt _ (by omega)
    have hModLe := Nat.mod_le (t - r) cfg.period
    have hNow : q.checkpoint + addModulo (cfg.opsNow t) q.lowerLast cfg.maxValue =
          BitVec.ofNat 32 (reading + (t - r) % cfg.period) := by
      rw [hCheck, hLower, addModulo_opsNow hExt (by omega), BitVec.ofNat_add]
    refine ⟨reading + (t - r) % cfg.period, ?_, by omega, by omega, by omega, ?_⟩
    · rw [if_pos rfl]
      exact hNow
    · rw [if_pos rfl]
      refine ⟨Nat.le_refl _, by omega, ?_, ?_⟩
      · intro _
        refine ⟨rfl, ?_⟩
        unfold ZtimerQueue.now
        rw [if_pos hExt]
        exact hNow
      · intro hPlain
        rw [hExt] at hPlain
        cases hPlain
  | false =>
    rcases h.plain hExt with ⟨rfl, rfl⟩
    refine ⟨t, ?_, hLe, hGap hExt, by omega, ?_⟩
    · rw [if_neg (by simp), ZtimerConfig.opsNow_plain hExt]
    · rw [if_neg (by simp)]
      refine ⟨Nat.le_refl _, Nat.le_refl _, ?_, fun _ => ⟨rfl, rfl⟩⟩
      intro hTrue
      rw [hExt] at hTrue
      cases hTrue

/- Time passes, and the clock is not read. -/
theorem ReadsAt.pass
    {t : Nat} (h : ReadsAt cfg q time reading r) (hLe : time ≤ t) :
    (cfg.extended = true → ReadsAt cfg q t reading r) ∧
      (cfg.extended = false → ReadsAt cfg q t t t) := by
  have hRead := h.read_le
  refine ⟨?_, ?_⟩
  · intro hExt
    refine ⟨by omega, h.lag, h.extended, ?_⟩
    intro hPlain
    rw [hExt] at hPlain
    cases hPlain
  · intro hExt
    refine ⟨Nat.le_refl _, Nat.le_refl _, ?_, fun _ => ⟨rfl, rfl⟩⟩
    intro hTrue
    rw [hExt] at hTrue
    cases hTrue

/- Only these fields say what the clock has counted. -/
structure SameReading
    (q q' : ZtimerQueue N) : Prop where
  lowerLast : q'.lowerLast = q.lowerLast
  checkpoint : q'.checkpoint = q.checkpoint

theorem SameReading.trans
    {q₁ q₂ q₃ : ZtimerQueue N} (h₁ : SameReading q₁ q₂) (h₂ : SameReading q₂ q₃) :
    SameReading q₁ q₃ :=
  ⟨h₂.lowerLast.trans h₁.lowerLast, h₂.checkpoint.trans h₁.checkpoint⟩

namespace ZtimerQueue

variable {t : Fin N} {val : BitVec 32} {o : Nat}

theorem armAt_sameReading :
    SameReading q (q.armAt cfg time o) := ⟨rfl, rfl⟩

theorem arm_sameReading :
    SameReading q (q.arm cfg time) := by
  unfold arm
  split
  · exact ⟨rfl, rfl⟩
  · split
    · exact ⟨rfl, rfl⟩
    · exact ⟨rfl, rfl⟩

theorem set_sameReading :
    SameReading (q.read cfg time) (q.set cfg time t val) := by
  unfold set
  split
  · exact ⟨rfl, rfl⟩
  · exact ⟨rfl, rfl⟩

/- The handler reads an extended clock. -/
theorem handler_sameReading
    {entry : Option (Fin N)} (hHandler : q.handler cfg time = some (q', entry)) :
    SameReading (q.read cfg time) q' := by
  rcases handler_cases hHandler with ⟨t, o, l, _, _, rfl, _⟩ | ⟨_, _, hCases⟩
  · exact ⟨rfl, rfl⟩
  · rcases hCases with ⟨t, o, l, _, _, rfl⟩ | ⟨_, rfl⟩
    · exact armAt_sameReading
    · exact arm_sameReading

/- The rest of the handler may read the clock. -/
theorem handlerNext_sameReading :
    SameReading q (q.handlerNext cfg time).1 ∨
      SameReading (q.read cfg time) (q.handlerNext cfg time).1 := by
  rcases handlerNext_cases cfg time q with ⟨t, l, _, hNext⟩ | ⟨t, l, _, hNext⟩ | hNext
  · rw [hNext]
    exact Or.inl ⟨rfl, rfl⟩
  · rw [hNext]
    exact Or.inr ⟨rfl, rfl⟩
  · rw [hNext]
    have hUpdate : SameReading (q.read cfg time) (q.update cfg time) := ⟨rfl, rfl⟩
    exact Or.inr (hUpdate.trans arm_sameReading)

end ZtimerQueue

/- A step reads the clock or does not. -/
theorem ZtimerStep.sameReading
    (hStep : ZtimerStep cfg s q op s' q') :
    SameReading q q' ∨ SameReading (q.read cfg op.time) q' := by
  cases hStep with
  | set _ => exact Or.inr ZtimerQueue.set_sameReading
  | remove _ _ _ =>
    rename_i counts _
    unfold ZtimerQueue.remove
    split
    · refine Or.inr (SameReading.trans ?_ ZtimerQueue.arm_sameReading)
      exact ⟨rfl, rfl⟩
    · exact Or.inl ⟨rfl, rfl⟩
  | now _ => exact Or.inr ⟨rfl, rfl⟩
  | handler _ hHandler _ =>
    have hSame := ZtimerQueue.handler_sameReading hHandler
    refine Or.inr (SameReading.trans ?_ hSame)
    unfold ZtimerQueue.read
    split
    · exact ⟨rfl, rfl⟩
    · exact ⟨rfl, rfl⟩
  | callbackReturns _ _ => exact ZtimerQueue.handlerNext_sameReading

/- The time and the reading of a state after a step. -/
theorem ZtimerStep.time_eq
    (hStep : ZtimerStep cfg s q op s' q') :
    s'.time = op.time ∧ s'.reading = s.nextReading cfg op.time s'.clock := by
  cases hStep with
  | set _ => exact ⟨rfl, rfl⟩
  | remove _ _ _ => exact ⟨rfl, rfl⟩
  | now _ => exact ⟨rfl, rfl⟩
  | handler _ _ _ => exact ⟨ZtimerState.afterHandler_time, by simp [ZtimerOp.time]⟩
  | callbackReturns _ _ => exact ⟨ZtimerState.afterHandler_time, by simp [ZtimerOp.time]⟩

/- What `list.offset` stands for after a step. -/
theorem ZtimerStep.base_eq
    (hStep : ZtimerStep cfg s q op s' q') :
    s'.base = s.nextBase cfg op.time s'.clock := by
  cases hStep with
  | set _ => rfl
  | remove _ _ _ => rfl
  | now _ => rfl
  | handler _ _ _ => simp [ZtimerOp.time]
  | callbackReturns _ _ => simp [ZtimerOp.time]

/-
  Every step keeps the account of the time; the lag of the
  clock does not shrink.
-/
theorem ReadsAt.step
    (op : ZtimerOp N) (h : ReadsAt cfg q s.time s.reading r)
    (hLe : s.time ≤ op.time)
    (hGap : cfg.extended = false → op.time < s.time + 2 ^ 32)
    (hClock : s'.clock.Refines cfg q') (hStep : ZtimerStep cfg s q op s' q') :
    ∃ r', ReadsAt cfg q' s'.time s'.reading r' ∧ s.reading ≤ s'.reading ∧
        s'.reading + r ≤ r' + s.reading ∧ s'.reading ≤ catchUp s.reading (q.now cfg op.time) ∧
        (cfg.extended = false ∨ SameReading (q.read cfg op.time) q' →
          q.now cfg op.time = BitVec.ofNat 32 s'.reading ∧ r' = op.time) := by
  rcases hStep.time_eq with ⟨hTime, hReading⟩
  rcases h.now hLe hGap with ⟨w, hNow, hMono, hLt, hLag, hRead⟩
  have hCatch : catchUp s.reading (q.now cfg op.time) = w := by
    rw [hNow, catchUp_ofNat hMono hLt]
  rw [hTime, hReading, hCatch]
  unfold ZtimerState.nextReading
  cases hExt : cfg.extended with
  | false =>
    have hw : catchUp s.reading (cfg.opsNow op.time) = w := by
      have hPlain : q.now cfg op.time = cfg.opsNow op.time := by
        unfold ZtimerQueue.now
        rw [if_neg (by simp [hExt])]
      rw [← hPlain, hCatch]
    rw [if_neg (by simp), hw]
    refine ⟨op.time, ?_, hMono, hLag, Nat.le_refl _, fun _ => ⟨hNow, rfl⟩⟩
    refine ⟨hRead.read_le, hRead.lag, ?_, hRead.plain⟩
    intro hTrue
    rw [hExt] at hTrue
    cases hTrue
  | true =>
    rw [if_pos rfl, hClock.checkpoint]
    by_cases hSame : SameReading (q.read cfg op.time) q'
    · have hCheck : q'.checkpoint = BitVec.ofNat 32 w :=
        hSame.checkpoint.trans (hRead.extended hExt).2
      rw [hCheck, catchUp_ofNat hMono hLt]
      exact ⟨op.time, hRead.congr hSame.lowerLast hSame.checkpoint, hMono,
        hLag, Nat.le_refl _, fun _ => ⟨hNow, rfl⟩⟩
    · have hUnread : SameReading q q' := hStep.sameReading.resolve_right hSame
      have hCheck : q'.checkpoint = BitVec.ofNat 32 s.reading :=
        hUnread.checkpoint.trans (h.extended hExt).2
      rw [hCheck, catchUp_self]
      refine ⟨r, ?_, Nat.le_refl _, by omega, hMono, ?_⟩
      · exact ((h.pass hLe).1 hExt).congr hUnread.lowerLast hUnread.checkpoint
      · rintro (hFalse | hRead')
        · cases hFalse
        · exact (hSame hRead').elim

end Riot
