import Riot.Timers.ZtimerTime

/-
  No timer fires early.

  Every timer of the list is at or behind the time for which
  it was set, as the clock counts, and the base of the list
  is not ahead of the clock.  Both clocks keep this while the
  handler triggers only timers that are due.
-/

----
-- Deadlines
----

namespace Riot

variable {N : Nat} {wait : BitVec 32 → Nat} {log : List (ZtimerEntry N)}
variable {timers : List (Fin N × Nat)} {b reading r : Nat} {t : Fin N}

/-
  No deadline is before the end of the wait, with the lag of
  the clock, `r - reading`, taken into account.
-/
def Punctual
    (wait : BitVec 32 → Nat) (log : List (ZtimerEntry N)) (timers : List (Fin N × Nat))
    (b reading r : Nat) : Prop :=
  ∀ x ∈ DeltaList.deadlines b timers, ∃ start was val,
      lastEntry x.1 log = some (.set x.1 start was val) ∧ start + wait val + reading ≤ x.2 + r

namespace Punctual

section

variable (h : Punctual wait log timers b reading r)

include h

/- A growing lag makes timers later. -/
theorem lag
    {reading' r' : Nat} (hLag : reading' + r ≤ r' + reading) :
    Punctual wait log timers b reading' r' := by
  intro x hx
  rcases h x hx with ⟨start, was, val, hLast, hLe⟩
  exact ⟨start, was, val, hLast, by omega⟩

/-
  Moving the base to the current time makes no timer due
  earlier, even if the counter has wrapped.
-/
theorem advance
    {w : Nat} (hLe : b ≤ w) :
    Punctual wait log (DeltaList.advance (BitVec.ofNat 32 w - BitVec.ofNat 32 b).toNat timers)
      w reading r := by
  have hDiff := Counter.toNat_ofNat_sub_le hLe
  generalize (BitVec.ofNat 32 w - BitVec.ofNat 32 b).toNat = d at *
  have hw : w = b + (w - b - d) + d := by omega
  intro x hx
  rw [hw, DeltaList.deadlines_advance, DeltaList.deadlines_shift] at hx
  rcases List.mem_map.mp hx with ⟨y, hy, rfl⟩
  rcases List.mem_map.mp hy with ⟨z, hz, rfl⟩
  rcases h z hz with ⟨start, was, val, hLast, hLe'⟩
  refine ⟨start, was, val, hLast, ?_⟩
  dsimp only
  omega

/- A timer is taken out, and its last entry changes. -/
theorem erase
    {e : ZtimerEntry N} (hNodup : (timers.map Prod.fst).Nodup)
    (hTimer : e.timer = t) :
    Punctual wait (e :: log) (DeltaList.erase t timers) b reading r := by
  intro x hx
  have hKey : x.1 ∈ (DeltaList.erase t timers).map Prod.fst := by
    have hMem := List.mem_map_of_mem (f := Prod.fst) hx
    rwa [DeltaList.deadlines_keys] at hMem
  rw [DeltaList.erase_keys] at hKey
  have hNe : e.timer ≠ x.1 := by
    rw [hTimer]
    rintro rfl
    exact hNodup.not_mem_erase hKey
  rw [DeltaList.deadlines_erase] at hx
  rcases h x (List.mem_of_mem_eraseP hx) with ⟨start, was, val, hLast, hLe⟩
  refine ⟨start, was, val, ?_, hLe⟩
  rw [lastEntry_cons_of_ne hNe]
  exact hLast

/- A timer is put in at the end of its wait or later. -/
theorem insert
    {v start was : Nat} {val : BitVec 32}
    (hLast : lastEntry t log = some (.set t start was val))
    (hLe : start + wait val + reading ≤ b + v + r) :
    Punctual wait log (DeltaList.insert t v timers) b reading r := by
  intro x hx
  rw [DeltaList.deadlines_insert] at hx
  rcases (List.mem_orderedInsert _).mp hx with rfl | hIn
  · exact ⟨start, was, val, hLast, hLe⟩
  · exact h x hIn

end

/- The first timer. -/
theorem head
    {o : Nat} (h : Punctual wait log ((t, o) :: timers) b reading r) :
    ∃ start was val,
      lastEntry t log = some (.set t start was val) ∧ start + wait val + reading ≤ b + o + r :=
  h (t, b + o) List.mem_cons_self

/- The first timer is taken out, and fires. -/
theorem tail
    {o time : Nat} (h : Punctual wait log ((t, o) :: timers) b reading r)
    (hNodup : (((t, o) :: timers).map Prod.fst).Nodup) :
    Punctual wait (.fired t time :: log) timers (b + o) reading r := by
  intro x hx
  have hKey : x.1 ∈ timers.map Prod.fst := by
    have hMem := List.mem_map_of_mem (f := Prod.fst) hx
    rwa [DeltaList.deadlines_keys] at hMem
  have hNe : (ZtimerEntry.fired t time).timer ≠ x.1 := by
    rintro rfl
    exact (List.nodup_cons.mp hNodup).1 hKey
  rcases h x (List.mem_cons_of_mem _ hx) with ⟨start, was, val, hLast, hLe⟩
  refine ⟨start, was, val, ?_, hLe⟩
  rw [lastEntry_cons_of_ne hNe]
  exact hLast

end Punctual

----
-- Invariant
----

variable {cfg : ZtimerConfig} {s s' : ZtimerState N}
variable {q q' : ZtimerQueue N} {time : Nat}

/- The waiting time of a set, less the adjustment. -/
def adjustedWait
    (cfg : ZtimerConfig) (val : BitVec 32) : Nat :=
  (adjusted cfg val).toNat

/-
  The clock was read at `r`, `list.offset` stands for `b`,
  and no timer is or was early.
-/
structure PunctualInv
    (cfg : ZtimerConfig) (s : ZtimerState N) (q : ZtimerQueue N)
    (b r : Nat) : Prop where
  reads : ReadsAt cfg q s.time s.reading r
  base : q.listOffset = BitVec.ofNat 32 b
  base_le : b ≤ s.reading
  timers : Punctual (adjustedWait cfg) s.log q.timers b s.reading r
  notEarly : NotEarly (adjustedWait cfg) s.log

/- The step is late enough, but not too late. -/
def InTime
    (cfg : ZtimerConfig) (s : ZtimerState N) (time : Nat) : Prop :=
  s.time ≤ time ∧ (cfg.extended = false → time < s.time + 2 ^ 32)

namespace PunctualInv

section

variable (h : PunctualInv cfg s q b r)

include h

/- Moving the base to the reading of the step. -/
theorem update_timers
    {reading' r' : Nat} (hNow : q.now cfg time = BitVec.ofNat 32 reading')
    (hMono : s.reading ≤ reading') (hLag : reading' + r ≤ r' + s.reading) :
    Punctual (adjustedWait cfg) s.log (q.update cfg time).timers reading' reading' r' := by
  have hLe := h.base_le
  have hAdvance := (h.timers.lag hLag).advance (w := reading') (by omega)
  rw [← hNow, ← h.base] at hAdvance
  exact hAdvance

/- Setting a timer. -/
theorem set
    {val : BitVec 32} (hIn : InTime cfg s time)
    (hNodup : (q.timers.map Prod.fst).Nodup) (hClock : s'.clock.Refines cfg q')
    (hStep : ZtimerStep cfg s q (.ztimerSet time t val) s' q') :
    ∃ r', PunctualInv cfg s' q' s'.reading r' := by
  have hSame : SameReading (q.read cfg time) q' := by
    cases hStep
    exact ZtimerQueue.set_sameReading
  rcases h.reads.step (.ztimerSet time t val) hIn.1
      hIn.2 hClock hStep with
    ⟨r', hReads, hMono, hLag, _, hRead⟩
  rcases hRead (Or.inr hSame) with ⟨hNow, hr⟩
  have hUpdate := h.update_timers hNow hMono hLag
  have hLog : s'.log = .set t time s'.reading val :: s.log := by
    cases hStep
    rfl
  have hTimers : q'.timers = DeltaList.insert t (adjusted cfg val).toNat
          (DeltaList.erase t (q.update cfg time).timers) := by
    cases hStep
    unfold ZtimerQueue.set
    split
    · rfl
    · rfl
  have hOffset : q'.listOffset = q.now cfg time := by
    cases hStep
    unfold ZtimerQueue.set
    split
    · rfl
    · rfl
  refine ⟨r', hReads, hOffset.trans hNow, Nat.le_refl _, ?_, ?_⟩
  · rw [hTimers, hLog]
    have hKeys : ((q.update cfg time).timers.map Prod.fst).Nodup := by
      rw [ZtimerQueue.update_keys]
      exact hNodup
    have hErase := hUpdate.erase (t := t) (e := .set t time s'.reading val) hKeys rfl
    apply hErase.insert lastEntry_cons_self
    have hTime : r' = time := hr
    unfold adjustedWait
    omega
  · rw [hLog]
    exact h.notEarly

/- Removing a timer that counts as set. -/
theorem removeSet
    {clock : ZtimerClock N} (hIn : InTime cfg s time)
    (hNodup : (q.timers.map Prod.fst).Nodup)
    (hStep : ZtimerStep cfg s q (.ztimerRemove time t)
        (s.after cfg time clock s.phase (.removed t :: s.log))
        (q.remove cfg time t true))
    (hClock : clock.Refines cfg (q.remove cfg time t true)) :
    ∃ r', PunctualInv cfg (s.after cfg time clock s.phase (.removed t :: s.log))
        (q.remove cfg time t true)
        (s.nextReading cfg time clock) r' := by
  have hEq := q.remove_true cfg time t
  have hSame : SameReading (q.read cfg time) (q.remove cfg time t true) := by
    rw [hEq]
    refine SameReading.trans ?_ ZtimerQueue.arm_sameReading
    exact ⟨rfl, rfl⟩
  rcases h.reads.step (.ztimerRemove time t) hIn.1
      hIn.2 hClock hStep with
    ⟨r', hReads, hMono, hLag, _, hRead⟩
  rcases hRead (Or.inr hSame) with ⟨hNow, _⟩
  have hUpdate := h.update_timers hNow hMono hLag
  have hKeys : ((q.update cfg time).timers.map Prod.fst).Nodup := by
    rw [ZtimerQueue.update_keys]
    exact hNodup
  refine ⟨r', hReads, ?_, Nat.le_refl _, ?_, h.notEarly⟩
  · rw [hEq, ZtimerQueue.arm_listOffset]
    exact hNow
  · rw [hEq, ZtimerQueue.arm_timers]
    exact hUpdate.erase (e := .removed t) hKeys rfl

/- A step that leaves the list and the base. -/
theorem keep
    {op : ZtimerOp N} (hIn : InTime cfg s op.time)
    (hClock : s'.clock.Refines cfg q') (hStep : ZtimerStep cfg s q op s' q')
    (hTimers : q'.timers = q.timers) (hOffset : q'.listOffset = q.listOffset)
    (hLog : s'.log = s.log ∨ ∃ t, s'.log = .removed t :: s.log ∧ t ∉ q.timers.map Prod.fst) :
    ∃ r', PunctualInv cfg s' q' b r' := by
  rcases h.reads.step _ hIn.1 hIn.2 hClock hStep with ⟨r', hReads, hMono, hLag, _, _⟩
  have hLe := h.base_le
  have hKeep := h.timers.lag hLag
  refine ⟨r', hReads, hOffset.trans h.base, by omega, ?_, ?_⟩
  · rw [hTimers]
    rcases hLog with hLog | ⟨t, hLog, hNot⟩
    · rw [hLog]
      exact hKeep
    · rw [hLog]
      intro x hx
      have hNe : (ZtimerEntry.removed t).timer ≠ x.1 := by
        rintro rfl
        have hMem := List.mem_map_of_mem (f := Prod.fst) hx
        rw [DeltaList.deadlines_keys] at hMem
        exact hNot hMem
      rw [lastEntry_cons_of_ne hNe]
      exact hKeep x hx
  · rcases hLog with hLog | ⟨t, hLog, _⟩
    · rw [hLog]
      exact h.notEarly
    · rw [hLog]
      exact h.notEarly

end

/- A timer that is due is taken out, and fires. -/
theorem fire
    {o r' : Nat} {l : List (Fin N × Nat)}
    (hReads : ReadsAt cfg q' s'.time s'.reading r')
    (hTimers : Punctual (adjustedWait cfg) s.log ((t, o) :: l) b s'.reading r')
    (hNodup : (((t, o) :: l).map Prod.fst).Nodup)
    (hNotEarly : NotEarly (adjustedWait cfg) s.log) (hDue : b + o ≤ s'.reading)
    (hList : q'.timers = l) (hOffset : q'.listOffset = BitVec.ofNat 32 (b + o))
    (hLog : s'.log = .fired t s'.time :: s.log) :
    PunctualInv cfg s' q' (b + o) r' := by
  refine ⟨hReads, hOffset, hDue, ?_, ?_⟩
  · rw [hList, hLog]
    exact hTimers.tail hNodup
  · rw [hLog]
    rcases hTimers.head with ⟨start, was, val, hLast, hLe⟩
    refine ⟨⟨start, was, val, hLast, ?_⟩, hNotEarly⟩
    have hRead := hReads.read_le
    omega

section

variable (h : PunctualInv cfg s q b r) (hIn : InTime cfg s time)
variable (hNodup : (q.timers.map Prod.fst).Nodup) (hClock : s'.clock.Refines cfg q')

include h hIn hNodup hClock

/- The handler triggers the first timer, which is due. -/
theorem trigger
    {o : Nat} {l : List (Fin N × Nat)}
    (hStep : ZtimerStep cfg s q (.ztimerHandler time) s' q')
    (hList : q.timers = (t, o) :: l) (hTimers : q'.timers = l)
    (hOffset : q'.listOffset = q.listOffset + BitVec.ofNat 32 o)
    (hLog : s'.log = .fired t time :: s.log) (hDue : b + o ≤ s'.reading) :
    ∃ r', PunctualInv cfg s' q' (b + o) r' := by
  rcases h.reads.step (.ztimerHandler time) hIn.1 hIn.2 hClock hStep with ⟨r', hReads, _, hLag, _⟩
  have hTime : s'.time = time := hStep.time_eq.1
  have hPunctual := h.timers.lag hLag
  rw [hList] at hPunctual hNodup
  refine ⟨r', fire hReads hPunctual hNodup h.notEarly hDue hTimers ?_ ?_⟩
  · rw [hOffset, h.base, BitVec.ofNat_add]
  · rw [hLog, hTime]

/- The handler goes on to the next callback or to its end. -/
theorem returns
    (hStep : ZtimerStep cfg s q (.callbackReturns time) s' q') :
    ∃ b' r', PunctualInv cfg s' q' b' r' ∧
        (s'.phase = .idle → b' = s'.reading ∧ q' = (q.update cfg time).arm cfg time) := by
  rcases h.reads.step (.callbackReturns time) hIn.1
      hIn.2 hClock hStep with
    ⟨r', hReads, hMono, hLag, _, hRead⟩
  have hLe := h.base_le
  have hTime : s'.time = time := hStep.time_eq.1
  have hKeys : ((q.update cfg time).timers.map Prod.fst).Nodup := by
    rw [ZtimerQueue.update_keys]
    exact hNodup
  cases hStep with
  | callbackReturns hPhase hRefines =>
    rcases ZtimerQueue.handlerNext_cases cfg time q with
      ⟨u, l, hList, hNext⟩ | ⟨u, l, hList, hNext⟩ | hNext
    · rw [hNext] at hReads hMono hLag hTime ⊢
      have hPunctual := h.timers.lag hLag
      rw [hList] at hPunctual hNodup
      refine ⟨b + 0, r', ?_, ?_⟩
      · refine fire hReads hPunctual hNodup h.notEarly (by omega) rfl h.base ?_
        rw [hTime]
        rfl
      · intro hIdle
        cases hIdle
    · rw [hNext] at hReads hMono hLag hTime hRead ⊢
      rcases hRead (Or.inr ⟨rfl, rfl⟩) with ⟨hNow, _⟩
      have hUpdate : Punctual (adjustedWait cfg) s.log (q.update cfg time).timers _ _ r' :=
        h.update_timers hNow hMono hLag
      rw [hList] at hUpdate hKeys
      have hFire :=
        fire (s := s) hReads hUpdate hKeys h.notEarly (Nat.le_refl _) rfl hNow (by rw [hTime]; rfl)
      refine ⟨_, r', hFire, ?_⟩
      intro hIdle
      cases hIdle
    · rw [hNext] at hReads hMono hLag hRead ⊢
      have hUpdated : SameReading (q.read cfg time) (q.update cfg time) := ⟨rfl, rfl⟩
      rcases hRead (Or.inr (hUpdated.trans ZtimerQueue.arm_sameReading)) with ⟨hNow, _⟩
      have hUpdate : Punctual (adjustedWait cfg) s.log (q.update cfg time).timers _ _ r' :=
        h.update_timers hNow hMono hLag
      refine ⟨_, r', ⟨hReads, ?_, Nat.le_refl _, ?_, h.notEarly⟩, fun _ => ⟨rfl, rfl⟩⟩
      · rw [ZtimerQueue.arm_listOffset]
        exact hNow
      · rw [ZtimerQueue.arm_timers]
        exact hUpdate

end

/- Every clock starts so. -/
theorem start
    (hStart : s.Start cfg) :
    PunctualInv cfg s (startQueue cfg) 0 0 := by
  refine ⟨⟨Nat.zero_le _, ?_, ?_, ?_⟩, rfl, Nat.zero_le _, ?_, ?_⟩
  · rw [hStart.reading]
  · intro _
    rw [hStart.reading]
    refine ⟨?_, rfl⟩
    unfold ZtimerConfig.opsNow
    simp [startQueue]
  · intro _
    rw [hStart.reading, hStart.time]
    exact ⟨rfl, rfl⟩
  · intro x hx
    cases hx
  · rw [hStart.log]
    trivial

end PunctualInv

end Riot
