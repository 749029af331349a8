import Riot.Timers.ZtimerEarly

/-
  The list of timers as a set of deadlines.

  The absolute deadline of a timer is the reading at its last
  set, plus the value.  In the list it is the base plus a sum
  of offsets, or the base itself once the base is past it.
-/

----
-- Deadlines of a Log
----

namespace Riot

variable {N : Nat}

/- The deadline of a timer that is set. -/
def target
    (cfg : ZtimerConfig) (log : List (ZtimerEntry N)) (t : Fin N) : Nat :=
  match lastEntry t log with
  | some (.set _ _ reading val) => reading + (adjusted cfg val).toNat
  | _ => 0

/- The place of the last entry of a timer in the log. -/
def lastIndex
    (t : Fin N) :
    List (ZtimerEntry N) → Nat
| [] => 0
| e :: log =>
  if e.timer = t then log.length + 1 else lastIndex t log

/- Earlier deadlines first, then those that were set first. -/
def Before
    (cfg : ZtimerConfig) (log : List (ZtimerEntry N)) (t u : Fin N) : Prop :=
  target cfg log t < target cfg log u ∨
    (target cfg log t = target cfg log u ∧ lastIndex t log < lastIndex u log)

/- The timer was set last, and neither removed nor fired. -/
def Pending
    (log : List (ZtimerEntry N)) (t : Fin N) : Prop :=
  ∃ time reading val, lastEntry t log = some (.set t time reading val)

variable {cfg : ZtimerConfig} {log : List (ZtimerEntry N)} {e : ZtimerEntry N} {t u : Fin N}

theorem target_cons_of_ne
    (hNe : e.timer ≠ t) :
    target cfg (e :: log) t = target cfg log t := by
  unfold target
  rw [lastEntry_cons_of_ne hNe]

theorem lastIndex_cons_of_ne
    (hNe : e.timer ≠ t) :
    lastIndex t (e :: log) = lastIndex t log := by
  rw [lastIndex, if_neg hNe]

theorem target_cons_set
    {time reading : Nat} {val : BitVec 32} :
    target cfg (.set t time reading val :: log) t = reading + (adjusted cfg val).toNat := by
  have hSelf := lastEntry_cons_self (e := .set t time reading val) (l := log)
  rw [ZtimerEntry.timer] at hSelf
  unfold target
  rw [hSelf]

theorem lastIndex_cons_self
    (hTimer : e.timer = t) :
    lastIndex t (e :: log) = log.length + 1 := by
  rw [lastIndex, if_pos hTimer]

theorem lastIndex_le_length :
    lastIndex t log ≤ log.length := by
  induction log with
  | nil => exact Nat.le_refl _
  | cons e log ih =>
    rw [lastIndex, List.length_cons]
    split
    · exact Nat.le_refl _
    · omega

theorem before_cons_of_ne
    (hT : e.timer ≠ t) (hU : e.timer ≠ u) :
    Before cfg (e :: log) t u ↔ Before cfg log t u := by
  unfold Before
  rw [target_cons_of_ne hT, target_cons_of_ne hU, lastIndex_cons_of_ne hT, lastIndex_cons_of_ne hU]

theorem pending_cons_of_ne
    (hNe : e.timer ≠ t) :
    Pending (e :: log) t ↔ Pending log t := by
  unfold Pending
  rw [lastEntry_cons_of_ne hNe]

----
-- Lists in Order
----

variable {timers : List (Fin N × Nat)} {b : Nat}

/-
  The list is in the order of the deadlines, and shows each
  one that is not before the base.
-/
structure Ordered
    (cfg : ZtimerConfig) (log : List (ZtimerEntry N)) (timers : List (Fin N × Nat))
    (b : Nat) : Prop where
  deadline : ∀ x ∈ DeltaList.deadlines b timers, x.2 = max (target cfg log x.1) b
  order : (timers.map Prod.fst).Pairwise (Before cfg log)

namespace Ordered

theorem key_of_mem
    {x : Fin N × Nat} (hIn : x ∈ DeltaList.deadlines b timers) :
    x.1 ∈ timers.map Prod.fst := by
  have hMem := List.mem_map_of_mem (f := Prod.fst) hIn
  rwa [DeltaList.deadlines_keys] at hMem

/- The base moves on. -/
theorem advance
    {w : Nat} (h : Ordered cfg log timers b) (hLe : b ≤ w) :
    Ordered cfg log (DeltaList.advance (w - b) timers) w := by
  constructor
  · intro x hx
    rw [DeltaList.deadlines_advance_to hLe] at hx
    rcases List.mem_map.mp hx with ⟨y, hy, rfl⟩
    have hOld := h.deadline y hy
    dsimp only
    omega
  · rw [DeltaList.advance_keys]
    exact h.order

/- Another timer's last entry changes. -/
theorem cons_of_notMem
    {e : ZtimerEntry N} (h : Ordered cfg log timers b)
    (hNot : e.timer ∉ timers.map Prod.fst) :
    Ordered cfg (e :: log) timers b := by
  have hNe : ∀ u ∈ timers.map Prod.fst, e.timer ≠ u := by
    rintro u hu rfl
    exact hNot hu
  constructor
  · intro x hx
    rw [target_cons_of_ne (hNe x.1 (key_of_mem hx))]
    exact h.deadline x hx
  · refine List.Pairwise.imp_of_mem ?_ h.order
    intro u v hu hv hBefore
    exact (before_cons_of_ne (hNe u hu) (hNe v hv)).mpr hBefore

/- A timer is taken out. -/
theorem erase
    (h : Ordered cfg log timers b) :
    Ordered cfg log (DeltaList.erase t timers) b := by
  constructor
  · intro x hx
    rw [DeltaList.deadlines_erase] at hx
    exact h.deadline x (List.mem_of_mem_eraseP hx)
  · rw [DeltaList.erase_keys]
    exact h.order.sublist List.erase_sublist

/- The first timer is taken out, and the base moves there. -/
theorem tail
    {o : Nat} (h : Ordered cfg log ((t, o) :: timers) b) :
    Ordered cfg log timers (b + o) := by
  constructor
  · intro x hx
    have hOld := h.deadline x (List.mem_cons_of_mem _ hx)
    have hBase := DeltaList.le_of_mem_deadlines hx
    omega
  · exact (List.pairwise_cons.mp h.order).2

/- The timer that was set last is put in. -/
theorem insert
    {v : Nat} (h : Ordered cfg log timers b) (hTarget : target cfg log t = b + v)
    (hLast : ∀ u ∈ timers.map Prod.fst, lastIndex u log < lastIndex t log) :
    Ordered cfg log (DeltaList.insert t v timers) b := by
  constructor
  · intro x hx
    rw [DeltaList.deadlines_insert] at hx
    rcases (List.mem_orderedInsert _).mp hx with rfl | hIn
    · dsimp only
      omega
    · exact h.deadline x hIn
  · have hKeys : (DeltaList.insert t v timers).map Prod.fst =
          (DeltaList.insertDeadline (t, b + v) (DeltaList.deadlines b timers)).map Prod.fst := by
      rw [← DeltaList.deadlines_insert, DeltaList.deadlines_keys]
    have hOrder : (DeltaList.deadlines b timers).Pairwise (fun x y => Before cfg log x.1 y.1) := by
      have hOld := h.order
      rw [← DeltaList.deadlines_keys (b := b), List.pairwise_map] at hOld
      exact hOld
    rw [hKeys, List.pairwise_map]
    apply DeltaList.insertDeadline_pairwise DeltaList.deadlines_sorted hOrder
    · -- those before it have the same deadline or a smaller one
      intro y hy hLe
      have hOld := h.deadline y hy
      have hIndex := hLast y.1 (key_of_mem hy)
      unfold Before
      dsimp only at hLe ⊢
      omega
    · intro y hy hLt
      have hOld := h.deadline y hy
      unfold Before
      dsimp only at hLt ⊢
      omega

end Ordered

end Riot

----
-- Specification
----

namespace Riot

variable {N : Nat}

/- The timers of the list with their offsets. -/
def ZtimerClock.timers
    (clock : ZtimerClock N) : List (Fin N × Nat) :=
  clock.mem.deltas (LinkMem.listNodes N clock.mem.next ())

namespace ZtimerState

/- The timers of the list with their deadlines. -/
def deadlines
    (s : ZtimerState N) : List (Fin N × Nat) :=
  DeltaList.deadlines s.base s.clock.timers

/- What reading the clock at a later time counts. -/
def readingAt
    (cfg : ZtimerConfig) (s : ZtimerState N) (time : Nat) : Nat :=
  catchUp s.reading (ztimerNow cfg time s.clock).2

/-
  The clock has counted less than 2^32 ticks since the last
  step, and since `list.offset` if there are timers.
-/
def Near
    (cfg : ZtimerConfig) (s : ZtimerState N) (time : Nat) : Prop :=
  (cfg.extended = false → time < s.time + 2 ^ 32) ∧
    (s.clock.listNext ≠ .null → s.readingAt cfg time < s.base + 2 ^ 32)

end ZtimerState

/-
  The steps for which the list stays in time: none is too far
  from the last one, and none lets the handler trigger a
  timer that is not due.
-/
def ListInTime
    (cfg : ZtimerConfig) (s : ZtimerState N) (op : ZtimerOp N) : Prop :=
  s.Near cfg op.time ∧ (cfg.extended = true → HeadNear cfg s op) ∧
    (cfg.extended = false → KeepsAlarm cfg s op)

instance
    (cfg : ZtimerConfig) (s : ZtimerState N) (op : ZtimerOp N) :
    Decidable (ListInTime cfg s op) := by
  unfold ListInTime ZtimerState.Near
  infer_instance

/- The timer that a call is about. -/
def ZtimerOp.callOn : ZtimerOp N → Option (Fin N)
| .ztimerSet _ t _ => some t
| .ztimerRemove _ t => some t
| _ => none

/-
  The list refines the set of deadlines: it has the timers
  that are set, in order, with their deadlines, and no sum
  exceeds the range.  Moving the base keeps deadlines in the
  future and makes the others the current time; calls change
  no other deadline that is in the future.
-/
structure RefinesDeadlines
    (cfg : ZtimerConfig)
    (s : ZtimerState N) : Prop where
  list : HoldsTimers cfg s.clock.mem s.clock.last s.clock.pmBlocked s.clock.timers
  pending : ∀ t, t ∈ s.deadlines.map Prod.fst ↔ Pending s.log t
  deadline : ∀ x ∈ s.deadlines, x.2 = max (target cfg s.log x.1) s.base
  order : (s.deadlines.map Prod.fst).Pairwise (Before cfg s.log)
  update :
    ∀ time, s.time ≤ time → s.Near cfg time → ∃ clock,
        ztimerUpdateHeadOffset cfg time s.clock = some clock ∧
          clock.listOffset = BitVec.ofNat 32 (s.readingAt cfg time) ∧
          DeltaList.deadlines (s.readingAt cfg time)
              clock.timers =
            s.deadlines.map
              (fun x =>
                (x.1, max x.2 (s.readingAt cfg time)))
  others :
    ∀ op s' t, ListInTime cfg s op → op.Enabled s →
      op.exec cfg s = some s' → op.callOn = some t → ∀ x ∈ s.deadlines, x.1 ≠ t →
        x ∈ s'.deadlines ∨ (x.2 ≤ s'.reading ∧ (x.1, s'.reading) ∈ s'.deadlines)

----
-- Invariant
----

variable {cfg : ZtimerConfig} {s s' : ZtimerState N}
variable {q q' : ZtimerQueue N} {op : ZtimerOp N} {time : Nat} {t : Fin N}

/- The list of a clock is the one that it refines. -/
theorem ZtimerClock.Refines.timers_eq
    {clock : ZtimerClock N} (h : clock.Refines cfg q) :
    clock.timers = q.timers := by
  have hNodes : LinkMem.listNodes N clock.mem.next () = q.timers.map Prod.fst :=
    LinkMem.IsList.listNodes_eq ⟨h.timers.nodup, h.timers.holds⟩ h.timers.length_le
  unfold ZtimerClock.timers
  rw [hNodes]
  exact h.timers.deltas

/-
  The list shows the deadlines from the base on, which is not
  ahead of the clock.
-/
structure DeadlineInv
    (cfg : ZtimerConfig) (s : ZtimerState N)
    (q : ZtimerQueue N) : Prop where
  reads : ∃ r, ReadsAt cfg q s.time s.reading r
  base : q.listOffset = BitVec.ofNat 32 s.base
  base_le : s.base ≤ s.reading
  pending : ∀ t, t ∈ q.timers.map Prod.fst ↔ Pending s.log t
  ordered : Ordered cfg s.log q.timers s.base
  alarm : cfg.extended = false → AlarmFits s q s.base

/- An order on no timers. -/
theorem Ordered.nil
    {log : List (ZtimerEntry N)} {b : Nat} :
    Ordered cfg log [] b := by
  constructor
  · intro x hx
    cases hx
  · exact List.Pairwise.nil

namespace DeadlineInv

variable (op) in
/- What a step that is near reads. -/
theorem reads_step
    (h : DeadlineInv cfg s q) (hRefines : s.clock.Refines cfg q)
    (hLe : s.time ≤ op.time) (hNear : s.Near cfg op.time)
    (hClock : s'.clock.Refines cfg q') (hStep : ZtimerStep cfg s q op s' q') :
    (∃ r, ReadsAt cfg q' s'.time s'.reading r) ∧ s.reading ≤ s'.reading ∧
      (q.timers ≠ [] → s'.reading < s.base + 2 ^ 32) ∧ (cfg.extended = false ∨
          SameReading (q.read cfg op.time) q' →
        q.now cfg op.time = BitVec.ofNat 32 s'.reading) := by
  rcases h.reads with ⟨r, hReads⟩
  rcases hReads.step _ hLe hNear.1 hClock hStep with ⟨r', hReads', hMono, _, hAt, hRead⟩
  refine ⟨⟨r', hReads'⟩, hMono, ?_, fun h => (hRead h).1⟩
  intro hNe
  have hNext : s.clock.listNext ≠ .null := by
    intro hNull
    exact hNe (hRefines.timers.next_null_iff.mp hNull)
  have hLess := hNear.2 hNext
  unfold ZtimerState.readingAt at hLess
  rw [(ztimerNow_refines _ hRefines).2] at hLess
  exact Nat.lt_of_le_of_lt hAt hLess

/- The base is the reading when `list.offset` shows it. -/
theorem base_of_reading
    (hClock : s'.clock.Refines cfg q') (hStep : ZtimerStep cfg s q op s' q')
    (hOffset : q'.listOffset = BitVec.ofNat 32 s'.reading) :
    s'.base = s'.reading := by
  rcases hStep.time_eq with ⟨_, hReading⟩
  rw [hStep.base_eq]
  unfold ZtimerState.nextBase
  rw [← hReading, hClock.listOffset, if_pos hOffset]

/- The base is a number near the old one. -/
theorem base_of_near
    {b : Nat} (hClock : s'.clock.Refines cfg q')
    (hStep : ZtimerStep cfg s q op s' q')
    (hOffset : q'.listOffset = BitVec.ofNat 32 b) (hOld : s.base ≤ b)
    (hRange : b < s.base + 2 ^ 32) (hLe : b ≤ s'.reading)
    (hNear : s'.reading < b + 2 ^ 32) :
    s'.base = b := by
  rcases hStep.time_eq with ⟨_, hReading⟩
  rw [hStep.base_eq]
  unfold ZtimerState.nextBase
  rw [← hReading, hClock.listOffset, hOffset]
  split
  · rename_i hEq
    have hCatch := catchUp_ofNat hLe hNear
    rw [← hEq, catchUp_self] at hCatch
    exact hCatch.symm
  · exact catchUp_ofNat hOld hRange

/- The base after a step that leaves `list.offset`. -/
theorem base_keep
    (h : DeadlineInv cfg s q) (hClock : s'.clock.Refines cfg q')
    (hStep : ZtimerStep cfg s q op s' q') (hOffset : q'.listOffset = q.listOffset)
    (hMono : s.reading ≤ s'.reading)
    (hNear : q.timers ≠ [] → s'.reading < s.base + 2 ^ 32) :
    q'.listOffset = BitVec.ofNat 32 s'.base ∧ s'.base ≤ s'.reading ∧
      (q.timers ≠ [] → s'.base = s.base) := by
  have hLe := h.base_le
  have hOffset' := hOffset.trans h.base
  by_cases hNil : q.timers = []
  · rcases hStep.time_eq with ⟨_, hReading⟩
    have hBase := hStep.base_eq
    unfold ZtimerState.nextBase at hBase
    rw [← hReading, hClock.listOffset, hOffset', catchUp_self] at hBase
    split at hBase
    · rename_i hEq
      refine ⟨?_, ?_, fun hNe => (hNe hNil).elim⟩
      · rw [hBase, hOffset', hEq]
      · rw [hBase]
    · refine ⟨?_, ?_, fun hNe => (hNe hNil).elim⟩
      · rw [hBase, hOffset']
      · omega
  · have hBase :=
      base_of_near hClock hStep hOffset' (Nat.le_refl _) (by omega) (by omega) (hNear hNil)
    refine ⟨?_, ?_, fun _ => hBase⟩
    · rw [hBase, hOffset']
    · omega

/- Moving the base to the reading of a step. -/
theorem update_ordered
    {w : Nat} (h : DeadlineInv cfg s q) (hNow : q.now cfg time = BitVec.ofNat 32 w)
    (hMono : s.reading ≤ w) (hNear : q.timers ≠ [] → w < s.base + 2 ^ 32) :
    Ordered cfg s.log (q.update cfg time).timers w := by
  have hLe := h.base_le
  by_cases hNil : q.timers = []
  · unfold ZtimerQueue.update
    dsimp only
    rw [hNil, DeltaList.advance]
    exact Ordered.nil
  · have hDiff : (q.now cfg time - q.listOffset).toNat = w - s.base := by
      rw [hNow, h.base]
      exact Counter.toNat_ofNat_sub (by omega) (hNear hNil)
    unfold ZtimerQueue.update
    dsimp only
    rw [hDiff]
    exact h.ordered.advance (by omega)

end DeadlineInv

----
-- Steps
----

variable {log : List (ZtimerEntry N)}
variable {e : ZtimerEntry N}

/- A timer that is removed or fires is not pending. -/
theorem not_pending_removed :
    ¬ Pending (.removed t :: log) t := by
  rintro ⟨_, _, _, hLast⟩
  have hSelf := lastEntry_cons_self (e := .removed t) (l := log)
  rw [ZtimerEntry.timer] at hSelf
  rw [hSelf] at hLast
  cases hLast

theorem not_pending_fired :
    ¬ Pending (.fired t time :: log) t := by
  rintro ⟨_, _, _, hLast⟩
  have hSelf := lastEntry_cons_self (e := .fired t time) (l := log)
  rw [ZtimerEntry.timer] at hSelf
  rw [hSelf] at hLast
  cases hLast

/- The pending timers without one. -/
theorem pending_erase
    {l : List (Fin N)} (hPending : ∀ u, u ∈ l ↔ Pending log u) (hNodup : l.Nodup)
    (hTimer : e.timer = t) (hNot : ¬ Pending (e :: log) t) :
    ∀ u, u ∈ l.erase t ↔ Pending (e :: log) u := by
  intro u
  by_cases hEq : u = t
  · subst hEq
    refine ⟨?_, fun h => (hNot h).elim⟩
    intro hIn
    exact (hNodup.not_mem_erase hIn).elim
  · have hNe : e.timer ≠ u := by
      rw [hTimer]
      exact Ne.symm hEq
    rw [List.mem_erase_of_ne hEq, pending_cons_of_ne hNe]
    exact hPending u

namespace DeadlineInv

/- Setting a timer. -/
theorem set
    {val : BitVec 32} (h : DeadlineInv cfg s q) (hRefines : s.clock.Refines cfg q)
    (hLe : s.time ≤ time) (hIn : ListInTime cfg s (.ztimerSet time t val))
    (hClock : s'.clock.Refines cfg q')
    (hStep : ZtimerStep cfg s q (.ztimerSet time t val) s' q') :
    DeadlineInv cfg s' q' ∧ s'.base = s'.reading := by
  rcases h.reads_step (.ztimerSet time t val) hRefines
      hLe hIn.1 hClock hStep with
    ⟨hReads, hMono, hNear, hRead⟩
  have hStep' := hStep
  cases hStep' with
  | set hRef =>
    rename_i clock
    have hNow := hRead (Or.inr ZtimerQueue.set_sameReading)
    have hTimers : (q.set cfg time t val).timers = DeltaList.insert t (adjusted cfg val).toNat
            (DeltaList.erase t (q.update cfg time).timers) := by
      unfold ZtimerQueue.set
      split
      · rfl
      · rfl
    have hOffset : (q.set cfg time t val).listOffset = q.now cfg time := by
      unfold ZtimerQueue.set
      split
      · rfl
      · rfl
    have hBase := base_of_reading hClock hStep (hOffset.trans hNow)
    have hNodup := hRefines.timers.nodup
    have hKeys : (DeltaList.erase t
              (q.update cfg time).timers).map Prod.fst = (q.timers.map Prod.fst).erase t := by
      rw [DeltaList.erase_keys, ZtimerQueue.update_keys]
    have hFresh : t ∉ (DeltaList.erase t (q.update cfg time).timers).map Prod.fst := by
      rw [hKeys]
      exact hNodup.not_mem_erase
    have hUpdate := h.update_ordered hNow hMono hNear
    have hErased := hUpdate.erase (t := t)
    refine ⟨⟨hReads, ?_, ?_, ?_, ?_, ?_⟩, hBase⟩
    · rw [hBase, hOffset]
      exact hNow
    · rw [hBase]
    · intro u
      have hPerm : ((q.set cfg time t val).timers.map Prod.fst).Perm
            (t :: (q.timers.map Prod.fst).erase t) := by
        rw [hTimers, ← hKeys]
        exact DeltaList.insert_keys_perm
      rw [hPerm.mem_iff, List.mem_cons]
      by_cases hEq : u = t
      · subst hEq
        refine ⟨fun _ => ⟨_, _, _, lastEntry_cons_self⟩, fun _ => Or.inl rfl⟩
      · have hNe : (ZtimerEntry.set t time (s.nextReading cfg time clock) val).timer ≠ u :=
          Ne.symm hEq
        rw [List.mem_erase_of_ne hEq, or_iff_right hEq]
        exact (h.pending u).trans (pending_cons_of_ne hNe).symm
    · rw [hTimers, hBase]
      have hCons :=
        hErased.cons_of_notMem (e := .set t time (s.nextReading cfg time clock) val) hFresh
      apply hCons.insert
      · exact target_cons_set
      · intro u hu
        have hNe : (ZtimerEntry.set t time (s.nextReading cfg time clock) val).timer ≠ u := by
          rintro rfl
          exact hFresh hu
        have hIndex : lastIndex u s.log ≤ s.log.length := lastIndex_le_length
        rw [lastIndex_cons_of_ne hNe, lastIndex_cons_self (t := t) rfl]
        omega
    · intro hPlain
      rcases h.reads with ⟨r, hReads₀⟩
      rcases hReads with ⟨r', hReads₁⟩
      have hTime₀ := (hReads₀.plain hPlain).1
      have hTime₁ := (hReads₁.plain hPlain).1
      have hOld := h.base_le
      have hFits := AlarmFits.set
          (s.after cfg time clock s.phase (.set t time (s.nextReading cfg time clock) val :: s.log))
          hPlain (h.alarm hPlain) hRefines h.base
          (by omega) hLe
          (by
            intro _ hNe
            have hLess := hNear hNe
            rw [hTime₁] at hLess
            exact hLess)
          (hIn.2.2 hPlain) rfl rfl
      rw [hBase, hTime₁]
      exact hFits

/- Removing a timer that counts as set. -/
theorem removeSet
    {clock : ZtimerClock N} (h : DeadlineInv cfg s q)
    (hRefines : s.clock.Refines cfg q) (hLe : s.time ≤ time)
    (hNear : s.Near cfg time)
    (hClock : clock.Refines cfg (q.remove cfg time t true))
    (hStep : ZtimerStep cfg s q (.ztimerRemove time t)
        (s.after cfg time clock s.phase (.removed t :: s.log))
        (q.remove cfg time t true)) :
    DeadlineInv cfg (s.after cfg time clock s.phase (.removed t :: s.log))
        (q.remove cfg time t true) ∧
      (s.after cfg time clock s.phase (.removed t :: s.log)).base =
        (s.after cfg time clock s.phase (.removed t :: s.log)).reading := by
  rcases h.reads_step (.ztimerRemove time t) hRefines hLe
      hNear hClock hStep with
    ⟨hReads, hMono, hLess, hRead⟩
  have hEq := q.remove_true cfg time t
  have hSame : SameReading (q.read cfg time) (q.remove cfg time t true) := by
    rw [hEq]
    refine SameReading.trans ?_ ZtimerQueue.arm_sameReading
    exact ⟨rfl, rfl⟩
  have hNow : q.now cfg time = BitVec.ofNat 32 _ := hRead (Or.inr hSame)
  have hOffset : (q.remove cfg time t true).listOffset = q.now cfg time := by
    rw [hEq, ZtimerQueue.arm_listOffset]
    rfl
  have hBase := base_of_reading hClock hStep (hOffset.trans hNow)
  have hTimers :
      (q.remove cfg time t true).timers = DeltaList.erase t (q.update cfg time).timers := by
    rw [hEq, ZtimerQueue.arm_timers]
    rfl
  have hKeys :
      (q.remove cfg time t true).timers.map Prod.fst = (q.timers.map Prod.fst).erase t := by
    rw [hTimers, DeltaList.erase_keys, ZtimerQueue.update_keys]
  have hNodup := hRefines.timers.nodup
  refine ⟨⟨hReads, ?_, ?_, ?_, ?_, ?_⟩, hBase⟩
  · rw [hBase, hOffset]
    exact hNow
  · rw [hBase]
  · rw [hKeys]
    exact pending_erase h.pending hNodup rfl not_pending_removed
  · rw [hTimers, hBase]
    apply ((h.update_ordered hNow hMono hLess).erase (t := t)).cons_of_notMem
    rw [← hTimers, hKeys]
    exact hNodup.not_mem_erase
  · intro hPlain
    rcases hReads with ⟨r', hReads₁⟩
    have hTime₁ := (hReads₁.plain hPlain).1
    have hTotal := hClock.timers.total
    rw [hEq, ZtimerQueue.arm_timers] at hTotal
    rw [hBase, hTime₁, hEq]
    exact AlarmFits.arm hPlain hTotal

/- A step that leaves the list and the base. -/
theorem keep
    (h : DeadlineInv cfg s q) (hRefines : s.clock.Refines cfg q)
    (hLe : s.time ≤ op.time) (hNear : s.Near cfg op.time)
    (hClock : s'.clock.Refines cfg q') (hStep : ZtimerStep cfg s q op s' q')
    (hTimers : q'.timers = q.timers) (hOffset : q'.listOffset = q.listOffset)
    (hAlarm : cfg.extended = false → s'.phase = s.phase ∧ q'.alarm = q.alarm)
    (hLog : s'.log = s.log ∨ ∃ t, s'.log = .removed t :: s.log ∧ t ∉ q.timers.map Prod.fst) :
    DeadlineInv cfg s' q' ∧ (q.timers ≠ [] → s'.base = s.base) := by
  rcases h.reads_step _ hRefines hLe hNear hClock hStep with ⟨hReads, hMono, hLess, _⟩
  rcases h.base_keep hClock hStep hOffset hMono hLess with ⟨hBase, hBaseLe, hSame⟩
  have hOrdered : Ordered cfg s.log q'.timers s'.base := by
    rw [hTimers]
    by_cases hNil : q.timers = []
    · rw [hNil]
      exact Ordered.nil
    · rw [hSame hNil]
      exact h.ordered
  refine ⟨⟨hReads, hBase, hBaseLe, ?_, ?_, ?_⟩, hSame⟩
  · rw [hTimers]
    rcases hLog with hLog | ⟨t, hLog, hNot⟩
    · rw [hLog]
      exact h.pending
    · have hPending := pending_erase (t := t) (e := .removed t) h.pending
          hRefines.timers.nodup rfl not_pending_removed
      rw [List.erase_of_not_mem hNot] at hPending
      rw [hLog]
      exact hPending
  · rcases hLog with hLog | ⟨t, hLog, hNot⟩
    · rw [hLog]
      exact hOrdered
    · rw [hLog]
      apply hOrdered.cons_of_notMem
      rw [hTimers]
      exact hNot
  · intro hPlain
    rcases hAlarm hPlain with ⟨hPhase, hSameAlarm⟩
    have hTime : s.time ≤ s'.time := by
      rw [hStep.time_eq.1]
      exact hLe
    by_cases hNil : q.timers = []
    · intro hIdle
      have hFits := h.alarm hPlain (hPhase.symm.trans hIdle)
      rw [hNil] at hFits
      rw [hTimers, hNil, hSameAlarm]
      exact hFits
    · rw [hSame hNil]
      exact (h.alarm hPlain).keep hPhase hTime hTimers hSameAlarm

variable (time) in
/- A timer that is due is taken out, and fires. -/
theorem fire
    {b o : Nat} {l : List (Fin N × Nat)}
    (hReads : ∃ r, ReadsAt cfg q' s'.time s'.reading r)
    (hPending : ∀ u, u ∈ ((t, o) :: l).map Prod.fst ↔ Pending s.log u)
    (hNodup : (((t, o) :: l).map Prod.fst).Nodup)
    (hOrdered : Ordered cfg s.log ((t, o) :: l) b) (hBase : s'.base = b + o)
    (hDue : b + o ≤ s'.reading) (hOffset : q'.listOffset = BitVec.ofNat 32 (b + o))
    (hTimers : q'.timers = l) (hLog : s'.log = .fired t time :: s.log)
    (hPhase : s'.phase ≠ .idle) :
    DeadlineInv cfg s' q' := by
  refine ⟨hReads, ?_, ?_, ?_, ?_, ?_⟩
  · rw [hBase]
    exact hOffset
  · rw [hBase]
    exact hDue
  · have hErase :=
      pending_erase (t := t) (e := .fired t time) hPending hNodup rfl not_pending_fired
    rw [List.map_cons, List.erase_cons_head] at hErase
    rw [hTimers, hLog]
    exact hErase
  · rw [hTimers, hLog, hBase]
    apply hOrdered.tail.cons_of_notMem
    exact (List.nodup_cons.mp hNodup).1
  · intro _ hIdle
    exact (hPhase hIdle).elim

section

variable (h : DeadlineInv cfg s q) (hRefines : s.clock.Refines cfg q)

include h hRefines

variable (op time) in
/- The handler triggers the first timer, which is due. -/
theorem trigger
    {o : Nat} {l : List (Fin N × Nat)} (hLe : s.time ≤ op.time)
    (hNear : s.Near cfg op.time) (hClock : s'.clock.Refines cfg q')
    (hStep : ZtimerStep cfg s q op s' q') (hList : q.timers = (t, o) :: l)
    (hTimers : q'.timers = l)
    (hOffset : q'.listOffset = q.listOffset + BitVec.ofNat 32 o)
    (hLog : s'.log = .fired t time :: s.log) (hPhase : s'.phase ≠ .idle)
    (hDue : s.base + o ≤ s'.reading) :
    DeadlineInv cfg s' q' := by
  rcases h.reads_step _ hRefines hLe hNear hClock hStep with ⟨hReads, _, hLess, _⟩
  have hLess' := hLess (by rw [hList]; simp)
  have hOffset' : q'.listOffset = BitVec.ofNat 32 (s.base + o) := by
    rw [hOffset, h.base, BitVec.ofNat_add]
  have hBase := base_of_near hClock hStep hOffset' (by omega) (by omega) hDue (by omega)
  have hPending := h.pending
  have hNodup := hRefines.timers.nodup
  have hOrdered := h.ordered
  rw [hList] at hPending hNodup hOrdered
  exact fire _ hReads hPending hNodup hOrdered hBase hDue hOffset' hTimers hLog hPhase

/- The handler goes on to the next callback or to its end. -/
theorem returns
    (hLe : s.time ≤ time) (hNear : s.Near cfg time)
    (hClock : s'.clock.Refines cfg q')
    (hStep : ZtimerStep cfg s q (.callbackReturns time) s' q') :
    DeadlineInv cfg s' q' := by
  rcases h.reads_step (.callbackReturns time) hRefines
      hLe hNear hClock hStep with
    ⟨hReads, hMono, hLess, hRead⟩
  have hBaseLe := h.base_le
  have hStep' := hStep
  cases hStep' with
  | callbackReturns hPhase hRef =>
    rename_i due u clock
    rcases ZtimerQueue.handlerNext_cases cfg time q with
      ⟨t, l, hList, hNext⟩ | ⟨t, l, hList, hNext⟩ | hNext
    · rw [hNext] at hStep hClock hMono ⊢
      refine h.trigger (.callbackReturns time) time
        hRefines hLe hNear hClock hStep
        hList rfl ?_ rfl ?_ (by omega)
      · simp
      · intro hIdle
        cases hIdle
    · rw [hNext] at hStep hClock hReads hMono hLess hRead ⊢
      have hNow := hRead (Or.inr ⟨rfl, rfl⟩)
      have hBase := base_of_reading hClock hStep hNow
      have hOrdered : Ordered cfg s.log (q.update cfg time).timers _ :=
        h.update_ordered hNow hMono hLess
      have hPending := h.pending
      have hNodup := hRefines.timers.nodup
      have hKeys : (q.update cfg time).timers.map Prod.fst = q.timers.map Prod.fst :=
        ZtimerQueue.update_keys
      rw [← hKeys] at hPending hNodup
      rw [hList] at hPending hNodup hOrdered
      refine fire time hReads hPending hNodup hOrdered hBase (Nat.le_refl _) hNow rfl rfl ?_
      intro hIdle
      cases hIdle
    · rw [hNext] at hStep hClock hReads hMono hLess hRead ⊢
      have hUpdated : SameReading (q.read cfg time) (q.update cfg time) := ⟨rfl, rfl⟩
      have hNow := hRead (Or.inr (hUpdated.trans ZtimerQueue.arm_sameReading))
      have hBase := base_of_reading hClock hStep (ZtimerQueue.arm_listOffset.trans hNow)
      have hOrdered : Ordered cfg s.log (q.update cfg time).timers _ :=
        h.update_ordered hNow hMono hLess
      refine ⟨hReads, ?_, ?_, ?_, ?_, ?_⟩
      · rw [hBase, ZtimerQueue.arm_listOffset]
        exact hNow
      · rw [hBase]
      · rw [ZtimerQueue.arm_timers, ZtimerQueue.update_keys]
        exact h.pending
      · rw [ZtimerQueue.arm_timers, hBase]
        exact hOrdered
      · intro hPlain
        rcases hReads with ⟨r', hReads₁⟩
        have hTime₁ := (hReads₁.plain hPlain).1
        have hTotal := hClock.timers.total
        rw [ZtimerQueue.arm_timers] at hTotal
        rw [hBase, hTime₁]
        exact AlarmFits.arm hPlain hTotal

/- The handler triggers a timer only when it is due. -/
theorem handler_due
    {o : Nat} {l : List (Fin N × Nat)}
    (hIn : ListInTime cfg s (.ztimerHandler time))
    (hEnabled : (ZtimerOp.ztimerHandler time).Enabled s)
    (hMono : s.reading ≤ s'.reading)
    (hPlainTime : cfg.extended = false → s'.reading = time)
    (hNow : cfg.extended = true → q.now cfg time = BitVec.ofNat 32 s'.reading)
    (hList : q.timers = (t, o) :: l)
    (hLeft : cfg.extended = true → ¬ 0 < (q.ticksLeft cfg time o).toInt) :
    s.base + o ≤ s'.reading := by
  have hBase := h.base_le
  cases hExt : cfg.extended with
  | true =>
    rcases (hIn.2.1 hExt).queue hRefines hList with ⟨hLt, hHead⟩
    have hLeft' := hLeft hExt
    unfold ZtimerQueue.ticksLeft at hLeft'
    rw [hNow hExt, h.base] at hLeft' hHead
    exact due_of_ticksLeft (by omega) hLt hHead hLeft'
  | false =>
    rcases hEnabled with ⟨hLe, hIdle, due, hDue, hReached⟩
    have hTime : s.time ≤ time := hLe
    have hFits := h.alarm hExt hIdle
    rw [hList] at hFits
    rcases hFits with ⟨a, hSome, hHead, _⟩
    rw [hRefines.alarm, hSome] at hDue
    cases hDue
    rw [hPlainTime hExt]
    omega

/- One step. -/
theorem step
    (hIn : ListInTime cfg s op) (hEnabled : op.Enabled s)
    (hClock : s'.clock.Refines cfg q') (hStep : ZtimerStep cfg s q op s' q') :
    DeadlineInv cfg s' q' := by
  have hLe := hEnabled.1
  have hStep' := hStep
  cases hStep' with
  | set hRef => exact (h.set hRefines hLe hIn hClock hStep).1
  | remove hCounts hNe hRef =>
    rename_i time t counts clock
    cases counts with
    | true => exact (h.removeSet hRefines hLe hIn.1 hRef hStep).1
    | false =>
      refine (h.keep hRefines hLe hIn.1 hClock hStep rfl rfl (fun _ => ⟨rfl, rfl⟩)
        (Or.inr ⟨t, rfl, ?_⟩)).1
      intro hMem
      cases hCounts hMem
  | now hRef =>
    exact (h.keep hRefines hLe hIn.1 hClock hStep
      ZtimerQueue.read_timers ZtimerQueue.read_listOffset
      (fun _ => ⟨rfl, ZtimerQueue.read_alarm⟩)
      (Or.inl rfl)).1
  | handler hAlarm hHandler hRef =>
    rename_i time due entry clock
    rcases h.reads_step _ hRefines hLe hIn.1 hClock hStep with ⟨hReads, hMono, _, hRead⟩
    have hSame := ZtimerQueue.handler_sameReading hHandler
    rcases ZtimerQueue.handler_cases hHandler with ⟨t, o, l, hList, hLeft, hq, rfl⟩ |
      ⟨hExt, rfl, hCases⟩
    · refine h.trigger _ time hRefines hLe hIn.1 hClock hStep hList ?_ ?_ rfl ?_ ?_
      · rw [hq]
      · rw [hq]
      · intro hIdle
        cases hIdle
      · refine h.handler_due hRefines hIn hEnabled hMono ?_ ?_ hList hLeft
        · intro hPlain
          rcases hReads with ⟨r', hReads₁⟩
          exact (hReads₁.plain hPlain).1
        · intro hExt
          refine hRead (Or.inr ⟨hSame.lowerLast.trans ?_, hSame.checkpoint.trans ?_⟩)
          · unfold ZtimerQueue.read ZtimerOp.time
            rw [if_pos hExt, if_pos hExt]
          · unfold ZtimerQueue.read ZtimerOp.time
            rw [if_pos hExt, if_pos hExt]
            rfl
    · have hNotPlain : ∀ P, cfg.extended = false → P := by
        intro P hPlain
        rw [hExt] at hPlain
        cases hPlain
      rcases hCases with ⟨t, o, l, hList, _, rfl⟩ | ⟨hList, rfl⟩
      · exact (h.keep hRefines hLe hIn.1 hClock hStep ZtimerQueue.read_timers
          ZtimerQueue.read_listOffset (hNotPlain _)
          (Or.inl rfl)).1
      · exact (h.keep hRefines hLe hIn.1 hClock hStep
          (ZtimerQueue.arm_timers.trans ZtimerQueue.read_timers)
          (ZtimerQueue.arm_listOffset.trans ZtimerQueue.read_listOffset) (hNotPlain _)
          (Or.inl rfl)).1
  | callbackReturns hPhase hRef => exact h.returns hRefines hLe hIn.1 hClock hStep

end

/- Moving the base, on deadlines. -/
theorem update_deadlines
    {w : Nat} (h : DeadlineInv cfg s q) (hNow : q.now cfg time = BitVec.ofNat 32 w)
    (hMono : s.reading ≤ w) (hNear : q.timers ≠ [] → w < s.base + 2 ^ 32) :
    DeltaList.deadlines w (q.update cfg time).timers =
      (DeltaList.deadlines s.base q.timers).map (fun x => (x.1, max x.2 w)) := by
  have hLe := h.base_le
  unfold ZtimerQueue.update
  dsimp only
  by_cases hNil : q.timers = []
  · rw [hNil]
    rfl
  · have hDiff : (q.now cfg time - q.listOffset).toNat = w - s.base := by
      rw [hNow, h.base]
      exact Counter.toNat_ofNat_sub (by omega) (hNear hNil)
    rw [hDiff]
    exact DeltaList.deadlines_advance_to (by omega)

/- The other timers after a call. -/
theorem others
    {x : Fin N × Nat} (h : DeadlineInv cfg s q) (hRefines : s.clock.Refines cfg q)
    (hIn : ListInTime cfg s op) (hEnabled : op.Enabled s)
    (hClock : s'.clock.Refines cfg q') (hStep : ZtimerStep cfg s q op s' q')
    (hCall : op.callOn = some t) (hMem : x ∈ DeltaList.deadlines s.base q.timers)
    (hNe : x.1 ≠ t) :
    x ∈ DeltaList.deadlines s'.base q'.timers ∨
      (x.2 ≤ s'.reading ∧ (x.1, s'.reading) ∈ DeltaList.deadlines s'.base q'.timers) := by
  have hLe := hEnabled.1
  rcases h.reads_step _ hRefines hLe hIn.1 hClock hStep with ⟨hReads, hMono, hLess, hRead⟩
  -- what is in the list after the base has moved
  have hMoved : q.now cfg op.time = BitVec.ofNat 32 s'.reading → (x.1, max x.2 s'.reading) ∈
          (DeltaList.deadlines s'.reading
            (q.update cfg op.time).timers).eraseP (fun y => y.1 = t) := by
    intro hNow
    rw [List.mem_eraseP_of_neg (by simpa using hNe), h.update_deadlines hNow hMono hLess]
    exact List.mem_map.mpr ⟨x, hMem, rfl⟩
  have hSplit : ∀ l : List (Fin N × Nat),
        (x.1, max x.2 s'.reading) ∈ l → x ∈ l ∨ (x.2 ≤ s'.reading ∧ (x.1, s'.reading) ∈ l) := by
    intro l hl
    by_cases hPast : x.2 ≤ s'.reading
    · rw [Nat.max_eq_right hPast] at hl
      exact Or.inr ⟨hPast, hl⟩
    · rw [Nat.max_eq_left (by omega)] at hl
      exact Or.inl hl
  have hStep' := hStep
  cases hStep' with
  | set hRef =>
    rename_i time u val clock
    cases hCall
    have hNow := hRead (Or.inr ZtimerQueue.set_sameReading)
    have hTimers : (q.set cfg time t val).timers = DeltaList.insert t (adjusted cfg val).toNat
            (DeltaList.erase t (q.update cfg time).timers) := by
      unfold ZtimerQueue.set
      split
      · rfl
      · rfl
    rw [(h.set hRefines hLe hIn hClock hStep).2, hTimers,
      DeltaList.deadlines_insert, DeltaList.deadlines_erase]
    apply hSplit
    exact (List.mem_orderedInsert _).mpr (Or.inr (hMoved hNow))
  | remove hCounts hNonempty hRef =>
    rename_i time u counts clock
    cases hCall
    cases counts with
    | true =>
      have hEq := q.remove_true cfg time t
      have hUpdated : SameReading (q.read cfg time) ((q.update cfg time).del t) := ⟨rfl, rfl⟩
      have hNow := hRead (Or.inr (by
          rw [hEq]
          exact hUpdated.trans ZtimerQueue.arm_sameReading))
      have hBase := (h.removeSet hRefines hLe hIn.1 hRef hStep).2
      have hTimers :
          (q.remove cfg time t true).timers = DeltaList.erase t (q.update cfg time).timers := by
        rw [hEq, ZtimerQueue.arm_timers]
        rfl
      have hBase' : (s.after cfg time clock s.phase (.removed t :: s.log)).base =
            (s.after cfg time clock s.phase (.removed t :: s.log)).reading := hBase
      rw [hBase', hTimers, DeltaList.deadlines_erase]
      exact hSplit _ (hMoved hNow)
    | false =>
      have hNonempty' : q.timers ≠ [] := by
        intro hNil
        rw [hNil] at hMem
        cases hMem
      have hKeep := h.keep hRefines hLe hIn.1 hClock hStep rfl rfl
          (fun _ => ⟨rfl, rfl⟩)
          (Or.inr ⟨t, rfl, fun hm => by cases hCounts hm⟩)
      rw [hKeep.2 hNonempty']
      exact Or.inl hMem
  | now hRef => cases hCall
  | handler hAlarm hHandler hRef => cases hCall
  | callbackReturns hPhase hRef => cases hCall

/- The list as the code has it. -/
theorem refinesDeadlines
    (h : DeadlineInv cfg s q) (hRefines : s.clock.Refines cfg q) :
    RefinesDeadlines cfg s := by
  have hTimers := hRefines.timers_eq
  have hDeadlines : s.deadlines = DeltaList.deadlines s.base q.timers := by
    unfold ZtimerState.deadlines
    rw [hTimers]
  constructor
  · rw [hTimers]
    exact hRefines.timers
  · rw [hDeadlines, DeltaList.deadlines_keys]
    exact h.pending
  · rw [hDeadlines]
    exact h.ordered.deadline
  · rw [hDeadlines, DeltaList.deadlines_keys]
    exact h.ordered.order
  · intro time hLe hNear
    rcases h.reads with ⟨r, hReads⟩
    rcases hReads.now hLe hNear.1 with ⟨w, hNow, hMono, hLt, _, _⟩
    have hAt : s.readingAt cfg time = w := by
      unfold ZtimerState.readingAt
      rw [(ztimerNow_refines _ hRefines).2, hNow, catchUp_ofNat hMono hLt]
    rcases ztimerUpdateHeadOffset_refines time hRefines with ⟨clock, hUpdate, hClock⟩
    have hLess : q.timers ≠ [] → w < s.base + 2 ^ 32 := by
      intro hNe
      rw [← hAt]
      apply hNear.2
      intro hNull
      exact hNe (hRefines.timers.next_null_iff.mp hNull)
    refine ⟨clock, hUpdate, ?_, ?_⟩
    · rw [hClock.listOffset, hAt]
      exact hNow
    · rw [hClock.timers_eq, hAt, hDeadlines]
      exact h.update_deadlines hNow hMono hLess
  · intro op s' t hIn hEnabled hExec hCall x hMem hNe
    rcases ZtimerOp.exec_step hRefines hExec with ⟨q', hClock, hStep⟩
    have hDeadlines' : s'.deadlines = DeltaList.deadlines s'.base q'.timers := by
      unfold ZtimerState.deadlines
      rw [hClock.timers_eq]
    rw [hDeadlines'] at *
    rw [hDeadlines] at hMem
    exact h.others hRefines hIn hEnabled hClock hStep hCall hMem hNe

end DeadlineInv

----
-- Runs
----

/-
  In every run that stays in time, the list refines the set
  of deadlines.
-/
theorem refinesDeadlines_of_reachable
    (cfg : ZtimerConfig) (s : ZtimerState N)
    (hReach : (ztimerSystem N cfg).ReachableVia (ListInTime cfg) s) :
    RefinesDeadlines cfg s := by
  have hInv : ∃ q, s.clock.Refines cfg q ∧ DeadlineInv cfg s q := by
    refine exists_refines_of_reachable (I := fun s q => DeadlineInv cfg s q) hReach ?_ ?_
    · intro s hStart
      refine ⟨⟨0, (PunctualInv.start hStart).reads⟩, ?_, ?_, ?_, Ordered.nil, ?_⟩
      · rw [hStart.base]
        rfl
      · rw [hStart.base, hStart.reading]
      · intro t
        rw [hStart.log]
        refine ⟨?_, ?_⟩
        · intro hIn
          cases hIn
        · rintro ⟨_, _, _, hLast⟩
          cases hLast
      · intro hPlain _
        unfold startQueue
        dsimp only
        rw [if_neg (by simp [hPlain])]
    · intro s q op s' q' hRefines h hIn hEnabled hClock hStep
      exact h.step hRefines hIn hEnabled hClock hStep
  rcases hInv with ⟨q, hRefines, h⟩
  exact h.refinesDeadlines hRefines

/- Two timers with one deadline are in the order of setting. -/
theorem refinesDeadlines_of_equalRun :
    ∃ s : ZtimerState 3,
      (ztimerSystem 3 counter32).runVia (ListInTime counter32)
          (ztimerStart 3 counter32)
          [.ztimerSet 4 0 10#32, .ztimerSet 4 1 10#32, .ztimerSet 5 2 40#32, .ztimerSet 7 0 7#32] =
          some s ∧ s.deadlines = [(1, 14), (0, 14), (2, 45)] ∧
        RefinesDeadlines counter32 s := by
  exact System.exists_run (ztimerStart_start counter32) (by decide +kernel)
    (refinesDeadlines_of_reachable counter32)

/-
  The old alarm of the first timer triggers the second one:
  the base is ahead of the clock, and the next update takes
  all deadlines for past.
-/
theorem not_refinesDeadlines :
    ∃ s : ZtimerState 2,
      (ztimerSystem 2 counter32).ReachableVia
          (fun s op =>
            Timely s op ∧ s.Near counter32 op.time) s ∧ ¬ RefinesDeadlines counter32 s := by
  have hRun :
      ((ztimerSystem 2 counter32).runVia
          (fun s op =>
            Timely s op ∧ ((counter32.extended = false → op.time < s.time + 2 ^ 32) ∧
                (s.clock.listNext ≠ .null → s.readingAt counter32 op.time < s.base + 2 ^ 32)))
          (ztimerStart 2 counter32)
          [.ztimerSet 0 0 10#32, .ztimerSet 0 1 20#32,
            .ztimerSet 5 0 100#32, .ztimerHandler 10]).any
        (fun s =>
          decide
            (s.time = 10 ∧ s.base = 20 ∧ s.readingAt counter32 10 = 10 ∧
              s.deadlines = [(0, 105)] ∧
              (ztimerUpdateHeadOffset counter32 10 s.clock).map
                  (fun c =>
                    DeltaList.deadlines 10 c.timers) = some [(0, 10)])) = true := by
    decide +kernel
  rcases System.exists_reachableVia_of_runVia
      (ztimerStart_start counter32) hRun with
    ⟨s, _, hReach, hTime, hBase, hAt, hDeadlines, hUpdate⟩
  refine ⟨s, hReach, ?_⟩
  intro hRefines
  have hNear : s.Near counter32 10 := by
    unfold ZtimerState.Near
    rw [hTime, hAt, hBase]
    exact ⟨fun _ => by decide, fun _ => by decide⟩
  rcases hRefines.update 10 (by omega) hNear with ⟨clock, hClock, _, hMoved⟩
  rw [hClock, Option.map_some, Option.some_inj] at hUpdate
  rw [hAt, hUpdate, hDeadlines] at hMoved
  revert hMoved
  decide

end Riot
