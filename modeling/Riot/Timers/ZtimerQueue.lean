import Riot.Sys.Ztimer

/-
  The list of a clock as a delta list.

  The operations of a clock are stated again on the list of
  its timers with their distances, and the functions over
  linked memory are shown to do the same.
-/

----
-- Operations on Lists
----

namespace Riot

/- The fields of a clock, with the list as a list. -/
structure ZtimerQueue (N : Nat) where
  timers : List (Fin N × Nat)
  listOffset : BitVec 32
  lowerLast : BitVec 32
  checkpoint : BitVec 32
  alarm : Option Nat

namespace ZtimerQueue

variable {N : Nat}

/- Half of the range of the counter. -/
def halfRange
    (cfg : ZtimerConfig) : Nat :=
  cfg.maxValue.toNat / 2

/- What a read of the clock returns. -/
def now
    (cfg : ZtimerConfig) (time : Nat) (q : ZtimerQueue N) : BitVec 32 :=
  if cfg.extended then
    q.checkpoint + addModulo (cfg.opsNow time) q.lowerLast cfg.maxValue
  else
    cfg.opsNow time

/- The clock after a read. -/
def read
    (cfg : ZtimerConfig) (time : Nat) (q : ZtimerQueue N) : ZtimerQueue N :=
  if cfg.extended then
    { q with checkpoint := q.now cfg time, lowerLast := cfg.opsNow time }
  else
    q

/- The base moves to the current time. -/
def update
    (cfg : ZtimerConfig) (time : Nat) (q : ZtimerQueue N) : ZtimerQueue N :=
  { q.read cfg time with
    timers := DeltaList.advance (q.now cfg time - q.listOffset).toNat q.timers
    listOffset := q.now cfg time }

def add
    (t : Fin N) (val : BitVec 32) (q : ZtimerQueue N) : ZtimerQueue N :=
  { q with timers := DeltaList.insert t val.toNat q.timers }

def del
    (t : Fin N) (q : ZtimerQueue N) : ZtimerQueue N :=
  { q with timers := DeltaList.erase t q.timers }

/- The distance of the next alarm, for a head at `o`. -/
def alarmDistance
    (cfg : ZtimerConfig) (o : Nat) : Nat :=
  if cfg.extended then min o (halfRange cfg) else o

/- Arm the alarm at a distance from the current time. -/
def armAt
    (cfg : ZtimerConfig) (time : Nat) (o : Nat) (q : ZtimerQueue N) : ZtimerQueue N :=
  { q with alarm := some (time + alarmDistance cfg o) }

/- Arm the alarm for the head. -/
def arm
    (cfg : ZtimerConfig) (time : Nat) (q : ZtimerQueue N) : ZtimerQueue N :=
  match q.timers with
  | (_, o) :: _ => q.armAt cfg time o
  | [] =>
    if cfg.extended then
      { q with alarm := some (time + halfRange cfg) }
    else
      { q with alarm := none }

/- A timer that may count as set is removed. -/
def remove
    (cfg : ZtimerConfig) (time : Nat) (t : Fin N) (counts : Bool)
    (q : ZtimerQueue N) : ZtimerQueue N :=
  if counts then
    ((q.update cfg time).del t).arm cfg time
  else
    q

theorem remove_true
    (q : ZtimerQueue N) (cfg : ZtimerConfig) (time : Nat) (t : Fin N) :
    q.remove cfg time t true = ((q.update cfg time).del t).arm cfg time :=
  if_pos rfl

/- The list after a timer is set. -/
def setTimers
    (cfg : ZtimerConfig) (time : Nat) (t : Fin N) (val : BitVec 32)
    (q : ZtimerQueue N) : ZtimerQueue N :=
  ((q.update cfg time).del t).add t (adjusted cfg val)

def set
    (cfg : ZtimerConfig) (time : Nat) (t : Fin N) (val : BitVec 32)
    (q : ZtimerQueue N) : ZtimerQueue N :=
  if (q.setTimers cfg time t val).timers.head?.map Prod.fst =
      some t then
    (q.setTimers cfg time t val).armAt cfg time (adjusted cfg val).toNat
  else
    q.setTimers cfg time t val

/- Take out the first timer if it is at distance 0. -/
def next
    (q : ZtimerQueue N) : ZtimerQueue N × Option (Fin N) :=
  match q.timers with
  | (t, o) :: l =>
    if o = 0 then
      ({ q with timers := l }, some t)
    else
      (q, none)
  | [] => (q, none)

/- Take out the first timer, and move the base there. -/
def trigger
    (q : ZtimerQueue N) :
    Option (ZtimerQueue N × Option (Fin N)) :=
  match q.timers with
  | (t, o) :: l =>
    some
      ({ q with timers := l, listOffset := q.listOffset + BitVec.ofNat 32 o }, some t)
  | [] => none

/- The ticks that are left to the head, as the handler sees. -/
def ticksLeft
    (cfg : ZtimerConfig) (time : Nat) (o : Nat) (q : ZtimerQueue N) : BitVec 32 :=
  q.listOffset + BitVec.ofNat 32 o - q.now cfg time

def handler
    (cfg : ZtimerConfig) (time : Nat) (q : ZtimerQueue N) :
    Option (ZtimerQueue N × Option (Fin N)) :=
  if cfg.extended then
    match q.timers with
    | (_, o) :: _ =>
      if 0 < (q.ticksLeft cfg time o).toInt then
        some ((q.read cfg time).armAt cfg time (q.ticksLeft cfg time o).toNat, none)
      else
        (q.read cfg time).trigger
    | [] => some ((q.read cfg time).arm cfg time, none)
  else
    q.trigger

def handlerNext
    (cfg : ZtimerConfig) (time : Nat) (q : ZtimerQueue N) : ZtimerQueue N × Option (Fin N) :=
  match q.next with
  | (q, some t) => (q, some t)
  | (q, none) =>
    match (q.update cfg time).next with
    | (q, some t) => (q, some t)
    | (q, none) => (q.arm cfg time, none)

variable {cfg : ZtimerConfig} {time : Nat} {q q' : ZtimerQueue N} {entry : Option (Fin N)}

@[simp]
theorem arm_timers :
    (q.arm cfg time).timers = q.timers := by
  unfold arm
  split
  · rfl
  · split <;> rfl

@[simp]
theorem arm_listOffset :
    (q.arm cfg time).listOffset = q.listOffset := by
  unfold arm
  split
  · rfl
  · split <;> rfl

/- The first timer is due, or nothing is taken out. -/
theorem next_cases
    (q : ZtimerQueue N) :
    (∃ t l, q.timers = (t, 0) :: l ∧ q.next = ({ q with timers := l }, some t)) ∨
      q.next = (q, none) := by
  unfold next
  split
  · rename_i t o l hList
    split
    · rename_i hZero
      subst hZero
      exact Or.inl ⟨t, l, hList, rfl⟩
    · exact Or.inr rfl
  · exact Or.inr rfl

/- What the rest of the handler can do. -/
theorem handlerNext_cases
    (cfg : ZtimerConfig) (time : Nat) (q : ZtimerQueue N) :
    (∃ t l, q.timers = (t, 0) :: l ∧ q.handlerNext cfg time = ({ q with timers := l }, some t)) ∨
      (∃ t l, (q.update cfg time).timers = (t, 0) :: l ∧
          q.handlerNext cfg time = ({ q.update cfg time with timers := l }, some t)) ∨
      q.handlerNext cfg time = ((q.update cfg time).arm cfg time, none) := by
  unfold handlerNext
  rcases next_cases q with ⟨t, l, hList, hNext⟩ | hNext
  · rw [hNext]
    exact Or.inl ⟨t, l, hList, rfl⟩
  · rw [hNext]
    dsimp only
    rcases next_cases (q.update cfg time) with ⟨t, l, hList, hNext⟩ | hNext
    · rw [hNext]
      exact Or.inr (Or.inl ⟨t, l, hList, rfl⟩)
    · rw [hNext]
      exact Or.inr (Or.inr rfl)

/- What is triggered. -/
theorem trigger_cases
    (hTrigger : q.trigger = some (q', entry)) :
    ∃ t o l, q.timers = (t, o) :: l ∧ q' =
          { q with timers := l, listOffset := q.listOffset + BitVec.ofNat 32 o } ∧
        entry = some t := by
  unfold trigger at hTrigger
  split at hTrigger
  · rename_i t o l hList
    cases hTrigger
    exact ⟨t, o, l, hList, rfl, rfl⟩
  · cases hTrigger

/- What the handler can do up to the first callback. -/
theorem handler_cases
    (hHandler : q.handler cfg time = some (q', entry)) :
    (∃ t o l, q.timers = (t, o) :: l ∧
          (cfg.extended = true → ¬ 0 < (q.ticksLeft cfg time o).toInt) ∧ q' =
            { q.read cfg time with timers := l, listOffset := q.listOffset + BitVec.ofNat 32 o } ∧
          entry = some t) ∨ (cfg.extended = true ∧ entry = none ∧ ((∃ t o l,
            q.timers = (t, o) :: l ∧ 0 < (q.ticksLeft cfg time o).toInt ∧
              q' = (q.read cfg time).armAt cfg time (q.ticksLeft cfg time o).toNat) ∨
          (q.timers = [] ∧ q' = (q.read cfg time).arm cfg time))) := by
  have hTimers : (q.read cfg time).timers = q.timers := by
    unfold read
    split <;> rfl
  have hOffset : (q.read cfg time).listOffset = q.listOffset := by
    unfold read
    split <;> rfl
  unfold handler at hHandler
  split at hHandler
  · rename_i hExt
    split at hHandler
    · rename_i t o l hList
      split at hHandler
      · rename_i hPos
        cases hHandler
        exact Or.inr ⟨hExt, rfl, Or.inl ⟨t, o, l, hList, hPos, rfl⟩⟩
      · rename_i hPos
        rcases trigger_cases hHandler with ⟨t', o', l', hList', rfl, rfl⟩
        rw [hTimers, hList] at hList'
        cases hList'
        refine Or.inl ⟨t, o, l, hList, fun _ => hPos, ?_, rfl⟩
        rw [hOffset]
    · rename_i hList
      cases hHandler
      exact Or.inr ⟨hExt, rfl, Or.inr ⟨hList, rfl⟩⟩
  · rename_i hExt
    have hRead : q.read cfg time = q := by
      unfold read
      rw [if_neg hExt]
    rcases trigger_cases hHandler with ⟨t, o, l, hList, rfl, rfl⟩
    refine Or.inl ⟨t, o, l, hList, ?_, ?_, rfl⟩
    · intro hTrue
      exact (hExt hTrue).elim
    · rw [hRead]

end ZtimerQueue

----
-- Refinement
----

variable {N : Nat}

/- The list, the last pointer and the power mode agree. -/
structure HoldsTimers
    (cfg : ZtimerConfig) (mem : DeltaMem Unit (Fin N)) (last : Option (Fin N)) (pmBlocked : Int)
    (timers : List (Fin N × Nat)) : Prop where
  holds : mem.Holds (.head ()) (timers.map Prod.fst)
  deltas : mem.deltas (timers.map Prod.fst) = timers
  nodup : (timers.map Prod.fst).Nodup
  total : DeltaList.total timers < 2 ^ 32
  last : last = (timers.map Prod.fst).getLast?
  pm :
    pmBlocked =
      if cfg.usesPm = true ∧ timers ≠ [] then 1 else 0

/- The clock has the list of timers and the fields. -/
structure ZtimerClock.Refines
    (cfg : ZtimerConfig) (clock : ZtimerClock N)
    (q : ZtimerQueue N) : Prop where
  timers : HoldsTimers cfg clock.mem clock.last clock.pmBlocked q.timers
  listOffset : clock.listOffset = q.listOffset
  lowerLast : clock.lowerLast = q.lowerLast
  checkpoint : clock.checkpoint = q.checkpoint
  alarm : clock.alarm = q.alarm

variable {cfg : ZtimerConfig} {mem : DeltaMem Unit (Fin N)}
variable {last : Option (Fin N)} {pmBlocked : Int} {timers : List (Fin N × Nat)}

namespace HoldsTimers

theorem length_le
    (h : HoldsTimers cfg mem last pmBlocked timers) :
    (timers.map Prod.fst).length ≤ N := by
  have hLe := List.Nodup.length_le_card h.nodup
  rwa [Fintype.card_fin] at hLe

/- The first timer, its distance and the rest. -/
theorem cons
    {t : Fin N} {o : Nat}
    (h : HoldsTimers cfg mem last pmBlocked ((t, o) :: timers)) :
    mem.next (.head ()) = .ref t ∧ mem.offset t = BitVec.ofNat 32 o ∧ o < 2 ^ 32 ∧
      mem.Holds (.entry t) (timers.map Prod.fst) ∧
      mem.deltas (timers.map Prod.fst) = timers := by
  rcases h.holds with ⟨hRef, hRest⟩
  have hDeltas := h.deltas
  rw [List.map_cons, DeltaMem.deltas_cons, List.cons.injEq] at hDeltas
  have hOffset : (mem.offset t).toNat = o := by
    simpa using hDeltas.1
  refine ⟨hRef, ?_, by omega, hRest, hDeltas.2⟩
  rw [← hOffset]
  simp

theorem next_nil
    (h : HoldsTimers cfg mem last pmBlocked ([] : List (Fin N × Nat))) :
    mem.next (.head ()) = .null := h.holds

/- The field `list.next` is null for an empty list. -/
theorem next_null_iff
    (h : HoldsTimers cfg mem last pmBlocked timers) :
    mem.next (.head ()) = .null ↔ timers = [] := by
  cases timers with
  | nil => simp [h.next_nil]
  | cons x l =>
    rcases x with ⟨t, o⟩
    simp [h.cons.1]

end HoldsTimers

variable {clock : ZtimerClock N} {q : ZtimerQueue N} {time : Nat} {t : Fin N}
variable {val : BitVec 32}

/- A member of the list counts as set. -/
theorem isSet_of_mem
    (h : clock.Refines cfg q) (hIn : t ∈ q.timers.map Prod.fst) :
    isSet clock t = true := by
  have hNe : q.timers ≠ [] := by
    intro hNil
    rw [hNil] at hIn
    cases hIn
  have hNext : clock.listNext ≠ .null := by
    intro hNull
    exact hNe (h.timers.next_null_iff.mp hNull)
  unfold isSet
  rw [if_neg hNext, h.timers.last]
  by_cases hNull : clock.mem.next (.entry t) = .null
  · have hLast := (h.timers.holds.next_null_iff h.timers.nodup hIn).mp hNull
    simp [hLast]
  · simp [hNull]

/- Nothing counts as set in an empty list. -/
theorem ne_nil_of_isSet
    (h : clock.Refines cfg q) (hSet : isSet clock t = true) :
    q.timers ≠ [] := by
  intro hNil
  have hNull : clock.listNext = .null := h.timers.next_null_iff.mpr hNil
  unfold isSet at hSet
  rw [if_pos hNull] at hSet
  cases hSet

variable (time) in
/- Reading the clock. -/
theorem ztimerNow_refines
    (h : clock.Refines cfg q) :
    (ztimerNow cfg time clock).1.Refines cfg
        (q.read cfg time) ∧ (ztimerNow cfg time clock).2 = q.now cfg time := by
  unfold ztimerNow ZtimerQueue.read ZtimerQueue.now
  split
  · unfold ztimerNowExtend
    dsimp only
    rw [h.checkpoint, h.lowerLast]
    refine ⟨⟨h.timers, h.listOffset, rfl, ?_, h.alarm⟩, rfl⟩
    rfl
  · exact ⟨h, rfl⟩

@[simp]
theorem ZtimerQueue.read_timers :
    (q.read cfg time).timers = q.timers := by
  unfold ZtimerQueue.read
  split <;> rfl

@[simp]
theorem ZtimerQueue.read_listOffset :
    (q.read cfg time).listOffset = q.listOffset := by
  unfold ZtimerQueue.read
  split <;> rfl

@[simp]
theorem ZtimerQueue.read_alarm :
    (q.read cfg time).alarm = q.alarm := by
  unfold ZtimerQueue.read
  split <;> rfl

variable (time) in
/- Moving the base. -/
theorem ztimerUpdateHeadOffset_refines
    (h : clock.Refines cfg q) :
    ∃ clock', ztimerUpdateHeadOffset cfg time clock = some clock' ∧
        clock'.Refines cfg (q.update cfg time) := by
  rcases ztimerNow_refines time h with ⟨hRead, hNow⟩
  have hTimers := hRead.timers
  rw [ZtimerQueue.read_timers] at hTimers
  unfold ztimerUpdateHeadOffset
  dsimp only
  rw [hNow, h.listOffset]
  generalize (ztimerNow cfg time clock).1 = c at *
  generalize hDiff : q.now cfg time - q.listOffset = diff
  cases hList : q.timers with
  | nil =>
    rw [hList] at hTimers
    have hNull : c.listNext = .null := hTimers.next_nil
    rw [hNull]
    refine ⟨_, rfl, ?_, rfl, hRead.lowerLast, hRead.checkpoint, hRead.alarm⟩
    unfold ZtimerQueue.update
    dsimp only
    rw [hList]
    exact hTimers
  | cons x l =>
    rcases x with ⟨u, o⟩
    rw [hList] at hTimers
    have hKeys : ((u, o) :: l).map Prod.fst = u :: l.map Prod.fst := rfl
    rcases hTimers.cons with ⟨hRef, _, _, hRest, _⟩
    have hRef' : c.listNext = .ref u := hRef
    have hLen := hTimers.length_le
    rw [hKeys, List.length_cons] at hLen
    rcases DeltaMem.advanceFrom_spec (m := c.mem)
        (N + 1) diff hRest hTimers.nodup (by omega) with
      ⟨m', hRun, hNext, hDeltas, _⟩
    rw [hRef']
    dsimp only
    rw [hRun]
    refine ⟨_, rfl, ?_, rfl, hRead.lowerLast, hRead.checkpoint, hRead.alarm⟩
    unfold ZtimerQueue.update
    dsimp only
    rw [hList, hDiff]
    have hKeys' :
        (DeltaList.advance diff.toNat ((u, o) :: l)).map Prod.fst = u :: l.map Prod.fst :=
      DeltaList.advance_keys
    have hOld : c.mem.deltas (u :: l.map Prod.fst) = (u, o) :: l := hTimers.deltas
    constructor
    · rw [hKeys']
      apply DeltaMem.Holds.congr hTimers.holds
      · rw [hNext]
      · intro e _
        rw [hNext]
    · rw [hKeys', hDeltas, hOld]
    · rw [hKeys']
      exact hTimers.nodup
    · rw [DeltaList.total_advance]
      have hTotal := hTimers.total
      omega
    · rw [hKeys']
      exact hTimers.last
    · rw [hTimers.pm]
      have hNe : DeltaList.advance diff.toNat ((u, o) :: l) ≠ [] := by
        intro hNil
        rw [hNil] at hKeys'
        cases hKeys'
      simp [hNe]

----
-- Removal and Insertion
----

variable {l : List (Fin N)}

/- Removing another member leaves the last one. -/
theorem getLast?_erase_of_ne
    {x : Fin N} (hLast : l.getLast? = some x) (hNe : x ≠ t) :
    (l.erase t).getLast? = some x := by
  induction l with
  | nil => cases hLast
  | cons u l ih =>
    cases l with
    | nil =>
      have hEq : u = x := by simpa using hLast
      subst hEq
      rw [List.erase_cons_tail (by simpa using hNe)]
      exact hLast
    | cons w l =>
      rw [List.getLast?_cons_cons] at hLast
      by_cases hEq : u = t
      · subst hEq
        rw [List.erase_cons_head]
        exact hLast
      · rw [List.erase_cons_tail (by simpa using hEq), List.getLast?_cons, ih hLast]
        rfl

/- The last member after a removal. -/
theorem last_erase
    (hNodup : l.Nodup) (hIn : t ∈ l) :
    (if l.getLast? = some t then Cell.owner (DeltaMem.before t (.head ()) l) else
        l.getLast?) = (l.erase t).getLast? := by
  split
  · rename_i hLast
    rw [DeltaMem.before_last hNodup hLast]
    cases (l.erase t).getLast? with
    | none => rfl
    | some u => rfl
  · rename_i hLast
    cases hEnd : l.getLast? with
    | none =>
      rw [List.getLast?_eq_none_iff] at hEnd
      rw [hEnd] at hIn
      cases hIn
    | some x =>
      have hNe : x ≠ t := by
        rintro rfl
        exact hLast hEnd
      exact (getLast?_erase_of_ne hEnd hNe).symm

/- Only an empty list has no keys. -/
theorem keys_ne_nil_iff
    {l : List (Fin N × Nat)} :
    l.map Prod.fst ≠ [] ↔ l ≠ [] := by
  simp

variable (cfg) in
/- The power mode is unblocked when the list gets empty. -/
theorem pmUnblock_refines
    {c : ZtimerClock N} (hHolds : c.mem.Holds (.head ()) (q.timers.map Prod.fst))
    (hDeltas : c.mem.deltas (q.timers.map Prod.fst) = q.timers)
    (hNodup : (q.timers.map Prod.fst).Nodup)
    (hTotal : DeltaList.total q.timers < 2 ^ 32)
    (hLast : c.last = (q.timers.map Prod.fst).getLast?)
    (hPm : c.pmBlocked = if cfg.usesPm = true then 1 else 0)
    (hOffset : c.listOffset = q.listOffset) (hLower : c.lowerLast = q.lowerLast)
    (hCheck : c.checkpoint = q.checkpoint) (hAlarm : c.alarm = q.alarm) :
    (if c.listNext = .null then c.pmUnblock cfg else c).Refines cfg q := by
  have hNull : c.listNext = .null ↔ q.timers = [] := by
    cases hList : q.timers with
    | nil =>
      rw [hList] at hHolds
      have hNil : c.listNext = .null := hHolds
      simp [hNil]
    | cons x l =>
      rw [hList] at hHolds
      have hRef : c.listNext = .ref x.1 := hHolds.1
      simp [hRef]
  by_cases hNil : q.timers = []
  · rw [if_pos (hNull.mpr hNil)]
    unfold ZtimerClock.pmUnblock
    by_cases hUses : cfg.usesPm = true
    · rw [if_pos hUses]
      rw [if_pos hUses] at hPm
      refine ⟨⟨hHolds, hDeltas, hNodup, hTotal, hLast, ?_⟩, hOffset, hLower, hCheck, hAlarm⟩
      dsimp only
      rw [hPm, if_neg (by simp [hNil])]
      rfl
    · rw [if_neg hUses]
      rw [if_neg hUses] at hPm
      refine ⟨⟨hHolds, hDeltas, hNodup, hTotal, hLast, ?_⟩, hOffset, hLower, hCheck, hAlarm⟩
      rw [hPm, if_neg (by simp [hNil])]
  · rw [if_neg (fun h => hNil (hNull.mp h))]
    refine ⟨⟨hHolds, hDeltas, hNodup, hTotal, hLast, ?_⟩, hOffset, hLower, hCheck, hAlarm⟩
    rw [hPm]
    simp [hNil]

/- Removing a timer from a list that is not empty. -/
theorem delEntryFromList_refines
    (h : clock.Refines cfg q) (hNe : q.timers ≠ []) :
    ∃ clock', delEntryFromList cfg clock t = some clock' ∧ clock'.Refines cfg (q.del t) := by
  have hTimers := h.timers
  have hLen := hTimers.length_le
  have hTotal := hTimers.total
  have hKeys : (q.del t).timers.map Prod.fst = (q.timers.map Prod.fst).erase t :=
    DeltaList.erase_keys
  rcases DeltaMem.eraseFrom_spec (e := t) (N + 1)
      hTimers.holds hTimers.nodup
      (by intro u _ hEq; cases hEq)
      (by rw [hTimers.deltas]; exact hTotal) (by omega) with
    ⟨m', r, hErase, hHolds, hDeltas, hSame, hMem, hNot⟩
  rw [hTimers.deltas] at hDeltas
  have hTotal' : DeltaList.total (q.del t).timers < 2 ^ 32 :=
    Nat.lt_of_le_of_lt DeltaList.total_erase_le hTotal
  have hNodup' : ((q.del t).timers.map Prod.fst).Nodup := by
    rw [hKeys]
    exact hTimers.nodup.erase t
  have hPm : clock.pmBlocked = if cfg.usesPm = true then 1 else 0 := by
    rw [hTimers.pm]
    simp [hNe]
  unfold delEntryFromList
  rw [hErase]
  dsimp only [Option.bind_eq_bind, Option.bind_some]
  rw [← apply_ite some]
  refine ⟨_, rfl, ?_⟩
  by_cases hIn : t ∈ q.timers.map Prod.fst
  · rw [hMem hIn]
    dsimp only
    apply pmUnblock_refines
    · rw [hKeys]
      apply DeltaMem.Holds.congr hHolds
      · exact LinkMem.set_entry_head m'.next t .null ()
      · intro u hu
        apply LinkMem.set_of_ne
        intro hEq
        cases hEq
        exact hTimers.nodup.not_mem_erase hu
    · rw [hKeys]
      exact hDeltas
    · exact hNodup'
    · exact hTotal'
    · dsimp only
      rw [hKeys, hTimers.last]
      exact last_erase hTimers.nodup hIn
    · exact hPm
    · exact h.listOffset
    · exact h.lowerLast
    · exact h.checkpoint
    · exact h.alarm
  · rcases hNot hIn with ⟨rfl, rfl⟩
    dsimp only
    rw [List.erase_of_not_mem hIn] at hHolds hDeltas
    rw [List.erase_of_not_mem hIn] at hKeys
    apply pmUnblock_refines
    · rw [hKeys]
      exact hHolds
    · rw [hKeys]
      exact hDeltas
    · exact hNodup'
    · exact hTotal'
    · rw [hKeys]
      exact hTimers.last
    · exact hPm
    · exact h.listOffset
    · exact h.lowerLast
    · exact h.checkpoint
    · exact h.alarm

variable (val) in
/-
  The place that is found is where a walk by distances
  inserts: no sum exceeds the range.
-/
theorem findPlace_spec
    {mem : DeltaMem Unit (Fin N)} (fuel : Nat) (sum : BitVec 32) {c : Cell Unit (Fin N)}
    (hHolds : mem.Holds c l)
    (hSum : sum.toNat + DeltaList.total (mem.deltas l) < 2 ^ 32) (hLe : sum ≤ val)
    (hFuel : l.length < fuel) :
    ∃ d s, findPlace mem val fuel sum c = some (d, s) ∧
        mem.insertFrom t fuel (val - sum) c = some (mem.insertAt d t (val - s)) ∧
        (d = c ∨ ∃ u ∈ l, d = .entry u) := by
  induction l generalizing fuel c sum with
  | nil =>
    have hNull : mem.next c = .null := hHolds
    cases fuel with
    | zero => simp at hFuel
    | succ fuel =>
      refine ⟨c, sum, ?_, ?_, Or.inl rfl⟩
      · rw [findPlace, hNull]
      · rw [DeltaMem.insertFrom, hNull]
  | cons u l ih =>
    rcases hHolds with ⟨hRef, hRest⟩
    rw [DeltaMem.deltas_cons, DeltaList.total_cons] at hSum
    have hLeNat : sum.toNat ≤ val.toNat := hLe
    have hAdd : (mem.offset u + sum).toNat = (mem.offset u).toNat + sum.toNat :=
      BitVec.toNat_add_of_lt (by omega)
    have hSub : (val - sum).toNat = val.toNat - sum.toNat := BitVec.toNat_sub_of_le hLe
    cases fuel with
    | zero => simp at hFuel
    | succ fuel =>
      by_cases hLt : val < mem.offset u + sum
      · have hLtNat : val.toNat < _ := hLt
        have hLt' : val - sum < mem.offset u := by
          rw [BitVec.lt_def]
          omega
        refine ⟨c, sum, ?_, ?_, Or.inl rfl⟩
        · rw [findPlace, hRef]
          dsimp only
          rw [if_pos hLt]
        · rw [DeltaMem.insertFrom, hRef]
          dsimp only
          rw [if_pos hLt']
      · have hLtNat : ¬ val.toNat < _ := hLt
        have hLt' : ¬ val - sum < mem.offset u := by
          rw [BitVec.lt_def]
          omega
        have hAdd' : (sum + mem.offset u).toNat = (mem.offset u).toNat + sum.toNat := by
          rw [BitVec.add_comm, hAdd]
        have hLe' : sum + mem.offset u ≤ val := by
          rw [BitVec.le_def]
          omega
        have hDiff : val - sum - mem.offset u = val - (sum + mem.offset u) := by
          grind
        rcases ih _ _ hRest (by omega) hLe'
            (by simpa using hFuel) with
          ⟨d, s, hFind, hInsert, hPlace⟩
        refine ⟨d, s, ?_, ?_, ?_⟩
        · rw [findPlace, hRef]
          dsimp only
          rw [if_neg hLt]
          exact hFind
        · rw [DeltaMem.insertFrom, hRef]
          dsimp only
          rw [if_neg hLt', hDiff]
          exact hInsert
        · rcases hPlace with rfl | ⟨w, hw, rfl⟩
          · exact Or.inr ⟨u, List.mem_cons_self, rfl⟩
          · exact Or.inr ⟨w, List.mem_cons_of_mem _ hw, rfl⟩

/- Blocking the power mode changes no other field. -/
theorem pmBlock_fields
    (cfg : ZtimerConfig) (clock : ZtimerClock N) :
    (clock.pmBlock cfg).mem = clock.mem ∧ (clock.pmBlock cfg).last = clock.last ∧
      (clock.pmBlock cfg).listOffset = clock.listOffset ∧
      (clock.pmBlock cfg).lowerLast = clock.lowerLast ∧
      (clock.pmBlock cfg).checkpoint = clock.checkpoint ∧
      (clock.pmBlock cfg).alarm = clock.alarm := by
  unfold ZtimerClock.pmBlock
  split
  · exact ⟨rfl, rfl, rfl, rfl, rfl, rfl⟩
  · exact ⟨rfl, rfl, rfl, rfl, rfl, rfl⟩

/- The first part of an insertion blocks the power mode. -/
theorem blockFirst_fields
    (h : clock.Refines cfg q) {c : ZtimerClock N}
    (hc : c = if clock.listNext = .null then clock.pmBlock cfg else clock) :
    c.mem = clock.mem ∧ c.last = clock.last ∧ c.listOffset = clock.listOffset ∧
      c.lowerLast = clock.lowerLast ∧ c.checkpoint = clock.checkpoint ∧ c.alarm = clock.alarm ∧
      c.pmBlocked = if cfg.usesPm = true then 1 else 0 := by
  have hPm := h.timers.pm
  have hNull : clock.listNext = .null ↔ q.timers = [] := h.timers.next_null_iff
  subst hc
  split
  · rename_i hNil
    rcases pmBlock_fields cfg clock with ⟨hMem, hLast, hOffset, hLower, hCheck, hAlarm⟩
    refine ⟨hMem, hLast, hOffset, hLower, hCheck, hAlarm, ?_⟩
    rw [if_neg (by simp [hNull.mp hNil])] at hPm
    unfold ZtimerClock.pmBlock
    split
    · dsimp only
      rw [hPm]
      rfl
    · exact hPm
  · rename_i hNil
    have hNe : q.timers ≠ [] := fun h => hNil (hNull.mpr h)
    refine ⟨rfl, rfl, rfl, rfl, rfl, rfl, ?_⟩
    rw [hPm]
    simp [hNe]

variable (val) in
/- Inserting a timer that is not in the list. -/
theorem addEntryToList_refines
    (h : clock.Refines cfg q) (hNot : t ∉ q.timers.map Prod.fst) :
    ∃ clock', addEntryToList cfg clock t val = some clock' ∧ clock'.Refines cfg (q.add t val) := by
  have hTimers := h.timers
  have hLen := hTimers.length_le
  have hTotal := hTimers.total
  rcases blockFirst_fields h rfl with ⟨hMem, hLast, hOffset, hLower, hCheck, hAlarm, hPm⟩
  unfold addEntryToList
  dsimp only
  generalize
    (if clock.listNext = .null then clock.pmBlock cfg else clock) = c at *
  rw [hMem]
  rcases findPlace_spec val (t := t) (N + 1) 0#32
      hTimers.holds
      (by rw [hTimers.deltas]; simpa using hTotal)
      (by rw [BitVec.le_def]; exact Nat.zero_le _)
      (by omega) with
    ⟨d, sum, hFind, hInsert, hPlace⟩
  have hSelf : d ≠ .entry t := by
    rcases hPlace with rfl | ⟨u, hu, rfl⟩
    · simp
    · intro hEq
      cases hEq
      exact hNot hu
  rcases DeltaMem.insertFrom_spec (m := clock.mem) (e := t)
      (v := val - 0#32) (N + 1) hTimers.holds
      hTimers.nodup hNot (by simp)
      (by intro u _ hEq; cases hEq) (by omega) with
    ⟨m', l', hInsert', hHolds, hDeltas, hSame⟩
  rw [hInsert] at hInsert'
  cases hInsert'
  have hZero : val - 0#32 = val := by simp
  rw [hTimers.deltas, hZero] at hDeltas
  have hKeys : (q.add t val).timers.map Prod.fst = l' := by
    have hMap := congrArg (List.map Prod.fst) hDeltas
    rw [DeltaMem.deltas_keys] at hMap
    exact hMap.symm
  have hPerm : l'.Perm (t :: q.timers.map Prod.fst) := by
    rw [← hKeys]
    exact DeltaList.insert_keys_perm
  have hNodup : l'.Nodup := hPerm.nodup_iff.mpr (List.nodup_cons.mpr ⟨hNot, hTimers.nodup⟩)
  have hIn : t ∈ l' := hPerm.mem_iff.mpr List.mem_cons_self
  have hEnd := hHolds.next_null_iff hNodup hIn
  rw [DeltaMem.insertAt_next_new hSelf] at hEnd
  rw [hFind]
  refine ⟨_, rfl, ⟨?_, ?_, ?_, ?_, ?_, ?_⟩, hOffset.trans h.listOffset, hLower.trans h.lowerLast,
    hCheck.trans h.checkpoint, hAlarm.trans h.alarm⟩
  · rw [hKeys]
    exact hHolds
  · rw [hKeys]
    exact hDeltas
  · rw [hKeys]
    exact hNodup
  · have hMax : DeltaList.total (q.add t val).timers = max (DeltaList.total q.timers) val.toNat :=
      DeltaList.total_insert
    have hLt := val.isLt
    rw [hMax]
    omega
  · dsimp only
    rw [hKeys]
    split
    · rename_i hNull
      exact (hEnd.mp hNull).symm
    · rename_i hNull
      rw [hLast, hTimers.last]
      rcases DeltaList.insert_keys_last (t := t)
          (v := val.toNat) (l := q.timers) with
        hSnoc | ⟨_, hKept⟩
      · -- a new last timer would have no successor
        refine (hNull (hEnd.mpr ?_)).elim
        rw [← hKeys]
        unfold ZtimerQueue.add
        dsimp only
        rw [hSnoc]
        simp
      · rw [← hKeys]
        exact hKept.symm
  · dsimp only
    have hNe : (q.add t val).timers ≠ [] := by
      rw [← keys_ne_nil_iff, hKeys]
      exact List.ne_nil_of_mem hIn
    rw [hPm]
    simp [hNe]

----
-- Operations
----

variable {o : Nat} {x : ZtimerQueue N × Option (Fin N)}

/- Half of the range, as the code computes it. -/
theorem toNat_halfRange :
    (cfg.maxValue >>> 1).toNat = ZtimerQueue.halfRange cfg := by
  unfold ZtimerQueue.halfRange
  simp [Nat.shiftRight_eq_div_pow]

theorem toNat_minU32
    (a b : BitVec 32) :
    (minU32 a b).toNat = min a.toNat b.toNat := by
  unfold minU32
  split
  · rename_i hLt
    have hLtNat : a.toNat < b.toNat := hLt
    omega
  · rename_i hLt
    have hLtNat : ¬ a.toNat < b.toNat := hLt
    omega

/- Another alarm. -/
theorem ZtimerClock.Refines.opsSet
    (h : clock.Refines cfg q)
    (hDistance : val.toNat = ZtimerQueue.alarmDistance cfg o) :
    (clock.opsSet time val).Refines cfg (q.armAt cfg time o) := by
  refine ⟨h.timers, h.listOffset, h.lowerLast, h.checkpoint, ?_⟩
  unfold ZtimerClock.opsSet ZtimerQueue.armAt
  dsimp only
  rw [hDistance]

/- The distance at which the code arms the alarm. -/
theorem alarmDistance_extended
    (hExt : cfg.extended = true) (hVal : val.toNat = o) :
    (minU32 val (cfg.maxValue >>> 1)).toNat = ZtimerQueue.alarmDistance cfg o := by
  unfold ZtimerQueue.alarmDistance
  rw [if_pos hExt, toNat_minU32, toNat_halfRange, hVal]

theorem alarmDistance_plain
    (hExt : ¬ cfg.extended = true) (hVal : val.toNat = o) :
    val.toNat = ZtimerQueue.alarmDistance cfg o := by
  unfold ZtimerQueue.alarmDistance
  rw [if_neg hExt, hVal]

variable (time) in
/- Arming the alarm for the head. -/
theorem ztimerUpdate_refines
    (h : clock.Refines cfg q) :
    ∃ clock', ztimerUpdate cfg time clock = some clock' ∧ clock'.Refines cfg (q.arm cfg time) := by
  have hTimers := h.timers
  unfold ztimerUpdate ZtimerQueue.arm
  cases hList : q.timers with
  | nil =>
    rw [hList] at hTimers
    have hNull : clock.listNext = .null := hTimers.next_nil
    rw [hNull]
    dsimp only
    split
    · refine ⟨_, rfl, hTimers, h.listOffset, h.lowerLast, h.checkpoint, ?_⟩
      unfold ZtimerClock.opsSet
      dsimp only
      rw [toNat_halfRange]
    · exact ⟨_, rfl, hTimers, h.listOffset, h.lowerLast, h.checkpoint, rfl⟩
  | cons x l =>
    rcases x with ⟨u, o⟩
    rw [hList] at hTimers
    rcases hTimers.cons with ⟨hRef, hOffset, hLt, _, _⟩
    have hRef' : clock.listNext = .ref u := hRef
    have hNat : (clock.mem.offset u).toNat = o := by
      rw [hOffset, BitVec.toNat_ofNat, Nat.mod_eq_of_lt hLt]
    rw [hRef']
    dsimp only
    split
    · rename_i hExt
      exact ⟨_, rfl, h.opsSet (alarmDistance_extended hExt hNat)⟩
    · rename_i hExt
      exact ⟨_, rfl, h.opsSet (alarmDistance_plain hExt hNat)⟩

/- The list without its first timer. -/
def unlinkHead
    (mem : DeltaMem Unit (Fin N)) (u : Fin N) : DeltaMem Unit (Fin N) :=
  { mem with next := mem.next.set (.head ()) (mem.next (.entry u)) }

/- Unlinking the first timer leaves the others. -/
theorem HoldsTimers.unlinkHead
    {mem : DeltaMem Unit (Fin N)} {last : Option (Fin N)} {pmBlocked : Int}
    {timers : List (Fin N × Nat)} {u : Fin N}
    (h : HoldsTimers cfg mem last pmBlocked ((u, o) :: timers)) :
    (Riot.unlinkHead mem u).Holds (.head ())
        (timers.map Prod.fst) ∧ (Riot.unlinkHead mem u).deltas (timers.map Prod.fst) = timers ∧
      (timers.map Prod.fst).Nodup ∧ DeltaList.total timers < 2 ^ 32 ∧
      (mem.next (.entry u) = .null ↔ timers = []) ∧
      (timers ≠ [] → last = (timers.map Prod.fst).getLast?) ∧
      pmBlocked = if cfg.usesPm = true then 1 else 0 := by
  rcases h.cons with ⟨_, _, _, hRest, hDeltas⟩
  have hTotal := h.total
  rw [DeltaList.total_cons] at hTotal
  refine ⟨?_, hDeltas, (List.nodup_cons.mp h.nodup).2, by omega, ?_, ?_, ?_⟩
  · unfold DeltaMem.Holds Riot.unlinkHead
    dsimp only
    rw [LinkMem.set_same]
    apply LinkMem.Seg.congr hRest
    intro e _
    exact LinkMem.set_head_entry ..
  · cases timers with
    | nil =>
      have hEnd : mem.next (.entry u) = .null := hRest
      simp [hEnd]
    | cons y l =>
      have hRef : mem.next (.entry u) = .ref y.1 := hRest.1
      simp [hRef]
  · intro hNe
    rw [h.last]
    cases timers with
    | nil => exact (hNe rfl).elim
    | cons y l => rw [List.map_cons, List.map_cons, List.getLast?_cons_cons]
  · rw [h.pm]
    simp

/- Taking out the first timer if it is due. -/
theorem nowNext_refines
    (h : clock.Refines cfg q) :
    ∃ clock', nowNext cfg clock = some (clock', q.next.2) ∧ clock'.Refines cfg q.next.1 := by
  have hTimers := h.timers
  unfold nowNext
  cases hList : q.timers with
  | nil =>
    rw [hList] at hTimers
    have hNull : clock.listNext = .null := hTimers.next_nil
    have hNext : q.next = (q, none) := by
      unfold ZtimerQueue.next
      rw [hList]
    rw [hNull, hNext]
    exact ⟨_, rfl, h⟩
  | cons x l =>
    rcases x with ⟨u, o⟩
    rw [hList] at hTimers
    rcases hTimers.cons with ⟨hRef, hOffset, hLt, _, _⟩
    have hRef' : clock.listNext = .ref u := hRef
    have hZero : clock.mem.offset u = 0#32 ↔ o = 0 := by
      rw [hOffset, ← BitVec.toNat_inj, BitVec.toNat_ofNat, Nat.mod_eq_of_lt hLt]
      simp
    rw [hRef']
    dsimp only
    by_cases hDue : o = 0
    · have hNext : q.next = ({ q with timers := l }, some u) := by
        unfold ZtimerQueue.next
        rw [hList]
        dsimp only
        rw [if_pos hDue]
      rcases hTimers.unlinkHead with ⟨hHolds, hDeltas, hNodup, hTotal, hNull, hLast, hPm⟩
      rw [if_pos (hZero.mpr hDue), hNext]
      by_cases hNil : l = []
      · subst hNil
        rw [if_pos (hNull.mpr rfl)]
        have hResult := pmUnblock_refines cfg
            (q := { q with timers := [] })
            (c := { clock with mem := Riot.unlinkHead clock.mem u, last := none })
            hHolds hDeltas hNodup hTotal rfl hPm
            h.listOffset h.lowerLast h.checkpoint h.alarm
        have hField : (Riot.unlinkHead clock.mem u).next (.head ()) = .null := by
          unfold Riot.unlinkHead
          dsimp only
          rw [LinkMem.set_same]
          exact hNull.mpr rfl
        rw [ZtimerClock.listNext, if_pos hField] at hResult
        exact ⟨_, rfl, hResult⟩
      · rw [if_neg (fun h => hNil (hNull.mp h))]
        refine ⟨_, rfl, ⟨hHolds, hDeltas, hNodup, hTotal,
          hLast hNil, ?_⟩, h.listOffset, h.lowerLast, h.checkpoint, h.alarm⟩
        dsimp only
        rw [hPm]
        simp [hNil]
    · have hNext : q.next = (q, none) := by
        unfold ZtimerQueue.next
        rw [hList]
        dsimp only
        rw [if_neg hDue]
      rw [if_neg (fun h => hDue (hZero.mp h)), hNext]
      exact ⟨_, rfl, h⟩

/- Moving the base keeps the timers. -/
@[simp]
theorem ZtimerQueue.update_keys :
    (q.update cfg time).timers.map Prod.fst = q.timers.map Prod.fst :=
  DeltaList.advance_keys

variable (cfg time) in
theorem ZtimerQueue.update_ne_nil
    (hNe : q.timers ≠ []) :
    (q.update cfg time).timers ≠ [] := by
  rw [← keys_ne_nil_iff, ZtimerQueue.update_keys, keys_ne_nil_iff]
  exact hNe

/- Nothing is removed that is not there. -/
theorem ZtimerQueue.del_of_notMem
    (hNot : t ∉ q.timers.map Prod.fst) :
    q.del t = q := by
  have hErase : DeltaList.erase t q.timers = q.timers := by
    generalize q.timers = l at hNot
    induction l with
    | nil => rfl
    | cons x l ih =>
      rcases x with ⟨u, o⟩
      rw [List.map_cons, List.mem_cons, not_or] at hNot
      rw [DeltaList.erase, if_neg (Ne.symm hNot.1), ih hNot.2]
  unfold ZtimerQueue.del
  rw [hErase]

variable (time) in
/- Removing a timer. -/
theorem ztimerRemove_refines
    (h : clock.Refines cfg q) :
    ∃ clock', ztimerRemove cfg time clock t = some clock' ∧
        clock'.Refines cfg (q.remove cfg time t (isSet clock t)) := by
  unfold ztimerRemove ZtimerQueue.remove
  split
  · rename_i hSet
    rcases ztimerUpdateHeadOffset_refines time h with ⟨c₁, hUpdate, h₁⟩
    have hNe := ZtimerQueue.update_ne_nil cfg time (ne_nil_of_isSet h hSet)
    rcases delEntryFromList_refines (t := t) h₁ hNe with ⟨c₂, hDel, h₂⟩
    rcases ztimerUpdate_refines time h₂ with ⟨c₃, hArm, h₃⟩
    refine ⟨c₃, ?_, h₃⟩
    simp only [Option.bind_eq_bind]
    rw [hUpdate, Option.bind_some, hDel, Option.bind_some, hArm]
  · exact ⟨clock, rfl, h⟩

/- The first timer, as the code finds it. -/
theorem ZtimerClock.Refines.listNext_ref_iff
    (h : clock.Refines cfg q) :
    clock.listNext = .ref t ↔ q.timers.head?.map Prod.fst = some t := by
  have hTimers := h.timers
  cases hList : q.timers with
  | nil =>
    rw [hList] at hTimers
    have hNull : clock.listNext = .null := hTimers.next_nil
    simp [hNull]
  | cons x l =>
    rw [hList] at hTimers
    have hRef : clock.listNext = .ref x.1 := hTimers.cons.1
    simp [hRef]

variable (time val) in
/- Setting a timer. -/
theorem ztimerSet_refines
    (h : clock.Refines cfg q) :
    ∃ clock',
      ztimerSet cfg time clock t val = some clock' ∧ clock'.Refines cfg (q.set cfg time t val) := by
  rcases ztimerUpdateHeadOffset_refines time h with ⟨c₁, hUpdate, h₁⟩
  have hDel : ∃ c₂, delIfSet cfg c₁ t = some c₂ ∧ c₂.Refines cfg ((q.update cfg time).del t) := by
    unfold delIfSet
    by_cases hSet : isSet c₁ t = true
    · rw [if_pos hSet]
      exact delEntryFromList_refines h₁ (ne_nil_of_isSet h₁ hSet)
    · rw [if_neg hSet]
      have hNot : t ∉ (q.update cfg time).timers.map Prod.fst := by
        intro hIn
        exact hSet (isSet_of_mem h₁ hIn)
      rw [ZtimerQueue.del_of_notMem hNot]
      exact ⟨c₁, rfl, h₁⟩
  rcases hDel with ⟨c₂, hDel, h₂⟩
  have hFresh : t ∉ ((q.update cfg time).del t).timers.map Prod.fst := by
    unfold ZtimerQueue.del
    dsimp only
    rw [DeltaList.erase_keys]
    exact h₁.timers.nodup.not_mem_erase
  rcases addEntryToList_refines (adjusted cfg val) h₂ hFresh with ⟨c₃, hAdd, h₃⟩
  have h₃' : c₃.Refines cfg (q.setTimers cfg time t val) := h₃
  have hHead := h₃'.listNext_ref_iff (t := t)
  unfold ztimerSet ZtimerQueue.set
  simp only [Option.bind_eq_bind]
  rw [hUpdate, Option.bind_some, hDel, Option.bind_some, hAdd, Option.bind_some]
  by_cases hFirst : c₃.listNext = .ref t
  · rw [if_pos hFirst, if_pos (hHead.mp hFirst)]
    split
    · rename_i hExt
      exact ⟨_, rfl, h₃'.opsSet (alarmDistance_extended hExt rfl)⟩
    · rename_i hExt
      exact ⟨_, rfl, h₃'.opsSet (alarmDistance_plain hExt rfl)⟩
  · rw [if_neg hFirst, if_neg (fun h => hFirst (hHead.mpr h))]
    exact ⟨_, rfl, h₃'⟩

/- The first timer is triggered. -/
theorem ztimerTrigger_refines
    (h : clock.Refines cfg q) (hTrigger : q.trigger = some x) :
    ∃ clock', ztimerTrigger cfg clock = some (clock', x.2) ∧ clock'.Refines cfg x.1 := by
  have hTimers := h.timers
  unfold ZtimerQueue.trigger at hTrigger
  cases hList : q.timers with
  | nil =>
    rw [hList] at hTrigger
    cases hTrigger
  | cons y l =>
    rcases y with ⟨u, o⟩
    rw [hList] at hTrigger hTimers
    cases hTrigger
    rcases hTimers.cons with ⟨hRef, hOffset, _, hRest, hDeltas⟩
    have hRef' : clock.listNext = .ref u := hRef
    rcases List.nodup_cons.mp hTimers.nodup with ⟨hFresh, _⟩
    have hTotal := hTimers.total
    rw [DeltaList.total_cons] at hTotal
    have h₁ : ZtimerClock.Refines cfg
          { clock with
            listOffset := clock.listOffset + clock.mem.offset u
            mem := clock.mem.setOffset u 0#32 }
          { q with
            timers := (u, 0) :: l
            listOffset := q.listOffset + BitVec.ofNat 32 o } := by
      refine ⟨⟨hTimers.holds, ?_, hTimers.nodup, ?_,
        hTimers.last, ?_⟩, ?_, h.lowerLast, h.checkpoint, h.alarm⟩
      · dsimp only
        rw [List.map_cons, DeltaMem.setOffset_deltas hFresh, hDeltas]
        rfl
      · dsimp only
        rw [DeltaList.total_cons]
        omega
      · dsimp only
        rw [hTimers.pm]
        simp
      · dsimp only
        rw [h.listOffset, hOffset]
    rcases nowNext_refines h₁ with ⟨c', hNext, h'⟩
    unfold ztimerTrigger
    rw [hRef']
    dsimp only
    refine ⟨c', ?_, h'⟩
    rw [hNext]
    rfl

/- The handler, up to the first callback. -/
theorem ztimerHandler_refines
    (h : clock.Refines cfg q) (hHandler : q.handler cfg time = some x) :
    ∃ clock', ztimerHandler cfg time clock = some (clock', x.2) ∧ clock'.Refines cfg x.1 := by
  rcases ztimerNow_refines time h with ⟨hRead, hNow⟩
  have hTimers := hRead.timers
  rw [ZtimerQueue.read_timers] at hTimers
  unfold ZtimerQueue.handler at hHandler
  unfold ztimerHandler
  by_cases hExt : cfg.extended = true
  · rw [if_pos hExt] at hHandler
    rw [if_pos hExt]
    dsimp only
    rw [hNow]
    have hBase := hRead.listOffset
    rw [ZtimerQueue.read_listOffset] at hBase
    generalize (ztimerNow cfg time clock).1 = c at *
    cases hList : q.timers with
    | nil =>
      rw [hList] at hHandler hTimers
      cases hHandler
      have hNull : c.listNext = .null := hTimers.next_nil
      rcases ztimerUpdate_refines time hRead with ⟨c', hArm, h'⟩
      unfold ztimerUpdate at hArm
      rw [hNull] at hArm
      dsimp only at hArm
      rw [if_pos hExt] at hArm
      cases hArm
      rw [hNull]
      exact ⟨_, rfl, h'⟩
    | cons y l =>
      rcases y with ⟨u, o⟩
      rw [hList] at hHandler hTimers
      dsimp only at hHandler
      rcases hTimers.cons with ⟨hRef, hOffset, _, _, _⟩
      have hRef' : c.listNext = .ref u := hRef
      have hLeft : c.listOffset + c.mem.offset u - q.now cfg time = q.ticksLeft cfg time o := by
        unfold ZtimerQueue.ticksLeft
        rw [hBase, hOffset]
      rw [hRef']
      dsimp only
      rw [hLeft]
      by_cases hPos : 0 < (q.ticksLeft cfg time o).toInt
      · rw [if_pos hPos] at hHandler
        rw [if_pos hPos]
        cases hHandler
        exact ⟨_, rfl, hRead.opsSet (alarmDistance_extended hExt rfl)⟩
      · rw [if_neg hPos] at hHandler
        rw [if_neg hPos]
        exact ztimerTrigger_refines hRead hHandler
  · rw [if_neg hExt] at hHandler
    rw [if_neg hExt]
    exact ztimerTrigger_refines h hHandler

variable (time) in
/- The handler, from one callback to the next or the end. -/
theorem ztimerHandlerNext_refines
    (h : clock.Refines cfg q) :
    ∃ clock', ztimerHandlerNext cfg time clock = some (clock', (q.handlerNext cfg time).2) ∧
        clock'.Refines cfg (q.handlerNext cfg time).1 := by
  rcases nowNext_refines h with ⟨c₁, hNext₁, h₁⟩
  unfold ztimerHandlerNext ZtimerQueue.handlerNext
  rw [hNext₁]
  rcases hq₁ : q.next with ⟨q₁, x₁⟩
  rw [hq₁] at h₁
  cases x₁ with
  | some t => exact ⟨c₁, rfl, h₁⟩
  | none =>
    rcases ztimerUpdateHeadOffset_refines time h₁ with ⟨c₂, hUpdate, h₂⟩
    rcases nowNext_refines h₂ with ⟨c₃, hNext₃, h₃⟩
    simp only [Option.bind_eq_bind, Option.bind_some]
    rw [hUpdate, Option.bind_some, hNext₃]
    rcases hq₃ : (q₁.update cfg time).next with ⟨q₃, x₃⟩
    rw [hq₃] at h₃
    cases x₃ with
    | some t => exact ⟨c₃, rfl, h₃⟩
    | none =>
      rcases ztimerUpdate_refines time h₃ with ⟨c₄, hArm, h₄⟩
      refine ⟨c₄, ?_, h₄⟩
      simp only [Option.bind_some]
      rw [hArm]
      rfl

end Riot
