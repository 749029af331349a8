import Riot.Lib.System
import Riot.Sys.Evtimer

/-
  Deadlines of events.

  The deadline of a pending event is the base plus the sum of
  the offsets up to it.  Calls move the base to the current
  time, and take what has passed off the first event only: if
  more has passed, all later deadlines move.
-/

----
-- System
----

namespace Riot

/- The event timer, the time, and if a callback runs. -/
structure EvtimerState (N : Nat) where
  evtimer : Evtimer N
  time : Nat
  inCallback : Bool

/- Calls, the handler, and the return of a callback. -/
inductive EvtimerOp (N : Nat) where
  | evtimerAdd (time : Nat) (e : Fin N) (offset : BitVec 32)
  | evtimerDel (time : Nat) (e : Fin N)
  | evtimerHandler (time : Nat)
  | callbackReturns (time : Nat)
deriving DecidableEq, Repr

variable {N : Nat}

/- The pending events with their offsets. -/
def Evtimer.pending
    (evtimer : Evtimer N) : List (Fin N × Nat) :=
  evtimer.mem.deltas (LinkMem.listNodes N evtimer.mem.next ())

/- The pending events with their deadlines. -/
def Evtimer.deadlines
    (evtimer : Evtimer N) : List (Fin N × Nat) :=
  DeltaList.deadlines evtimer.base evtimer.pending

/- The handler has gone on to a callback or to its end. -/
def EvtimerState.after
    (time : Nat)
    (result : Evtimer N × Option (Fin N)) : EvtimerState N where
  evtimer := result.1
  time := time
  inCallback := result.2.isSome

namespace EvtimerOp

def time : EvtimerOp N → Nat
| .evtimerAdd time _ _ => time
| .evtimerDel time _ => time
| .evtimerHandler time => time
| .callbackReturns time => time

/- The event that a call is about. -/
def event : EvtimerOp N → Option (Fin N)
| .evtimerAdd _ e _ => some e
| .evtimerDel _ e => some e
| _ => none

/-
  Events are added when they are not pending.  Calls may be
  made by a callback, and the handler runs at some time when
  the timer is armed.
-/
def Enabled
    (s : EvtimerState N) (op : EvtimerOp N) : Prop :=
  s.time ≤ op.time ∧
    match op with
    | .evtimerAdd _ e _ => e ∉ s.evtimer.pending.map Prod.fst
    | .evtimerDel _ _ => True
    | .evtimerHandler _ => s.inCallback = false ∧ s.evtimer.alarm ≠ none
    | .callbackReturns _ => s.inCallback = true

instance
    (s : EvtimerState N) (op : EvtimerOp N) :
    Decidable (op.Enabled s) := by
  unfold Enabled
  cases op <;> infer_instance

def exec
    (s : EvtimerState N) :
    EvtimerOp N → Option (EvtimerState N)
| .evtimerAdd time e offset =>
  (Riot.evtimerAdd time s.evtimer e offset).map (fun evtimer => { s with evtimer, time })
| .evtimerDel time e =>
  (Riot.evtimerDel time s.evtimer e).map (fun evtimer => { s with evtimer, time })
| .evtimerHandler time =>
  (Riot.evtimerHandler time { s.evtimer with alarm := none }).map (EvtimerState.after time)
| .callbackReturns time => (evtimerHandlerNext time s.evtimer).map (EvtimerState.after time)

end EvtimerOp

/- An event timer after `evtimer_init`, at any time. -/
def evtimerSystem
    (N : Nat) :
    System (EvtimerState N) (EvtimerOp N) where
  Start := fun s =>
    s.evtimer.events = .null ∧ s.evtimer.alarm = none ∧ s.inCallback = false
  Enabled := fun s op => op.Enabled s
  exec := EvtimerOp.exec

instance
    (s : EvtimerState N) (op : EvtimerOp N) :
    Decidable ((evtimerSystem N).Enabled s op) :=
  inferInstanceAs (Decidable (op.Enabled s))

----
-- Specification
----

/-
  A call leaves the deadlines of all other pending events
  that are not past, and the deadline of an added event is
  the current time plus its offset.
-/
def KeepsDeadlines
    (s : EvtimerState N) (op : EvtimerOp N) (s' : EvtimerState N) : Prop :=
  (∀ x ∈ s.evtimer.deadlines, op.event ≠ some x.1 → op.time ≤ x.2 → x ∈ s'.evtimer.deadlines) ∧
    match op with
    | .evtimerAdd time e offset => (e, time + offset.toNat) ∈ s'.evtimer.deadlines
    | _ => True

/-
  The first event is not past, or no other event than that of
  the call is left that is not past.
-/
def HeadInTime
    (s : EvtimerState N) (op : EvtimerOp N) : Prop :=
  (∀ x ∈ s.evtimer.deadlines.head?, op.time ≤ x.2) ∨
    ∀ x ∈ s.evtimer.deadlines, op.event ≠ some x.1 → x.2 < op.time

----
-- Functions
----

variable {evtimer : Evtimer N} {pending : List (Fin N × Nat)}
variable {time : Nat} {e : Fin N}

/- The queue holds the events, and no sum exceeds the range. -/
structure Evtimer.Holds
    (evtimer : Evtimer N)
    (pending : List (Fin N × Nat)) : Prop where
  holds : evtimer.mem.Holds (.head ()) (pending.map Prod.fst)
  deltas : evtimer.mem.deltas (pending.map Prod.fst) = pending
  nodup : (pending.map Prod.fst).Nodup
  total : DeltaList.total pending < 2 ^ 32

namespace Evtimer.Holds

theorem length_le
    (h : evtimer.Holds pending) :
    (pending.map Prod.fst).length ≤ N := by
  simpa using List.Nodup.length_le_card h.nodup

theorem pending_eq
    (h : evtimer.Holds pending) :
    evtimer.pending = pending := by
  have hNodes : LinkMem.listNodes N evtimer.mem.next () = pending.map Prod.fst :=
    LinkMem.IsList.listNodes_eq ⟨h.nodup, h.holds⟩ h.length_le
  simpa [Evtimer.pending, hNodes] using h.deltas

/- The field `events` is null for an empty queue. -/
theorem events_null_iff
    (h : evtimer.Holds pending) :
    evtimer.events = .null ↔ pending = [] := by
  have hHolds := h.holds
  cases pending with
  | nil =>
    have hNull : evtimer.events = .null := hHolds
    simp [hNull]
  | cons x l =>
    have hRef : evtimer.events = .ref x.1 := hHolds.1
    simp [hRef]

/- The first event and its offset. -/
theorem cons
    {o : Nat} (h : evtimer.Holds ((e, o) :: pending)) :
    evtimer.events = .ref e ∧ evtimer.mem.offset e = BitVec.ofNat 32 o ∧ o < 2 ^ 32 ∧
      evtimer.mem.Holds (.entry e) (pending.map Prod.fst) ∧
      evtimer.mem.deltas (pending.map Prod.fst) = pending := by
  have hDeltas := h.deltas
  simp only [List.map_cons, DeltaMem.deltas_cons,
    List.cons.injEq, Prod.mk.injEq, true_and] at hDeltas
  refine ⟨h.holds.1, ?_, by omega, h.holds.2, hDeltas.2⟩
  simp [← hDeltas.1]

/- Another offset of the first event. -/
theorem setOffset
    {o : Nat} {v : BitVec 32} (h : evtimer.Holds ((e, o) :: pending))
    (hLe : v.toNat ≤ o) :
    Evtimer.Holds { evtimer with mem := evtimer.mem.setOffset e v } ((e, v.toNat) :: pending) := by
  rcases h.cons with ⟨_, _, _, _, hDeltas⟩
  have hFresh := (List.nodup_cons.mp h.nodup).1
  have hTotal := h.total
  refine ⟨h.holds, ?_, h.nodup, ?_⟩
  · simp only [List.map_cons]
    rw [DeltaMem.setOffset_deltas hFresh, hDeltas]
  · simp only [DeltaList.total_cons] at hTotal ⊢
    omega

end Evtimer.Holds

/- What has passed, as far as 32 bits show it. -/
def elapsed
    (evtimer : Evtimer N) (time : Nat) : Nat :=
  (msecNow time - msecNow evtimer.base).toNat

/- Take a distance off the first event. -/
def shortenHead
    (d : Nat) :
    List (Fin N × Nat) → List (Fin N × Nat)
| [] => []
| (e, o) :: l => (e, o - d) :: l

variable (time) in
/- The base moves to the current time. -/
theorem updateHeadOffset_spec
    (h : evtimer.Holds pending) :
    ∃ evtimer', updateHeadOffset time evtimer = some evtimer' ∧
        evtimer'.Holds (shortenHead (elapsed evtimer time) pending) ∧
        (pending ≠ [] → evtimer'.base = time) := by
  unfold updateHeadOffset
  cases pending with
  | nil =>
    rw [h.events_null_iff.mpr rfl]
    exact ⟨evtimer, rfl, h, fun hNe => (hNe rfl).elim⟩
  | cons x l =>
    rcases x with ⟨e, o⟩
    rcases h.cons with ⟨hRef, hOffset, hLt, _, _⟩
    have hNat : (evtimer.mem.offset e).toNat = o := by
      rw [hOffset, BitVec.toNat_ofNat, Nat.mod_eq_of_lt hLt]
    rw [hRef]
    dsimp only
    have hValue : (if evtimer.mem.offset e < msecNow time - msecNow evtimer.base then 0#32 else
            evtimer.mem.offset e - (msecNow time - msecNow evtimer.base)).toNat =
          o - elapsed evtimer time := by
      unfold elapsed
      split
      · rename_i hLess
        have hLessNat : _ < _ := BitVec.lt_def.mp hLess
        have hZero : (0#32).toNat = 0 := rfl
        omega
      · rename_i hLess
        have hLe := BitVec.not_lt.mp hLess
        rw [BitVec.toNat_sub_of_le hLe, hNat]
    refine ⟨_, rfl, ?_, fun _ => rfl⟩
    have hSet := h.setOffset (v := _) (hValue.trans_le (Nat.sub_le _ _))
    rw [hValue] at hSet
    exact ⟨hSet.holds, hSet.deltas, hSet.nodup, hSet.total⟩

variable (time) in
/- Arming the timer sets the base. -/
theorem setTimer_spec
    (h : evtimer.Holds pending) (hNe : pending ≠ []) :
    ∃ evtimer',
      setTimer time evtimer = some evtimer' ∧ evtimer'.Holds pending ∧ evtimer'.base = time := by
  cases pending with
  | nil => exact (hNe rfl).elim
  | cons x l =>
    have hRef : evtimer.events = .ref x.1 := h.holds.1
    unfold setTimer
    rw [hRef]
    exact ⟨_, rfl, ⟨h.holds, h.deltas, h.nodup, h.total⟩, rfl⟩

variable (time) in
theorem updateTimer_spec
    (h : evtimer.Holds pending) :
    ∃ evtimer', updateTimer time evtimer = some evtimer' ∧ evtimer'.Holds pending ∧
        (pending ≠ [] → evtimer'.base = time) := by
  unfold updateTimer
  by_cases hNil : pending = []
  · rw [if_pos (h.events_null_iff.mpr hNil)]
    exact ⟨_, rfl, ⟨h.holds, h.deltas, h.nodup, h.total⟩, fun hNe => (hNe hNil).elim⟩
  · rw [if_neg (fun hNull => hNil (h.events_null_iff.mp hNull))]
    rcases setTimer_spec time h hNil with ⟨evtimer', hSet, h', hBase⟩
    exact ⟨evtimer', hSet, h', fun _ => hBase⟩

theorem addEventToList_spec
    (offset : BitVec 32) (h : evtimer.Holds pending)
    (hNot : e ∉ pending.map Prod.fst) :
    ∃ evtimer', addEventToList evtimer e offset = some evtimer' ∧
        evtimer'.Holds (DeltaList.insert e offset.toNat pending) ∧
        evtimer'.base = evtimer.base := by
  have hLen := h.length_le
  rcases DeltaMem.insertFrom_spec (m := evtimer.mem) (e := e)
      (v := offset) (N + 1) h.holds h.nodup hNot
      (by simp) (by intro u _ hEq; cases hEq) (by omega) with
    ⟨m', l', hInsert, hHolds, hDeltas, _⟩
  rw [h.deltas] at hDeltas
  have hKeys : (DeltaList.insert e offset.toNat pending).map Prod.fst = l' := by
    rw [← hDeltas, DeltaMem.deltas_keys]
  have hPerm : l'.Perm (e :: pending.map Prod.fst) := by
    rw [← hKeys]
    exact DeltaList.insert_keys_perm
  have hLt := offset.isLt
  have hTotal := h.total
  unfold addEventToList
  rw [hInsert]
  refine ⟨_, rfl, ⟨?_, ?_, ?_, ?_⟩, rfl⟩
  · rw [hKeys]
    exact hHolds
  · rw [hKeys]
    exact hDeltas
  · rw [hKeys]
    exact hPerm.nodup_iff.mpr (List.nodup_cons.mpr ⟨hNot, h.nodup⟩)
  · rw [DeltaList.total_insert]
    omega

theorem delEventFromList_spec
    (h : evtimer.Holds pending) :
    ∃ evtimer', delEventFromList evtimer e = some evtimer' ∧
        evtimer'.Holds (DeltaList.erase e pending) ∧ evtimer'.base = evtimer.base := by
  have hLen := h.length_le
  have hTotal := h.total
  rcases DeltaMem.eraseFrom_spec (e := e) (N + 1)
      h.holds h.nodup (by intro u _ hEq; cases hEq)
      (by rw [h.deltas]; exact hTotal) (by omega) with
    ⟨m', r, hErase, hHolds, hDeltas, _⟩
  rw [h.deltas] at hDeltas
  unfold delEventFromList
  rw [hErase]
  refine ⟨_, rfl, ⟨?_, ?_, ?_, ?_⟩, rfl⟩
  · rw [DeltaList.erase_keys]
    exact hHolds
  · rw [DeltaList.erase_keys]
    exact hDeltas
  · rw [DeltaList.erase_keys]
    exact h.nodup.erase e
  · exact Nat.lt_of_le_of_lt DeltaList.total_erase_le hTotal

theorem shortenHead_keys
    {d : Nat} :
    (shortenHead d pending).map Prod.fst = pending.map Prod.fst := by
  cases pending with
  | nil => rfl
  | cons x l => rfl

variable (time) in
/- Adding an event. -/
theorem evtimerAdd_spec
    (offset : BitVec 32) (h : evtimer.Holds pending)
    (hNot : e ∉ pending.map Prod.fst) :
    ∃ evtimer', evtimerAdd time evtimer e offset = some evtimer' ∧ evtimer'.Holds
          (DeltaList.insert e offset.toNat (shortenHead (elapsed evtimer time) pending)) ∧
        evtimer'.base = time := by
  rcases updateHeadOffset_spec time h with ⟨ev₁, hUpdate, h₁, hBase₁⟩
  rcases addEventToList_spec (e := e) offset h₁
      (by rw [shortenHead_keys]; exact hNot) with
    ⟨ev₂, hAdd, h₂, hBase₂⟩
  unfold evtimerAdd
  simp only [Option.bind_eq_bind, hUpdate, Option.bind_some, hAdd]
  by_cases hHead : ev₂.events = .ref e
  · rw [if_pos hHead]
    apply setTimer_spec _ h₂
    intro hNil
    rw [hNil] at h₂
    rw [h₂.events_null_iff.mpr rfl] at hHead
    cases hHead
  · rw [if_neg hHead]
    refine ⟨ev₂, rfl, h₂, hBase₂.trans (hBase₁ ?_)⟩
    -- the only event of an empty queue is its head
    rintro rfl
    exact hHead h₂.holds.1

variable (time) in
/- Removing an event. -/
theorem evtimerDel_spec
    (h : evtimer.Holds pending) :
    ∃ evtimer', evtimerDel time evtimer e = some evtimer' ∧
        evtimer'.Holds (DeltaList.erase e (shortenHead (elapsed evtimer time) pending)) ∧
        (DeltaList.erase e
            (shortenHead (elapsed evtimer time) pending) ≠ [] → evtimer'.base = time) := by
  rcases updateHeadOffset_spec time h with ⟨ev₁, hUpdate, h₁, _⟩
  rcases delEventFromList_spec (e := e) h₁ with ⟨ev₂, hDel, h₂, _⟩
  rcases updateTimer_spec time h₂ with ⟨ev₃, hTimer, h₃, hBase⟩
  refine ⟨ev₃, ?_, h₃, hBase⟩
  unfold evtimerDel
  simp only [Option.bind_eq_bind, hUpdate, Option.bind_some, hDel, hTimer]

----
-- Deadlines
----

/- The first event is not past: no deadline moves. -/
theorem deadlines_shortenHead
    (h : evtimer.Holds pending) (hLe : pending ≠ [] → evtimer.base ≤ time)
    (hHead : ∀ x ∈ (DeltaList.deadlines evtimer.base pending).head?, time ≤ x.2) :
    DeltaList.deadlines time (shortenHead (elapsed evtimer time) pending) =
      DeltaList.deadlines evtimer.base pending := by
  cases pending with
  | nil => rfl
  | cons x l =>
    rcases x with ⟨e, o⟩
    have hBase := hLe (by simp)
    have hTime : time ≤ evtimer.base + o := hHead (e, evtimer.base + o) rfl
    have hLt := h.cons.2.2.1
    have hElapsed : elapsed evtimer time = time - evtimer.base :=
      Counter.toNat_ofNat_sub hBase (by omega)
    have hSum : time + (o - elapsed evtimer time) = evtimer.base + o := by
      omega
    simp only [shortenHead, DeltaList.deadlines, hSum]

/- The first event is past: all deadlines move. -/
theorem deadlines_shortenHead_late
    (h : evtimer.Holds pending) (hLe : pending ≠ [] → evtimer.base ≤ time)
    (hHead : ¬ ∀ x ∈ (DeltaList.deadlines evtimer.base pending).head?, time ≤ x.2) :
    ∃ k, 0 < k ∧ DeltaList.deadlines time (shortenHead (elapsed evtimer time) pending) =
          (DeltaList.deadlines evtimer.base pending).map (fun x => (x.1, x.2 + k)) := by
  cases pending with
  | nil => exact (hHead (by simp [DeltaList.deadlines])).elim
  | cons x l =>
    rcases x with ⟨e, o⟩
    have hBase := hLe (by simp)
    have hLate : evtimer.base + o < time := by
      by_contra hNot
      apply hHead
      intro x hx
      cases hx
      simpa using hNot
    refine ⟨time + (o - elapsed evtimer time) - (evtimer.base + o), by omega, ?_⟩
    have hSum : time + (o - elapsed evtimer time) =
          evtimer.base + o + (time + (o - elapsed evtimer time) - (evtimer.base + o)) := by
      omega
    simp only [shortenHead, DeltaList.deadlines, List.map_cons]
    rw [← hSum, ← DeltaList.deadlines_shift, ← hSum]

/- A deadline that moves is not found again. -/
theorem notMem_of_shift
    {x : Fin N × Nat} {k : Nat} (h : evtimer.Holds pending) (hPos : 0 < k)
    (hMem : x ∈ DeltaList.deadlines evtimer.base pending) :
    x ∉ (DeltaList.deadlines evtimer.base pending).map (fun y => (y.1, y.2 + k)) := by
  intro hMoved
  rcases List.mem_map.mp hMoved with ⟨y, hy, hEq⟩
  have hNodup : ((DeltaList.deadlines evtimer.base pending).map Prod.fst).Nodup := by
    rw [DeltaList.deadlines_keys]
    exact h.nodup
  have hKey : y.1 = x.1 := by rw [← hEq]
  have hSame := List.inj_on_of_nodup_map hNodup hy hMem hKey
  have hTime : y.2 + k = x.2 := by rw [← hEq]
  rw [hSame] at hTime
  omega

/-
  What a call does to the other events, if the new deadlines
  of these are the ones after the base has moved.
-/
theorem others_iff
    {s : EvtimerState N} (op : EvtimerOp N) (s' : EvtimerState N)
    (h : s.evtimer.Holds pending) (hLe : pending ≠ [] → s.evtimer.base ≤ op.time)
    (hMem : ∀ x : Fin N × Nat, op.event ≠ some x.1 → (x ∈ s'.evtimer.deadlines ↔
          x ∈ DeltaList.deadlines op.time (shortenHead (elapsed s.evtimer op.time) pending))) :
    (∀ x ∈ s.evtimer.deadlines, op.event ≠ some x.1 → op.time ≤ x.2 →
        x ∈ s'.evtimer.deadlines) ↔ HeadInTime s op := by
  have hDeadlines : s.evtimer.deadlines = DeltaList.deadlines s.evtimer.base pending := by
    unfold Evtimer.deadlines
    rw [h.pending_eq]
  unfold HeadInTime
  rw [hDeadlines]
  constructor
  · intro hKeep
    by_cases hHead : ∀ x ∈ (DeltaList.deadlines s.evtimer.base pending).head?, op.time ≤ x.2
    · exact Or.inl hHead
    · right
      rcases deadlines_shortenHead_late h hLe hHead with ⟨k, hPos, hMoved⟩
      intro x hx hNe
      by_contra hNot
      have hNew := (hMem x hNe).mp (hKeep x hx hNe (by omega))
      rw [hMoved] at hNew
      exact notMem_of_shift h hPos hx hNew
  · intro hHead x hx hNe hTime
    rcases hHead with hHead | hPast
    · rw [hMem x hNe, deadlines_shortenHead h hLe hHead]
      exact hx
    · have hLt := hPast x hx hNe
      omega

----
-- Runs
----

variable {s s' : EvtimerState N} {op : EvtimerOp N}

/- The queue is well-formed, and its base is not ahead. -/
def EvtimerInv
    (s : EvtimerState N) : Prop :=
  ∃ pending, s.evtimer.Holds pending ∧ (pending ≠ [] → s.evtimer.base ≤ s.time)

/- Taking out the first event if it is due. -/
theorem getNext_spec
    {evtimer : Evtimer N} {pending : List (Fin N × Nat)}
    (h : evtimer.Holds pending) :
    (∃ e l evtimer', pending = (e, 0) :: l ∧ getNext evtimer = some (evtimer', some e) ∧
          evtimer'.Holds l ∧ evtimer'.base = evtimer.base) ∨
      getNext evtimer = some (evtimer, none) := by
  unfold getNext
  cases pending with
  | nil =>
    rw [h.events_null_iff.mpr rfl]
    exact Or.inr rfl
  | cons x l =>
    rcases x with ⟨e, o⟩
    rcases h.cons with ⟨hRef, hOffset, hLt, hRest, hDeltas⟩
    rw [hRef]
    dsimp only
    by_cases hZero : evtimer.mem.offset e = 0#32
    · rw [if_pos hZero]
      have ho : o = 0 := by
        rw [hOffset] at hZero
        have hNat := congrArg BitVec.toNat hZero
        rw [BitVec.toNat_ofNat, Nat.mod_eq_of_lt hLt] at hNat
        exact hNat
      subst ho
      have hTotal := h.total
      simp only [DeltaList.total_cons] at hTotal
      refine Or.inl ⟨e, l, _, rfl, rfl, ⟨?_, hDeltas,
        (List.nodup_cons.mp h.nodup).2, by omega⟩, rfl⟩
      unfold DeltaMem.Holds
      dsimp only
      rw [LinkMem.set_same]
      apply LinkMem.Seg.congr hRest
      intro u _
      exact LinkMem.set_head_entry ..
    · rw [if_neg hZero]
      exact Or.inr rfl

/- The handler keeps the queue. -/
theorem evtimerHandlerNext_inv
    {evtimer : Evtimer N} (pending : List (Fin N × Nat)) {time : Nat}
    {result : Evtimer N × Option (Fin N)} (h : evtimer.Holds pending)
    (hLe : pending ≠ [] → evtimer.base ≤ time)
    (hNext : evtimerHandlerNext time evtimer = some result) :
    EvtimerInv (EvtimerState.after time result) := by
  unfold evtimerHandlerNext at hNext
  rcases getNext_spec h with ⟨e, l, ev', rfl, hGet, h', hBase⟩ | hGet
  · rw [hGet] at hNext
    cases hNext
    refine ⟨l, h', ?_⟩
    intro _
    exact hBase.le.trans (hLe (by simp))
  · rcases updateTimer_spec time h with ⟨ev', hTimer, h', hBase⟩
    rw [hGet] at hNext
    simp only [Option.bind_eq_bind, Option.bind_some, hTimer] at hNext
    cases hNext
    exact ⟨pending, h', fun hNe => (hBase hNe).le⟩

/- What an added event makes of the deadlines. -/
theorem mem_deadlines_add
    {evtimer' : Evtimer N} {l : List (Fin N × Nat)} {e : Fin N} {offset : BitVec 32}
    {time : Nat} (h' : evtimer'.Holds (DeltaList.insert e offset.toNat l))
    (hBase : evtimer'.base = time) (x : Fin N × Nat) :
    x ∈ evtimer'.deadlines ↔ x = (e, time + offset.toNat) ∨ x ∈ DeltaList.deadlines time l := by
  unfold Evtimer.deadlines
  rw [h'.pending_eq, hBase, DeltaList.deadlines_insert]
  exact List.mem_orderedInsert _

/- What a removed event leaves of the deadlines. -/
theorem mem_deadlines_del
    {evtimer' : Evtimer N} {l : List (Fin N × Nat)} {e : Fin N} {time : Nat} {x : Fin N × Nat}
    (h' : evtimer'.Holds (DeltaList.erase e l))
    (hBase : DeltaList.erase e l ≠ [] → evtimer'.base = time) (hNe : e ≠ x.1) :
    x ∈ evtimer'.deadlines ↔ x ∈ DeltaList.deadlines time l := by
  have hErase :
      x ∈ DeltaList.deadlines time (DeltaList.erase e l) ↔ x ∈ DeltaList.deadlines time l := by
    rw [DeltaList.deadlines_erase]
    exact List.mem_eraseP_of_neg (by simpa using hNe.symm)
  unfold Evtimer.deadlines
  rw [h'.pending_eq]
  by_cases hNil : DeltaList.erase e l = []
  · rw [hNil] at hErase ⊢
    exact hErase
  · rw [hBase hNil]
    exact hErase

/- A call succeeds, and keeps deadlines exactly if in time. -/
theorem EvtimerInv.call
    (hInv : EvtimerInv s) (hEnabled : op.Enabled s) (hCall : op.event ≠ none) :
    ∃ s', op.exec s = some s' ∧ EvtimerInv s' ∧ (KeepsDeadlines s op s' ↔ HeadInTime s op) := by
  rcases hInv with ⟨pending, h, hBase⟩
  have hTime := hEnabled.1
  have hLe : pending ≠ [] → s.evtimer.base ≤ op.time := fun hNe => (hBase hNe).trans hTime
  cases op with
  | evtimerAdd time e offset =>
    have hNot : e ∉ pending.map Prod.fst := by
      have hFresh := hEnabled.2
      rw [h.pending_eq] at hFresh
      exact hFresh
    rcases evtimerAdd_spec time offset h hNot with ⟨ev', hAdd, h', hBase'⟩
    refine ⟨{ s with evtimer := ev', time }, ?_, ?_, ?_⟩
    · simp [EvtimerOp.exec, hAdd]
    · exact ⟨_, h', fun _ => hBase'.le⟩
    · have hOthers :=
        others_iff (.evtimerAdd time e offset) { s with evtimer := ev', time } h hLe (by
            intro x hNe
            rw [mem_deadlines_add h' hBase' x]
            apply or_iff_right
            rintro rfl
            exact hNe rfl)
      unfold KeepsDeadlines
      rw [hOthers]
      refine and_iff_left ?_
      exact (mem_deadlines_add h' hBase' _).mpr (Or.inl rfl)
  | evtimerDel time e =>
    rcases evtimerDel_spec time (e := e) h with ⟨ev', hDel, h', hBase'⟩
    refine ⟨{ s with evtimer := ev', time }, ?_, ?_, ?_⟩
    · simp [EvtimerOp.exec, hDel]
    · exact ⟨_, h', fun hNe => (hBase' hNe).le⟩
    · have hOthers := others_iff (.evtimerDel time e) { s with evtimer := ev', time } h hLe (by
            intro x hNe
            apply mem_deadlines_del h' hBase'
            rintro rfl
            exact hNe rfl)
      unfold KeepsDeadlines
      rw [hOthers]
      exact and_iff_left trivial
  | evtimerHandler time => exact (hCall rfl).elim
  | callbackReturns time => exact (hCall rfl).elim

/- One step. -/
theorem EvtimerInv.step
    (hInv : EvtimerInv s) (hEnabled : op.Enabled s) (hExec : op.exec s = some s') :
    EvtimerInv s' := by
  by_cases hCall : op.event = none
  · rcases hInv with ⟨pending, h, hBase⟩
    have hTime := hEnabled.1
    have hLe : pending ≠ [] → s.evtimer.base ≤ op.time := fun hNe => (hBase hNe).trans hTime
    cases op with
    | evtimerAdd time e offset => cases hCall
    | evtimerDel time e => cases hCall
    | evtimerHandler time =>
      rcases Option.map_eq_some_iff.mp hExec with ⟨result, hHandler, rfl⟩
      unfold evtimerHandler at hHandler
      cases pending with
      | nil =>
        have hNull : s.evtimer.events = .null := h.events_null_iff.mpr rfl
        have hNull' : ({ s.evtimer with alarm := none } : Evtimer N).events = .null := hNull
        rw [hNull'] at hHandler
        cases hHandler
      | cons x l =>
        rcases x with ⟨e, o⟩
        have hRef : ({ s.evtimer with alarm := none } : Evtimer N).events = .ref e := h.cons.1
        rw [hRef] at hHandler
        have hSet := h.setOffset (v := 0#32) (by simp)
        refine evtimerHandlerNext_inv ((e, 0) :: l) ?_ ?_ hHandler
        · exact ⟨hSet.holds, hSet.deltas, hSet.nodup, hSet.total⟩
        · intro _
          exact hLe (by simp)
    | callbackReturns time =>
      rcases Option.map_eq_some_iff.mp hExec with ⟨result, hNext, rfl⟩
      exact evtimerHandlerNext_inv _ h hLe hNext
  · rcases hInv.call hEnabled hCall with ⟨s'', hSome, hInv', _⟩
    rw [hExec, Option.some_inj] at hSome
    rw [hSome]
    exact hInv'

/-
  In every state that is reached a call succeeds; it keeps
  the other deadlines that are not past, and gives an added
  event its own, exactly if the first event is in time or no
  such deadline is left.
-/
theorem keepsDeadlines_iff_of_reachable
    (s : EvtimerState N) (hReach : (evtimerSystem N).Reachable s) (op : EvtimerOp N)
    (hEnabled : op.Enabled s) (hCall : op.event ≠ none) :
    ∃ s', op.exec s = some s' ∧ (KeepsDeadlines s op s' ↔ HeadInTime s op) := by
  have hInv : EvtimerInv s := by
    refine hReach.invariant (I := EvtimerInv) ?_ ?_
    · rintro s ⟨hNull, _, _⟩
      refine ⟨[], ⟨hNull, rfl, List.nodup_nil, ?_⟩, fun hNe => (hNe rfl).elim⟩
      exact Nat.two_pow_pos 32
    · intro s op s' hInv _ hEnabled hExec
      exact hInv.step hEnabled hExec
  rcases hInv.call hEnabled hCall with ⟨s', hExec, _, hIff⟩
  exact ⟨s', hExec, hIff⟩

/- An event timer with no events. -/
def evtimerStart : EvtimerState 3 where
  evtimer :=
    { mem := ⟨fun _ => .null, fun _ => 0#32⟩
      base := 0
      alarm := none }
  time := 0
  inCallback := false

theorem evtimerStart_start :
    (evtimerSystem 3).Start evtimerStart := ⟨rfl, rfl, rfl⟩

/- A callback adds its event again, in time. -/
theorem keepsDeadlines_of_callbackRun :
    ∃ s s' : EvtimerState 3,
      (evtimerSystem 3).runVia (fun _ _ => True) evtimerStart
          [.evtimerAdd 0 0 10#32, .evtimerAdd 2 1 18#32,
            .evtimerHandler 10, .callbackReturns 10, .evtimerAdd 15 2 30#32] = some s ∧
        s.evtimer.deadlines = [(1, 20), (2, 45)] ∧
        (EvtimerOp.evtimerAdd 20 0 25#32).exec s = some s' ∧
        (KeepsDeadlines s (.evtimerAdd 20 0 25#32) s' ↔ HeadInTime s (.evtimerAdd 20 0 25#32)) := by
  have hRun :
      ((evtimerSystem 3).runVia (fun _ _ => True) evtimerStart
          [.evtimerAdd 0 0 10#32, .evtimerAdd 2 1 18#32,
            .evtimerHandler 10, .callbackReturns 10, .evtimerAdd 15 2 30#32]).any
        (fun s =>
          decide
            (s.evtimer.deadlines = [(1, 20), (2, 45)] ∧
              (EvtimerOp.evtimerAdd 20 0 25#32).Enabled s)) = true := by
    decide +kernel
  rcases System.exists_reachableVia_of_runVia
      evtimerStart_start hRun with
    ⟨s, hEq, hReach, hDeadlines, hEnabled⟩
  rcases keepsDeadlines_iff_of_reachable s hReach
      (.evtimerAdd 20 0 25#32) hEnabled (by simp [EvtimerOp.event])
      with
    ⟨s', hExec, hIff⟩
  exact ⟨s, s', hEq, hDeadlines, hExec, hIff⟩

/-
  The first event is due at 10, the second one at 20.  A call
  at 13, before the handler, moves the second one to 23.
-/
theorem not_keepsDeadlines :
    ∃ s s' : EvtimerState 3, (evtimerSystem 3).Reachable s ∧
        (EvtimerOp.evtimerAdd 13 2 50#32).Enabled s ∧
        (EvtimerOp.evtimerAdd 13 2 50#32).exec s = some s' ∧
        ¬ KeepsDeadlines s (.evtimerAdd 13 2 50#32) s' := by
  have hRun :
      ((evtimerSystem 3).runVia (fun _ _ => True) evtimerStart
          [.evtimerAdd 0 0 10#32, .evtimerAdd 0 1 20#32]).any
        (fun s =>
          decide
            (s.evtimer.deadlines = [(0, 10), (1, 20)] ∧
              (EvtimerOp.evtimerAdd 13 2 50#32).Enabled s ∧
              (((EvtimerOp.evtimerAdd 13 2 50#32).exec s).map
                  (fun s' => s'.evtimer.deadlines)) = some [(0, 13), (1, 23), (2, 63)])) =
        true := by
    decide +kernel
  rcases System.exists_reachableVia_of_runVia
      evtimerStart_start hRun with
    ⟨s, _, hReach, hDeadlines, hEnabled, hAfter⟩
  rcases Option.map_eq_some_iff.mp hAfter with ⟨s', hExec, hMoved⟩
  refine ⟨s, s', hReach, hEnabled, hExec, ?_⟩
  rintro ⟨hKeep, _⟩
  have hFound :=
    hKeep (1, 20) (by simp [hDeadlines]) (by simp [EvtimerOp.event]) (by simp [EvtimerOp.time])
  rw [hMoved] at hFound
  revert hFound
  decide

end Riot
