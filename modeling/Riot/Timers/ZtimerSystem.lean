import Riot.Lib.System
import Riot.Timers.ZtimerQueue

/-
  Runs of a clock: timers are set and removed, the alarm goes
  off, and callbacks return, at times that do not decrease.
  Callbacks may set and remove timers as well.

  For the statements only, a state records the unbounded
  values of the clock and of `list.offset`, and what has
  happened so far.
-/

----
-- System
----

namespace Riot

/- What happens to a timer. -/
inductive ZtimerEntry (N : Nat) where
  | set (t : Fin N) (time reading : Nat) (val : BitVec 32)
  | removed (t : Fin N)
  | fired (t : Fin N) (time : Nat)
deriving DecidableEq, Repr

/-
  The handler runs the callback of a timer, for an alarm with
  the given due time, or does not run.
-/
inductive ZtimerPhase (N : Nat) where
  | idle
  | callback (t : Fin N) (due : Nat)
deriving DecidableEq, Repr

/-
  The clock and the time of the last step.  The clock has
  counted `reading` ticks, as far as it has been read, and
  `list.offset` stands for `base`.
-/
structure ZtimerState (N : Nat) where
  clock : ZtimerClock N
  time : Nat
  phase : ZtimerPhase N
  reading : Nat
  base : Nat
  log : List (ZtimerEntry N)

/- Calls, the alarm, and the return of a callback. -/
inductive ZtimerOp (N : Nat) where
  | ztimerSet (time : Nat) (t : Fin N) (val : BitVec 32)
  | ztimerRemove (time : Nat) (t : Fin N)
  | ztimerNow (time : Nat)
  | ztimerHandler (time : Nat)
  | callbackReturns (time : Nat)
deriving DecidableEq, Repr

variable {N : Nat}

/- The next number that a 32-bit counter shows as `v`. -/
def catchUp
    (n : Nat) (v : BitVec 32) : Nat :=
  n + (v - BitVec.ofNat 32 n).toNat

namespace ZtimerState

/- What the clock has counted when it is now as given. -/
def nextReading
    (cfg : ZtimerConfig) (s : ZtimerState N) (time : Nat) (clock : ZtimerClock N) : Nat :=
  if cfg.extended then
    catchUp s.reading clock.checkpoint
  else
    catchUp s.reading (cfg.opsNow time)

/-
  What `list.offset` stands for: the reading, when it shows
  the reading, and else the next number that it shows.
-/
def nextBase
    (cfg : ZtimerConfig) (s : ZtimerState N) (time : Nat) (clock : ZtimerClock N) : Nat :=
  if clock.listOffset =
      BitVec.ofNat 32 (s.nextReading cfg time clock) then
    s.nextReading cfg time clock
  else
    catchUp s.base clock.listOffset

/- The state after a step with the given results. -/
def after
    (cfg : ZtimerConfig) (s : ZtimerState N) (time : Nat) (clock : ZtimerClock N)
    (phase : ZtimerPhase N)
    (log : List (ZtimerEntry N)) : ZtimerState N where
  clock := clock
  time := time
  phase := phase
  reading := s.nextReading cfg time clock
  base := s.nextBase cfg time clock
  log := log

/- The handler has gone on to a callback or to its end. -/
def afterHandler
    (cfg : ZtimerConfig) (s : ZtimerState N) (time due : Nat) (clock : ZtimerClock N) :
    Option (Fin N) → ZtimerState N
| some t => s.after cfg time clock (.callback t due) (.fired t time :: s.log)
| none => s.after cfg time clock .idle s.log

end ZtimerState

namespace ZtimerOp

/- The time of a step. -/
def time : ZtimerOp N → Nat
| .ztimerSet time _ _ => time
| .ztimerRemove time _ => time
| .ztimerNow time => time
| .ztimerHandler time => time
| .callbackReturns time => time

/- The handler is called when the alarm time is reached. -/
def Enabled
    (s : ZtimerState N) (op : ZtimerOp N) : Prop :=
  s.time ≤ op.time ∧
    match op with
    | .ztimerHandler time => s.phase = .idle ∧ ∃ due ∈ s.clock.alarm, due ≤ time
    | .callbackReturns _ => s.phase ≠ .idle
    | _ => True

instance
    (s : ZtimerState N) (op : ZtimerOp N) :
    Decidable (op.Enabled s) := by
  unfold Enabled
  cases op <;> infer_instance

/- The alarm is disarmed when it goes off. -/
def exec
    (cfg : ZtimerConfig) (s : ZtimerState N) : ZtimerOp N → Option (ZtimerState N)
| .ztimerSet time t val => do
    let clock ← Riot.ztimerSet cfg time s.clock t val
    let reading := s.nextReading cfg time clock
    some (s.after cfg time clock s.phase (.set t time reading val :: s.log))
| .ztimerRemove time t => do
    let clock ← Riot.ztimerRemove cfg time s.clock t
    some (s.after cfg time clock s.phase (.removed t :: s.log))
| .ztimerNow time =>
  some (s.after cfg time (Riot.ztimerNow cfg time s.clock).1 s.phase s.log)
| .ztimerHandler time => do
    let due ← s.clock.alarm
    let (clock, entry) ← Riot.ztimerHandler cfg time s.clock.opsCancel
    some (s.afterHandler cfg time due clock entry)
| .callbackReturns time =>
  match s.phase with
  | .callback _ due => do
      let (clock, entry) ← ztimerHandlerNext cfg time s.clock
      some (s.afterHandler cfg time due clock entry)
  | .idle => none

end ZtimerOp

/-
  A clock with no timers whose counter starts.  An extended
  clock has its first alarm armed.
-/
structure ZtimerState.Start
    (cfg : ZtimerConfig)
    (s : ZtimerState N) : Prop where
  listNext : s.clock.listNext = .null
  listOffset : s.clock.listOffset = 0#32
  last : s.clock.last = none
  lowerLast : s.clock.lowerLast = 0#32
  checkpoint : s.clock.checkpoint = 0#32
  pmBlocked : s.clock.pmBlocked = 0
  alarm :
    s.clock.alarm =
      if cfg.extended then
        some (cfg.maxValue.toNat / 2)
      else
        none
  time : s.time = 0
  phase : s.phase = .idle
  reading : s.reading = 0
  base : s.base = 0
  log : s.log = []

def ztimerSystem
    (N : Nat) (cfg : ZtimerConfig) :
    System (ZtimerState N) (ZtimerOp N) where
  Start := ZtimerState.Start cfg
  Enabled := fun s op => op.Enabled s
  exec := ZtimerOp.exec cfg

instance
    (cfg : ZtimerConfig) (s : ZtimerState N) (op : ZtimerOp N) :
    Decidable ((ztimerSystem N cfg).Enabled s op) :=
  inferInstanceAs (Decidable (op.Enabled s))

----
-- Specification
----

/- The timer that an entry is about. -/
def ZtimerEntry.timer : ZtimerEntry N → Fin N
| .set t _ _ _ => t
| .removed t => t
| .fired t _ => t

/- What happened last to a timer. -/
def lastEntry
    (t : Fin N) (log : List (ZtimerEntry N)) : Option (ZtimerEntry N) :=
  log.find? (fun e => e.timer = t)

/-
  Every callback belongs to the last entry of its timer, a
  set at least the time `wait val` before.  So a set leads to
  one callback at most, and to none once it is removed.
-/
def NotEarly
    (wait : BitVec 32 → Nat) :
    List (ZtimerEntry N) → Prop
| [] => True
| .fired t time :: log =>
  (∃ start reading val,
      lastEntry t log = some (.set t start reading val) ∧ start + wait val ≤ time) ∧
    NotEarly wait log
| _ :: log => NotEarly wait log

@[simp]
theorem lastEntry_cons_self
    {e : ZtimerEntry N} {l : List (ZtimerEntry N)} :
    lastEntry e.timer (e :: l) = some e := by
  unfold lastEntry
  rw [List.find?_cons_of_pos (by simp)]

theorem lastEntry_cons_of_ne
    {t : Fin N} {e : ZtimerEntry N} {log : List (ZtimerEntry N)}
    (hNe : e.timer ≠ t) :
    lastEntry t (e :: log) = lastEntry t log := by
  unfold lastEntry
  rw [List.find?_cons_of_neg (by simpa using hNe)]

----
-- Steps on the List of Timers
----

variable {cfg : ZtimerConfig} {s s' : ZtimerState N}
variable {q : ZtimerQueue N} {op : ZtimerOp N}

/- A step, with the lists of timers before and after. -/
inductive ZtimerStep
    (cfg : ZtimerConfig) (s : ZtimerState N) (q : ZtimerQueue N) :
    ZtimerOp N → ZtimerState N → ZtimerQueue N → Prop
| set
    {time : Nat} {t : Fin N} {val : BitVec 32} {clock : ZtimerClock N}
    (hClock : clock.Refines cfg (q.set cfg time t val)) :
    ZtimerStep cfg s q (.ztimerSet time t val)
      (s.after cfg time clock s.phase (.set t time (s.nextReading cfg time clock) val :: s.log))
      (q.set cfg time t val)
| remove
    {time : Nat} {t : Fin N} {counts : Bool} {clock : ZtimerClock N}
    (hCounts : t ∈ q.timers.map Prod.fst → counts = true)
    (hNe : counts = true → q.timers ≠ [])
    (hClock : clock.Refines cfg (q.remove cfg time t counts)) :
    ZtimerStep cfg s q (.ztimerRemove time t)
      (s.after cfg time clock s.phase (.removed t :: s.log))
      (q.remove cfg time t counts)
| now
    {time : Nat} {clock : ZtimerClock N}
    (hClock : clock.Refines cfg (q.read cfg time)) :
    ZtimerStep cfg s q (.ztimerNow time) (s.after cfg time clock s.phase s.log) (q.read cfg time)
| handler
    {time due : Nat} {entry : Option (Fin N)} {q' : ZtimerQueue N} {clock : ZtimerClock N}
    (hAlarm : q.alarm = some due)
    (hHandler : ({ q with alarm := none } : ZtimerQueue N).handler cfg time = some (q', entry))
    (hClock : clock.Refines cfg q') :
    ZtimerStep cfg s q (.ztimerHandler time) (s.afterHandler cfg time due clock entry) q'
| callbackReturns
    {time due : Nat} {t : Fin N} {clock : ZtimerClock N}
    (hPhase : s.phase = .callback t due)
    (hClock : clock.Refines cfg (q.handlerNext cfg time).1) :
    ZtimerStep cfg s q (.callbackReturns time)
      (s.afterHandler cfg time due clock (q.handlerNext cfg time).2)
      (q.handlerNext cfg time).1

namespace ZtimerState

variable {time due : Nat} {clock : ZtimerClock N} {entry : Option (Fin N)}

@[simp]
theorem afterHandler_clock :
    (s.afterHandler cfg time due clock entry).clock = clock := by
  cases entry <;> rfl

@[simp]
theorem afterHandler_time :
    (s.afterHandler cfg time due clock entry).time = time := by
  cases entry <;> rfl

@[simp]
theorem afterHandler_reading :
    (s.afterHandler cfg time due clock entry).reading = s.nextReading cfg time clock := by
  cases entry <;> rfl

@[simp]
theorem afterHandler_base :
    (s.afterHandler cfg time due clock entry).base = s.nextBase cfg time clock := by
  cases entry <;> rfl

end ZtimerState

/- The handler needs a timer if the clock is not extended. -/
theorem handler_ne_none
    {clock : ZtimerClock N} (time : Nat) (h : clock.Refines cfg q)
    (hHandler : ztimerHandler cfg time clock ≠ none) :
    q.handler cfg time ≠ none := by
  intro hNone
  apply hHandler
  unfold ZtimerQueue.handler at hNone
  by_cases hExt : cfg.extended = true
  · rw [if_pos hExt] at hNone
    split at hNone
    · split at hNone
      · cases hNone
      · unfold ZtimerQueue.trigger at hNone
        rw [ZtimerQueue.read_timers] at hNone
        rename_i hList _
        rw [hList] at hNone
        cases hNone
    · cases hNone
  · rw [if_neg hExt] at hNone
    unfold ZtimerQueue.trigger at hNone
    split at hNone
    · cases hNone
    · rename_i hList
      have hNull : clock.listNext = .null := h.timers.next_null_iff.mpr hList
      unfold ztimerHandler ztimerTrigger
      rw [if_neg hExt, hNull]

/- Every step of the code is one on the list of timers. -/
theorem ZtimerOp.exec_step
    (h : s.clock.Refines cfg q) (hExec : op.exec cfg s = some s') :
    ∃ q', s'.clock.Refines cfg q' ∧ ZtimerStep cfg s q op s' q' := by
  cases op with
  | ztimerSet time t val =>
    rcases ztimerSet_refines time val (t := t) h with ⟨c', hSet, h'⟩
    unfold ZtimerOp.exec at hExec
    dsimp only at hExec
    rw [hSet] at hExec
    cases hExec
    exact ⟨_, h', .set h'⟩
  | ztimerRemove time t =>
    rcases ztimerRemove_refines time (t := t) h with ⟨c', hRemove, h'⟩
    unfold ZtimerOp.exec at hExec
    dsimp only at hExec
    rw [hRemove] at hExec
    cases hExec
    exact ⟨_, h', .remove (isSet_of_mem h) (ne_nil_of_isSet h) h'⟩
  | ztimerNow time =>
    cases hExec
    have h' := (ztimerNow_refines time h).1
    exact ⟨_, h', .now h'⟩
  | ztimerHandler time =>
    unfold ZtimerOp.exec at hExec
    simp only [Option.bind_eq_bind] at hExec
    rcases Option.bind_eq_some_iff.mp hExec with ⟨due, hDue, hExec⟩
    rcases Option.bind_eq_some_iff.mp hExec with ⟨⟨c, entry⟩, hHandler, hExec⟩
    cases hExec
    have hCancel : s.clock.opsCancel.Refines cfg { q with alarm := none } :=
      ⟨h.timers, h.listOffset, h.lowerLast, h.checkpoint, rfl⟩
    have hNe := handler_ne_none time hCancel (by rw [hHandler]; simp)
    rcases Option.ne_none_iff_exists'.mp hNe with ⟨⟨q', entry'⟩, hQueue⟩
    rcases ztimerHandler_refines hCancel hQueue with ⟨c', hHandler', h'⟩
    rw [hHandler] at hHandler'
    cases hHandler'
    refine ⟨q', ?_, .handler (h.alarm ▸ hDue) hQueue h'⟩
    rw [ZtimerState.afterHandler_clock]
    exact h'
  | callbackReturns time =>
    unfold ZtimerOp.exec at hExec
    dsimp only at hExec
    split at hExec
    · rename_i t due hPhase
      rcases ztimerHandlerNext_refines time h with ⟨c', hNext, h'⟩
      rw [hNext] at hExec
      cases hExec
      refine ⟨_, ?_, .callbackReturns hPhase h'⟩
      rw [ZtimerState.afterHandler_clock]
      exact h'
    · cases hExec

/- A clock that starts, with timers that were never set. -/
def ztimerStart
    (N : Nat)
    (cfg : ZtimerConfig) : ZtimerState N where
  clock :=
    { mem := ⟨fun _ => .null, fun _ => 0#32⟩
      listOffset := 0#32
      last := none
      lowerLast := 0#32
      checkpoint := 0#32
      pmBlocked := 0
      alarm :=
        if cfg.extended then
          some (cfg.maxValue.toNat / 2)
        else
          none }
  time := 0
  phase := .idle
  reading := 0
  base := 0
  log := []

theorem ztimerStart_start
    (cfg : ZtimerConfig) :
    (ztimerSystem N cfg).Start (ztimerStart N cfg) :=
  ⟨rfl, rfl, rfl, rfl, rfl, rfl, rfl, rfl, rfl, rfl, rfl, rfl⟩

/- A counter of 16 bits. -/
def counter16 : ZtimerConfig where
  moduleExtend := true
  modulePmLayered := false
  maxValue := 0xFFFF#32
  adjustSet := 2#16
  requiredPmMode := 0xFF#8
  maxValue_ne_zero := by decide

/- A counter of 32 bits. -/
def counter32 : ZtimerConfig where
  moduleExtend := false
  modulePmLayered := true
  maxValue := 0xFFFFFFFF#32
  adjustSet := 0#16
  requiredPmMode := 1#8
  maxValue_ne_zero := by decide

/- The list of timers of a clock that starts. -/
def startQueue
    (cfg : ZtimerConfig) : ZtimerQueue N where
  timers := []
  listOffset := 0#32
  lowerLast := 0#32
  checkpoint := 0#32
  alarm :=
    if cfg.extended then
      some (ZtimerQueue.halfRange cfg)
    else
      none

theorem ZtimerState.Start.refines
    (hStart : s.Start cfg) :
    s.clock.Refines cfg (startQueue cfg) := by
  refine ⟨⟨hStart.listNext, rfl, List.nodup_nil, ?_,
    hStart.last, ?_⟩, hStart.listOffset, hStart.lowerLast, hStart.checkpoint, hStart.alarm⟩
  · exact Nat.two_pow_pos 32
  · rw [hStart.pmBlocked, if_neg (by simp [startQueue])]

/-
  What holds of a clock that starts and is kept by every
  admitted step on the list of timers holds in every state
  that is reached.
-/
theorem exists_refines_of_reachable
    {ok : ZtimerState N → ZtimerOp N → Prop} {I : ZtimerState N → ZtimerQueue N → Prop}
    (hReach : (ztimerSystem N cfg).ReachableVia ok s)
    (hStart : ∀ s, s.Start cfg → I s (startQueue cfg))
    (hStep : ∀ s q op s' q', s.clock.Refines cfg q → I s q → ok s op → op.Enabled s →
        s'.clock.Refines cfg q' → ZtimerStep cfg s q op s' q' → I s' q') :
    ∃ q, s.clock.Refines cfg q ∧ I s q := by
  refine hReach.invariant (I := fun s => ∃ q, s.clock.Refines cfg q ∧ I s q) ?_ ?_
  · intro s hs
    exact ⟨_, hs.refines, hStart s hs⟩
  · rintro s op s' ⟨q, h, hI⟩ hOk hEnabled hExec
    rcases ZtimerOp.exec_step h hExec with ⟨q', h', hQueue⟩
    exact ⟨q', h', hStep s q op s' q' h hI hOk hEnabled h' hQueue⟩

end Riot
