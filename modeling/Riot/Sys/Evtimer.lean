import Riot.Lib.DeltaLinks

/-
  Event timers on ztimer, `sys/evtimer/evtimer.c`.

  Each function runs at one point of time, in milliseconds;
  `ztimer_now(ZTIMER_MSEC)` shows its lower 32 bits.  The
  handler is cut at the callbacks it makes.
-/

----
-- Event Timers
----

namespace Riot

/-
  The queue of events, linked from `events`, and the timer.
  The field `base` has the lower 32 bits of the time that is
  stored here.
-/
structure Evtimer (N : Nat) where
  mem : DeltaMem Unit (Fin N)
  base : Nat
  alarm : Option Nat

variable {N : Nat}

/- The field `events`. -/
def Evtimer.events
    (evtimer : Evtimer N) : Link (Fin N) :=
  evtimer.mem.next (.head ())

/- The current time of `ZTIMER_MSEC`. -/
def msecNow
    (time : Nat) : BitVec 32 :=
  BitVec.ofNat 32 time

/- The function `_add_event_to_list`. -/
def addEventToList
    (evtimer : Evtimer N) (event : Fin N) (offset : BitVec 32) : Option (Evtimer N) := do
  let mem ← evtimer.mem.insertFrom event (N + 1) offset (.head ())
  some { evtimer with mem }

/- The function `_del_event_from_list`. -/
def delEventFromList
    (evtimer : Evtimer N) (event : Fin N) : Option (Evtimer N) := do
  let (mem, _) ← evtimer.mem.eraseFrom event (N + 1) (.head ())
  some { evtimer with mem }

/- The function `_set_timer`, for the next event. -/
def setTimer
    (time : Nat) (evtimer : Evtimer N) : Option (Evtimer N) :=
  match evtimer.events with
  | .ref nextEvent =>
    some
      { evtimer with base := time, alarm := some (time + (evtimer.mem.offset nextEvent).toNat) }
  | _ => none

/- The function `_update_timer`. -/
def updateTimer
    (time : Nat) (evtimer : Evtimer N) : Option (Evtimer N) :=
  if evtimer.events = .null then
    some { evtimer with alarm := none }
  else
    setTimer time evtimer

/-
  The function `_update_head_offset`: the time that has
  passed is taken off the first event only.
-/
def updateHeadOffset
    (time : Nat) (evtimer : Evtimer N) : Option (Evtimer N) :=
  match evtimer.events with
  | .ref event =>
    let elapsed := msecNow time - msecNow evtimer.base
    let offset := evtimer.mem.offset event
    some
      { evtimer with
        mem :=
          evtimer.mem.setOffset event
            (if offset < elapsed then
              0#32
            else
              offset - elapsed)
        base := time }
  | .null => some evtimer
  | .mark => none

----
-- Operations
----

/- Add an event, whose field `offset` has the given value. -/
def evtimerAdd
    (time : Nat) (evtimer : Evtimer N) (event : Fin N)
    (offset : BitVec 32) : Option (Evtimer N) := do
  let evtimer ← updateHeadOffset time evtimer
  let evtimer ← addEventToList evtimer event offset
  if evtimer.events = .ref event then
    setTimer time evtimer
  else
    some evtimer

/- Remove an event. -/
def evtimerDel
    (time : Nat) (evtimer : Evtimer N) (event : Fin N) : Option (Evtimer N) := do
  let evtimer ← updateHeadOffset time evtimer
  let evtimer ← delEventFromList evtimer event
  updateTimer time evtimer

/- The function `_get_next`. -/
def getNext
    (evtimer : Evtimer N) :
    Option (Evtimer N × Option (Fin N)) :=
  match evtimer.events with
  | .ref event =>
    if evtimer.mem.offset event = 0#32 then
      some
        ({ evtimer with
            mem :=
              { evtimer.mem with
                next := evtimer.mem.next.set (.head ()) (evtimer.mem.next (.entry event)) } },
          some event)
    else
      some (evtimer, none)
  | .null => some (evtimer, none)
  | .mark => none

/- The handler, from one callback to the next or the end. -/
def evtimerHandlerNext
    (time : Nat) (evtimer : Evtimer N) :
    Option (Evtimer N × Option (Fin N)) := do
  match ← getNext evtimer with
  | (evtimer, some event) => some (evtimer, some event)
  | (evtimer, none) =>
    let evtimer ← updateTimer time evtimer
    some (evtimer, none)

/- The handler, up to the first callback. -/
def evtimerHandler
    (time : Nat) (evtimer : Evtimer N) :
    Option (Evtimer N × Option (Fin N)) :=
  match evtimer.events with
  | .ref event =>
    evtimerHandlerNext time { evtimer with mem := evtimer.mem.setOffset event 0#32 }
  | _ => none

end Riot
