import Riot.Lib.DeltaLinks

/-
  The clocks of `sys/ztimer/core.c`.

  Each function runs at one point of time, a number of ticks
  since the counter of the clock has started.  The backend
  operations are a counter, read by `now`, and one alarm,
  which `set` arms for a later time and `cancel` disarms.

  The handler is cut at the callbacks it makes: it returns
  the timer whose callback runs, and `ztimerHandlerNext` goes
  on when the callback has returned.
-/

----
-- Clocks
----

namespace Riot

/-
  The fields of a clock that stay, and the modules of the
  build.  `_ztimer_now_extend` asserts the last one.
-/
structure ZtimerConfig where
  moduleExtend : Bool
  modulePmLayered : Bool
  maxValue : BitVec 32
  adjustSet : BitVec 16
  requiredPmMode : BitVec 8
  maxValue_ne_zero : maxValue ≠ 0#32

/-
  The list, the checkpoint and the alarm of a clock.  Timers
  are the members of the list; `pmBlocked` counts the calls
  of `pm_block` less those of `pm_unblock`.
-/
structure ZtimerClock (N : Nat) where
  mem : DeltaMem Unit (Fin N)
  listOffset : BitVec 32
  last : Option (Fin N)
  lowerLast : BitVec 32
  checkpoint : BitVec 32
  pmBlocked : Int
  alarm : Option Nat

namespace ZtimerConfig

/- The counter is extended in software. -/
def extended
    (cfg : ZtimerConfig) : Bool :=
  cfg.moduleExtend && cfg.maxValue.toNat < 2 ^ 32 - 1

/- The clock uses a power mode. -/
def usesPm
    (cfg : ZtimerConfig) : Bool :=
  cfg.modulePmLayered && cfg.requiredPmMode != 0xFF#8

/- The number of values of the counter. -/
def period
    (cfg : ZtimerConfig) : Nat :=
  if cfg.extended then cfg.maxValue.toNat + 1 else 2 ^ 32

/- The operation `now` of the backend. -/
def opsNow
    (cfg : ZtimerConfig) (time : Nat) : BitVec 32 :=
  BitVec.ofNat 32 (time % cfg.period)

end ZtimerConfig

namespace ZtimerClock

variable {N : Nat}

/- The operation `set` of the backend. -/
def opsSet
    (clock : ZtimerClock N) (time : Nat) (val : BitVec 32) : ZtimerClock N :=
  { clock with alarm := some (time + val.toNat) }

/- The operation `cancel` of the backend. -/
def opsCancel
    (clock : ZtimerClock N) : ZtimerClock N :=
  { clock with alarm := none }

/- The field `list.next`. -/
def listNext
    (clock : ZtimerClock N) : Link (Fin N) :=
  clock.mem.next (.head ())

/- Block the power mode of the clock. -/
def pmBlock
    (cfg : ZtimerConfig) (clock : ZtimerClock N) : ZtimerClock N :=
  if cfg.usesPm then
    { clock with pmBlocked := clock.pmBlocked + 1 }
  else
    clock

/- Unblock the power mode of the clock. -/
def pmUnblock
    (cfg : ZtimerConfig) (clock : ZtimerClock N) : ZtimerClock N :=
  if cfg.usesPm then
    { clock with pmBlocked := clock.pmBlocked - 1 }
  else
    clock

end ZtimerClock

----
-- Time
----

variable {N : Nat}

def minU32
    (a b : BitVec 32) : BitVec 32 :=
  if a < b then a else b

def addModulo
    (a b mod : BitVec 32) : BitVec 32 :=
  if a < b then a + (mod + 1#32) - b else a - b

/- The function `_ztimer_now_extend`. -/
def ztimerNowExtend
    (cfg : ZtimerConfig) (time : Nat) (clock : ZtimerClock N) : ZtimerClock N × BitVec 32 :=
  let lowerNow := cfg.opsNow time
  let checkpoint := clock.checkpoint + addModulo lowerNow clock.lowerLast cfg.maxValue
  ({ clock with checkpoint, lowerLast := lowerNow }, checkpoint)

/- The current time, with a checkpoint if it is extended. -/
def ztimerNow
    (cfg : ZtimerConfig) (time : Nat) (clock : ZtimerClock N) : ZtimerClock N × BitVec 32 :=
  if cfg.extended then
    ztimerNowExtend cfg time clock
  else
    (clock, cfg.opsNow time)

/-
  Move `list.offset` to the current time, and take what has
  passed off the first timers.
-/
def ztimerUpdateHeadOffset
    (cfg : ZtimerConfig) (time : Nat) (clock : ZtimerClock N) : Option (ZtimerClock N) := do
  let oldBase := clock.listOffset
  let (clock, now) := ztimerNow cfg time clock
  let diff := now - oldBase
  let mem ←
    match clock.listNext with
    | .ref entry => clock.mem.advanceFrom (N + 1) diff entry
    | .null => some clock.mem
    | .mark => none
  some { clock with mem, listOffset := now }

----
-- The List of Timers
----

/- The timer counts as set. -/
def isSet
    (clock : ZtimerClock N) (t : Fin N) : Bool :=
  if clock.listNext = .null then
    false
  else
    clock.mem.next (.entry t) ≠ .null || clock.last = some t

/-
  The place of a new entry: past all entries which are set
  to an earlier target.
-/
def findPlace
    (mem : DeltaMem Unit (Fin N)) (offset : BitVec 32) :
    Nat → BitVec 32 → Cell Unit (Fin N) → Option (Cell Unit (Fin N) × BitVec 32)
| 0, _, _ => none
| fuel + 1, deltaSum, list =>
  match mem.next list with
  | .ref entry =>
    if offset < mem.offset entry + deltaSum then
      some (list, deltaSum)
    else
      findPlace mem offset fuel (deltaSum + mem.offset entry) (.entry entry)
  | .null => some (list, deltaSum)
  | .mark => none

/-
  The function `_add_entry_to_list`, for an entry with the
  given offset.
-/
def addEntryToList
    (cfg : ZtimerConfig) (clock : ZtimerClock N) (entry : Fin N)
    (offset : BitVec 32) : Option (ZtimerClock N) := do
  let clock :=
    if clock.listNext = .null then
      clock.pmBlock cfg
    else
      clock
  let (list, deltaSum) ← findPlace clock.mem offset (N + 1) 0#32 (.head ())
  some
    { clock with
      mem := clock.mem.insertAt list entry (offset - deltaSum)
      last :=
        if clock.mem.next list = .null then
          some entry
        else
          clock.last }

/- The entry that has a field, none for the list itself. -/
def Cell.owner : Cell Unit (Fin N) → Option (Fin N)
| .head _ => none
| .entry e => some e

/-
  The function `_del_entry_from_list`.  An entry that is not
  in the list leaves it as it is.
-/
def delEntryFromList
    (cfg : ZtimerConfig) (clock : ZtimerClock N) (entry : Fin N) : Option (ZtimerClock N) := do
  let (mem, found) ← clock.mem.eraseFrom entry (N + 1) (.head ())
  let clock : ZtimerClock N :=
    match found with
    | some list =>
      { clock with
        mem := { mem with next := mem.next.set (.entry entry) .null }
        last :=
          if clock.last = some entry then
            Cell.owner list
          else
            clock.last }
    | none => clock
  if clock.listNext = .null then
    some (clock.pmUnblock cfg)
  else
    some clock

/- Take the first timer out if it is due. -/
def nowNext
    (cfg : ZtimerConfig) (clock : ZtimerClock N) :
    Option (ZtimerClock N × Option (Fin N)) :=
  match clock.listNext with
  | .ref entry =>
    if clock.mem.offset entry = 0#32 then
      let next := clock.mem.next (.entry entry)
      let clock : ZtimerClock N :=
        { clock with
          mem := { clock.mem with next := clock.mem.next.set (.head ()) next } }
      if next = .null then
        some (({ clock with last := none } : ZtimerClock N).pmUnblock cfg, some entry)
      else
        some (clock, some entry)
    else
      some (clock, none)
  | .null => some (clock, none)
  | .mark => none

----
-- Operations
----

/- Arm the alarm for the first timer. -/
def ztimerUpdate
    (cfg : ZtimerConfig) (time : Nat) (clock : ZtimerClock N) : Option (ZtimerClock N) :=
  match clock.listNext with
  | .ref head =>
    let offset := clock.mem.offset head
    if cfg.extended then
      some (clock.opsSet time (minU32 offset (cfg.maxValue >>> 1)))
    else
      some (clock.opsSet time offset)
  | .null =>
    if cfg.extended then
      some (clock.opsSet time (cfg.maxValue >>> 1))
    else
      some clock.opsCancel
  | .mark => none

def ztimerRemove
    (cfg : ZtimerConfig) (time : Nat) (clock : ZtimerClock N)
    (timer : Fin N) : Option (ZtimerClock N) := do
  if isSet clock timer then
    let clock ← ztimerUpdateHeadOffset cfg time clock
    let clock ← delEntryFromList cfg clock timer
    ztimerUpdate cfg time clock
  else
    some clock

/- The value less the adjustment of the clock. -/
def adjusted
    (cfg : ZtimerConfig) (val : BitVec 32) : BitVec 32 :=
  if cfg.adjustSet.setWidth 32 < val then
    val - cfg.adjustSet.setWidth 32
  else
    0#32

/- A timer that is set is taken out before it is set again. -/
def delIfSet
    (cfg : ZtimerConfig) (clock : ZtimerClock N) (timer : Fin N) : Option (ZtimerClock N) :=
  if isSet clock timer then
    delEntryFromList cfg clock timer
  else
    some clock

def ztimerSet
    (cfg : ZtimerConfig) (time : Nat) (clock : ZtimerClock N) (timer : Fin N)
    (val : BitVec 32) : Option (ZtimerClock N) := do
  let clock ← ztimerUpdateHeadOffset cfg time clock
  let clock ← delIfSet cfg clock timer
  let val := adjusted cfg val
  let clock ← addEntryToList cfg clock timer val
  if clock.listNext = .ref timer then
    if cfg.extended then
      some (clock.opsSet time (minU32 val (cfg.maxValue >>> 1)))
    else
      some (clock.opsSet time val)
  else
    some clock

/-
  The handler triggers the first timer, which is due.  Some
  entry is returned if its callback runs.
-/
def ztimerTrigger
    (cfg : ZtimerConfig) (clock : ZtimerClock N) :
    Option (ZtimerClock N × Option (Fin N)) :=
  match clock.listNext with
  | .ref head =>
    nowNext cfg
      { clock with
        listOffset := clock.listOffset + clock.mem.offset head
        mem := clock.mem.setOffset head 0#32 }
  | _ => none

/- The handler, up to the first callback. -/
def ztimerHandler
    (cfg : ZtimerConfig) (time : Nat) (clock : ZtimerClock N) :
    Option (ZtimerClock N × Option (Fin N)) :=
  if cfg.extended then
    let (clock, now) := ztimerNow cfg time clock
    match clock.listNext with
    | .ref head =>
      let target := clock.listOffset + clock.mem.offset head
      let diff := target - now
      if 0 < diff.toInt then
        some (clock.opsSet time (minU32 diff (cfg.maxValue >>> 1)), none)
      else
        ztimerTrigger cfg clock
    | .null => some (clock.opsSet time (cfg.maxValue >>> 1), none)
    | .mark => none
  else
    ztimerTrigger cfg clock

/- The handler, from one callback to the next or the end. -/
def ztimerHandlerNext
    (cfg : ZtimerConfig) (time : Nat) (clock : ZtimerClock N) :
    Option (ZtimerClock N × Option (Fin N)) := do
  match ← nowNext cfg clock with
  | (clock, some entry) => some (clock, some entry)
  | (clock, none) =>
    let clock ← ztimerUpdateHeadOffset cfg time clock
    match ← nowNext cfg clock with
    | (clock, some entry) => some (clock, some entry)
    | (clock, none) =>
      let clock ← ztimerUpdate cfg time clock
      some (clock, none)

end Riot
