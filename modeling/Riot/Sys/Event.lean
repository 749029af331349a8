import Riot.Core.Clist
import Riot.Lib.System

/-
  The event queues of `event.c`.

  Each section with interrupts disabled is one step. A thread
  that took an event off a queue clears the list node of the
  event in a later step.
-/

----
-- State
----

namespace Riot

/- Where a thread is in a call. -/
inductive EventPc (H E : Type) where
  -- outside of the functions, with the last result
  | idle
      (result : Option E)
  -- an event was taken, its list node is not cleared yet
  | clear
      (result : E)
  -- before the section of `event_wait_multi`
  | waitPop
      (queues : List H)
  -- in `thread_flags_wait_any`
  | waitFlags
      (queues : List H)
deriving DecidableEq, Repr

variable {H E T : Type}

def EventPc.isIdle : EventPc H E → Bool
| .idle _ => true
| _ => false

structure EventRun (H E T : Type) where
  mem : LinkMem H E
  waiter : H → Option T
  pc : T → EventPc H E
  -- `THREAD_FLAG_EVENT` of each thread
  flags : T → Bool
  -- the flags that posts are still about to set
  notify : List T
  -- posted since its last return and not cancelled since
  posted : E → Bool

variable [DecidableEq H] [DecidableEq E] [DecidableEq T]

----
-- Operations
----

def eventPost
    (r : EventRun H E T) (queue : H) (event : E) : Option (EventRun H E T) :=
  let pushed :=
    if r.mem (.entry event) = .null then
      clistRpush r.mem queue event
    else
      some r.mem
  pushed.map (fun mem =>
    { r with
      mem := mem
      notify := r.notify ++ (r.waiter queue).toList
      posted := Function.update r.posted event true })

/- The end of a post: the flag of the waiter is set. -/
def eventNotify
    (r : EventRun H E T) (t : T) : EventRun H E T :=
  { r with notify := r.notify.erase t, flags := Function.update r.flags t true }

def eventCancel
    [Fintype E]
    (r : EventRun H E T) (queue : H) (event : E) : Option (EventRun H E T) :=
  (clistRemove (Fintype.card E) r.mem queue event).map
    (fun x =>
      { r with
        mem := x.1.set (.entry event) .null
        posted := Function.update r.posted event false })

def EventRun.goto
    (r : EventRun H E T) (t : T) (pc : EventPc H E) : EventRun H E T :=
  { r with pc := Function.update r.pc t pc }

/- The section of `event_get`. -/
def eventGet
    (r : EventRun H E T) (t : T) (queue : H) : Option (EventRun H E T) :=
  (clistLpop r.mem queue).map (fun x =>
    { r with mem := x.1 }.goto t
      (match x.2 with
      | some result => .clear result
      | none => .idle none))

/- The list node is cleared and the event is returned. -/
def eventClear
    (r : EventRun H E T) (t : T) (result : E) : EventRun H E T :=
  { r with
    mem := r.mem.set (.entry result) .null
    posted := Function.update r.posted result false }.goto t (.idle (some result))

/- The first queue that has an event gives it away. -/
def lpopFirst
    (mem : LinkMem H E) :
    List H → Option (LinkMem H E × Option E)
| [] => some (mem, none)
| queue :: queues =>
  match clistLpop mem queue with
  | none => none
  | some (mem', some result) => some (mem', some result)
  | some (mem', none) => lpopFirst mem' queues

/- The section of `event_wait_multi`. -/
def eventWaitPop
    (r : EventRun H E T) (t : T) (queues : List H) : Option (EventRun H E T) :=
  (lpopFirst r.mem queues).map (fun x =>
    { r with mem := x.1 }.goto t
      (match x.2 with
      | some result => .clear result
      | none => .waitFlags queues))

/- The next step of a thread that is in a call. -/
def eventThreadStep
    (r : EventRun H E T) (t : T) : Option (EventRun H E T) :=
  match r.pc t with
  | .idle _ => some r
  | .clear result => some (eventClear r t result)
  | .waitPop queues => eventWaitPop r t queues
  | .waitFlags queues =>
    some ({ r with flags := Function.update r.flags t false }.goto t (.waitPop queues))

----
-- Runs
----

inductive EventAction (H E T : Type) where
  | post
      (event : E)
  | notify
      (t : T)
  | cancel
      (event : E)
  | get
      (t : T)
      (queue : H)
  | wait
      (t : T)
      (queues : List H)
  | step
      (t : T)

/- A thread that waits for its flag goes on when it is set. -/
def EventRun.canStep
    (r : EventRun H E T) (t : T) : Bool :=
  match r.pc t with
  | .idle _ => false
  | .waitFlags _ => r.flags t
  | _ => true

def EventAction.Possible
    (r : EventRun H E T) : EventAction H E T → Prop
| .post _ => True
| .notify t => t ∈ r.notify
| .cancel _ => True
| .get t _ => (r.pc t).isIdle = true
| .wait t queues => (r.pc t).isIdle = true ∧ queues ≠ []
| .step t => r.canStep t = true

variable (queueOf : E → H)

def eventExec
    [Fintype E]
    (r : EventRun H E T) :
    EventAction H E T → Option (EventRun H E T)
| .post event => eventPost r (queueOf event) event
| .notify t => some (eventNotify r t)
| .cancel event => eventCancel r (queueOf event) event
| .get t queue => eventGet r t queue
| .wait t queues => some (r.goto t (.waitPop queues))
| .step t => eventThreadStep r t

/- Empty queues, and events that were never posted. -/
def EventRun.init
    (waiter : H → Option T) : EventRun H E T where
  mem := fun _ => .null
  waiter := waiter
  pc := fun _ => .idle none
  flags := fun _ => false
  notify := []
  posted := fun _ => false

def eventSystem
    [Fintype E] :
    System (EventRun H E T) (EventAction H E T) where
  Start := fun r => ∃ waiter, r = EventRun.init waiter
  Enabled := fun r a => a.Possible r
  exec := fun r a => eventExec queueOf r a

end Riot
