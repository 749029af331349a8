import Riot.Core.Msg

/-
  Mailboxes, `mbox.c`.

  A put into a full mailbox blocks in the middle: what
  follows the wait in `_mbox_put` is `mboxQueue`, which the
  woken caller executes when it runs again.  The message
  object of a call is that of the caller.
-/

----
-- Waiting and Waking
----

namespace Riot

variable {N : Nat}

/- Store the counters and the array of a mailbox. -/
def Kernel.setMbox
    (k : Kernel N) (mbox : Nat) (cib : Cib) (array : Nat → Msg) : Kernel N :=
  { k with mbox := Function.update k.mbox mbox ⟨cib, array⟩ }

/- Initialise a mailbox; the size is not checked. -/
def mboxInit
    (k : Kernel N) (mbox : Nat) (queue : Nat → Msg) (queueSize : Nat) : Kernel N :=
  let readers : Cell (ListHead N) (Fin N) := .head (.waiting (.mboxReaders mbox))
  let writers : Cell (ListHead N) (Fin N) := .head (.waiting (.mboxWriters mbox))
  { k.setMbox mbox
      ⟨0#32, 0#32, BitVec.ofNat 32 queueSize - 1#32⟩
      queue with
    next := (k.next.set readers .null).set writers .null }

/- The function `_wake_waiter`. -/
def wakeWaiter
    (setStatus : StatusFn N) (k : Kernel N) (thread : Fin N) : Option (Kernel N) := do
  let k₁ ← setStatus k thread .pending
  schedSwitch false k₁ (k₁.thread thread).priority

/- The function `_wait`, up to its yield. -/
def mboxWait
    (setStatus : StatusFn N) (k : Kernel N) (waitList : WaitHead N) : Option (Kernel N) := do
  let me ← k.schedActiveThread
  let k₁ ← setStatus k me .mboxBlocked
  let k₂ ← threadAddToList k₁ waitList me
  threadYield k₂

----
-- Put and Get
----

/-
  The end of `_mbox_put`: the caller's message is copied into
  the array, with no check for space.
-/
def mboxQueue
    (k : Kernel N) (mbox : Nat) : Option (Kernel N) := do
  let me ← k.schedActiveThread
  let m : Msg := { k.msgBuffer me with senderPid := k.schedActivePid }
  let (cib, index) := cibPutUnsafe (k.mbox mbox).cib
  some ((k.setBuffer me m).setMbox mbox cib (Function.update (k.mbox mbox).msgArray index m))

/- The function `_mbox_put`. -/
def mboxPutWith
    (setStatus : StatusFn N) (k : Kernel N) (mbox : Nat) (m : Msg)
    (blocking : Bool) : Option (Kernel N × Outcome) := do
  let me ← k.schedActiveThread
  let k₀ := k.setBuffer me m
  let (mem, next) ← listRemoveHead k₀.next (.waiting (.mboxReaders mbox))
  let k₁ := { k₀ with next := mem }
  match next with
  | some thread =>
    let target ← (k₁.thread thread).waitData
    let k₂ ← wakeWaiter setStatus (k₁.setBuffer target (k₁.msgBuffer me)) thread
    some (k₂, .returned 1)
  | none =>
    if cibFull (k₁.mbox mbox).cib then
      if blocking then
        let k₂ ← mboxWait setStatus k₁ (.mboxWriters mbox)
        some (k₂, .blocked)
      else
        some (k₁, .returned 0)
    else
      let k₂ ← mboxQueue k₁ mbox
      some (k₂, .returned 1)

/- Wake the first writer that waits, if there is one. -/
def wakeWriter
    (setStatus : StatusFn N) (k : Kernel N) (mbox : Nat) : Option (Kernel N) := do
  let (mem, next) ← listRemoveHead k.next (.waiting (.mboxWriters mbox))
  let k₁ := { k with next := mem }
  match next with
  | some thread => wakeWaiter setStatus k₁ thread
  | none => some k₁

/- The function `_mbox_get`. -/
def mboxGetWith
    (setStatus : StatusFn N) (k : Kernel N) (mbox : Nat)
    (blocking : Bool) : Option (Kernel N × Outcome) := do
  let me ← k.schedActiveThread
  if cibAvail (k.mbox mbox).cib ≠ 0#32 then
    let (cib, index) := cibGetUnsafe (k.mbox mbox).cib
    let array := (k.mbox mbox).msgArray
    let k₁ := (k.setMbox mbox cib array).setBuffer me (array index)
    let k₂ ← wakeWriter setStatus k₁ mbox
    some (k₂, .returned 1)
  else if blocking then
    let k₁ ← mboxWait setStatus (k.setWaitData me (some me)) (.mboxReaders mbox)
    some (k₁, .blocked)
  else
    some (k, .returned 0)

/- Add a message, blocking. -/
def mboxPut
    (setStatus : StatusFn N) (k : Kernel N) (mbox : Nat)
    (m : Msg) : Option (Kernel N × Outcome) :=
  mboxPutWith setStatus k mbox m true

/- Add a message, non-blocking. -/
def mboxTryPut
    (setStatus : StatusFn N) (k : Kernel N) (mbox : Nat)
    (m : Msg) : Option (Kernel N × Outcome) :=
  mboxPutWith setStatus k mbox m false

/- Get a message, blocking. -/
def mboxGet
    (setStatus : StatusFn N) (k : Kernel N) (mbox : Nat) : Option (Kernel N × Outcome) :=
  mboxGetWith setStatus k mbox true

/- Get a message, non-blocking. -/
def mboxTryGet
    (setStatus : StatusFn N) (k : Kernel N) (mbox : Nat) : Option (Kernel N × Outcome) :=
  mboxGetWith setStatus k mbox false

end Riot
