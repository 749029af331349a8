import Riot.Core.Mbox
import Riot.Lib.System
import Riot.Protocols.WaitLists

/-
  Threads at a mailbox.

  Any thread that is not blocked may make the next call.  A
  thread that waited and was woken goes on with `resume`, at
  any later time.
-/

----
-- System
----

namespace Riot

/- The call that a thread has not returned from. -/
inductive MboxCall where
  | putting
  | getting
deriving DecidableEq, Repr

/- The list that the call waits in. -/
def MboxCall.list
    {N : Nat}
    (mbox : Nat) : MboxCall → WaitHead N
| .putting => .mboxWriters mbox
| .getting => .mboxReaders mbox

/-
  The kernel, with the messages that puts have accepted and
  gets have returned so far.
-/
structure MboxState (N : Nat) where
  kernel : Kernel N
  call : Fin N → Option MboxCall
  accepted : List Msg
  returned : List Msg

/-
  Calls of threads.  A thread that was woken ends its call
  with `resume`.
-/
inductive MboxOp (N : Nat) where
  | mboxPut (t : Fin N) (m : Msg)
  | mboxTryPut (t : Fin N) (m : Msg)
  | mboxGet (t : Fin N)
  | mboxTryGet (t : Fin N)
  | resume (t : Fin N)
deriving DecidableEq, Repr

variable {N : Nat}

namespace MboxState

/- The put of `t` is over; its object holds the message. -/
def accept
    (s : MboxState N) (t : Fin N) (k : Kernel N) : MboxState N :=
  { s with kernel := k, accepted := k.msgBuffer t :: s.accepted }

/- The get of `t` is over; its object holds the message. -/
def deliver
    (s : MboxState N) (t : Fin N) (k : Kernel N) : MboxState N :=
  { s with kernel := k, returned := k.msgBuffer t :: s.returned }

/- The thread waits in a call. -/
def block
    (s : MboxState N) (t : Fin N) (c : MboxCall) (k : Kernel N) : MboxState N :=
  { s with kernel := k, call := Function.update s.call t (some c) }

/- The thread has left its call. -/
def leave
    (s : MboxState N) (t : Fin N) : MboxState N :=
  { s with call := Function.update s.call t none }

/- The result of a put. -/
def afterPut
    (s : MboxState N) (t : Fin N) (result : Kernel N × Outcome) : MboxState N :=
  match result with
  | (k, .returned value) =>
    if value = 1 then s.accept t k else { s with kernel := k }
  | (k, .blocked) => s.block t .putting k

/- The result of a get. -/
def afterGet
    (s : MboxState N) (t : Fin N) (result : Kernel N × Outcome) : MboxState N :=
  match result with
  | (k, .returned value) =>
    if value = 1 then s.deliver t k else { s with kernel := k }
  | (k, .blocked) => s.block t .getting k

end MboxState

namespace MboxOp

/- Blocked threads do nothing; calls are made one at a time. -/
def Enabled
    (s : MboxState N) : MboxOp N → Prop
| .mboxPut t _ => s.kernel.runnable t = true ∧ s.call t = none
| .mboxTryPut t _ => s.kernel.runnable t = true ∧ s.call t = none
| .mboxGet t => s.kernel.runnable t = true ∧ s.call t = none
| .mboxTryGet t => s.kernel.runnable t = true ∧ s.call t = none
| .resume t => s.kernel.runnable t = true ∧ s.call t ≠ none

instance
    (s : MboxState N) (op : MboxOp N) :
    Decidable (Enabled s op) := by
  cases op <;> unfold Enabled <;> infer_instance

/- The effect of a step on the mailbox. -/
def exec
    (mbox : Nat) (s : MboxState N) : MboxOp N → Option (MboxState N)
| .mboxPut t m => (Riot.mboxPut storeStatus (s.kernel.dispatch t) mbox m).map (s.afterPut t)
| .mboxTryPut t m =>
  (Riot.mboxTryPut storeStatus (s.kernel.dispatch t) mbox m).map (s.afterPut t)
| .mboxGet t => (Riot.mboxGet storeStatus (s.kernel.dispatch t) mbox).map (s.afterGet t)
| .mboxTryGet t =>
  (Riot.mboxTryGet storeStatus (s.kernel.dispatch t) mbox).map (s.afterGet t)
| .resume t =>
  match s.call t with
  | some .putting =>
    (mboxQueue (s.kernel.dispatch t) mbox).map (fun k => (s.accept t k).leave t)
  | some .getting => some ((s.deliver t s.kernel).leave t)
  | none => none

end MboxOp

/-
  The mailbox has just been initialised with `2 ^ j` cells;
  no thread waits, whatever their statuses are.
-/
def mboxSystem
    (N mbox j : Nat) : System (MboxState N) (MboxOp N) where
  Start := fun s =>
    (∃ k queue, (∀ h, k.next (.head h) = .null) ∧ (∀ t, (k.thread t).status ≠ .mboxBlocked) ∧
          s.kernel = mboxInit k mbox queue (2 ^ j)) ∧ (∀ t, s.call t = none) ∧ s.accepted = [] ∧
      s.returned = []
  Enabled := MboxOp.Enabled
  exec := MboxOp.exec mbox

instance
    (mbox j : Nat) (s : MboxState N) (op : MboxOp N) :
    Decidable ((mboxSystem N mbox j).Enabled s op) :=
  inferInstanceAs (Decidable (op.Enabled s))

----
-- Safety
----

/- The message in the object of a reader that was woken. -/
def MboxState.handedTo
    (s : MboxState N) (t : Fin N) : Option Msg :=
  if s.call t = some .getting ∧ s.kernel.runnable t = true then
    some (s.kernel.msgBuffer t)
  else
    none

/- The messages of all woken readers. -/
def MboxState.handed
    (s : MboxState N) : List Msg :=
  (List.finRange N).filterMap s.handedTo

/- The messages in the array of the mailbox. -/
def MboxState.queued
    (s : MboxState N) (mbox : Nat) : List Msg :=
  cibItems (s.kernel.mbox mbox).cib (s.kernel.mbox mbox).msgArray

/- The readers that wait, first to last. -/
def MboxState.readers
    (s : MboxState N) (mbox : Nat) : List (Fin N) :=
  LinkMem.listNodes N s.kernel.next (.waiting (.mboxReaders mbox))

/-
  Every accepted message has been returned by one get, is in
  the object of one woken reader, or is once in the array.
-/
structure MboxSafe
    (mbox j : Nat)
    (s : MboxState N) : Prop where
  bounded : (cibAvail (s.kernel.mbox mbox).cib).toNat ≤ 2 ^ j
  readers : s.readers mbox ≠ [] → cibAvail (s.kernel.mbox mbox).cib = 0#32
  conserved :
    ∀ m, s.returned.count m + s.handed.count m + (s.queued mbox).count m = s.accepted.count m

/-
  The condition on a step: a woken writer that goes on finds
  space, and no reader that waits.
-/
def MboxStep
    (mbox : Nat)
    (s : MboxState N) : MboxOp N → Prop
| .resume t =>
  s.call t = some .putting → cibFull (s.kernel.mbox mbox).cib = false ∧
      s.kernel.next (.head (.waiting (.mboxReaders mbox))) = .null
| _ => True

instance
    (mbox : Nat) (s : MboxState N) (op : MboxOp N) :
    Decidable (MboxStep mbox s op) := by
  cases op <;> unfold MboxStep <;> infer_instance

----
-- Blocked Threads
----

/-
  The wait lists `w` have exactly the threads that are
  blocked in a call; readers wait with their own objects.
-/
structure MboxLinked
    (mbox : Nat) (k : Kernel N) (call : Fin N → Option MboxCall)
    (w : WaitHead N → List (Fin N)) : Prop where
  lists : WaitLists k.next w
  unmarked : ∀ c : MboxCall, k.next (.head (.waiting (c.list mbox))) ≠ .mark
  waiting :
    ∀ h t, t ∈ w h ↔ (k.thread t).status = .mboxBlocked ∧ ∃ c, call t = some c ∧ h = c.list mbox
  objects : ∀ t, call t = some .getting → (k.thread t).waitData = some t

/- Different calls wait in different lists. -/
theorem MboxCall.list_inj
    {mbox : Nat} {c c' : MboxCall}
    (hEq : (c.list mbox : WaitHead N) = c'.list mbox) :
    c = c' := by
  cases c
  · cases c'
    · rfl
    · cases hEq
  · cases c'
    · cases hEq
    · rfl

/-
  One status and the links have changed, and at most message
  objects besides.
-/
structure MboxFrame
    (k k' : Kernel N) (t : Fin N) (status : ThreadStatus)
    (mem : LinkMem (ListHead N) (Fin N)) : Prop where
  next : k'.next = mem
  mbox : k'.mbox = k.mbox
  status :
    ∀ u, (k'.thread u).status =
        if u = t then status else (k.thread u).status
  data : ∀ u, (k'.thread u).waitData = (k.thread u).waitData

/- Waking is a store and a flag. -/
theorem wakeWaiter_eq
    {k : Kernel N} {t : Fin N} (x : Fin N)
    (hActive : k.schedActiveThread = some t) :
    ∃ k', wakeWaiter storeStatus k x = some k' ∧ MboxFrame k k' x .pending k.next ∧
        k'.msgBuffer = k.msgBuffer := by
  rcases schedSwitch_eq (k := k.setStatus x .pending) false
      ((k.setStatus x .pending).thread x).priority hActive with
    ⟨k', hSwitch, r, p, rfl⟩
  refine ⟨_, hSwitch, ⟨rfl, rfl, ?_, ?_⟩, rfl⟩
  · intro u
    exact k.setStatus_status x u .pending
  · intro u
    exact k.setStatus_waitData x u .pending

namespace MboxLinked

variable {mbox : Nat} {k k' : Kernel N} {call : Fin N → Option MboxCall}
variable {w : WaitHead N → List (Fin N)} {t x : Fin N} {c : MboxCall}

section

variable (hL : MboxLinked mbox k call w)

include hL

/- The fields that the lists rest on. -/
theorem congr
    (hNext : k'.next = k.next)
    (hStatus : ∀ u, (k'.thread u).status = (k.thread u).status)
    (hData : ∀ u, (k'.thread u).waitData = (k.thread u).waitData) :
    MboxLinked mbox k' call w where
  lists := by
    rw [hNext]
    exact hL.lists
  unmarked := by
    rw [hNext]
    exact hL.unmarked
  waiting := by
    intro h u
    rw [hStatus]
    exact hL.waiting h u
  objects := by
    intro u hCall
    rw [hData]
    exact hL.objects u hCall

/- A thread names its own object. -/
theorem setWaitData
    (t : Fin N) :
    MboxLinked mbox (k.setWaitData t (some t)) call w := by
  have hStatus : ∀ u, ((k.setWaitData t (some t)).thread u).status = (k.thread u).status :=
    k.setThread_keeps Thread.status rfl
  refine ⟨hL.lists, hL.unmarked, ?_, ?_⟩
  · intro h u
    rw [hStatus]
    exact hL.waiting h u
  · intro u hCall
    unfold Kernel.setWaitData
    by_cases hSelf : u = t
    · subst hSelf
      rw [k.setThread_thread_same]
    · rw [k.setThread_thread_of_ne _ hSelf]
      exact hL.objects u hCall

/- A thread that can run is in no list. -/
theorem off_of_runnable
    (hRuns : k.runnable t = true) (h : WaitHead N) :
    t ∉ w h := by
  intro hIn
  have hStatus := ((hL.waiting h t).mp hIn).1
  unfold Kernel.runnable at hRuns
  rw [hStatus] at hRuns
  cases hRuns

/- The first thread of a list is woken. -/
theorem wake
    {l : List (Fin N)} (hList : w (c.list mbox) = x :: l) :
    ∃ mem, listRemoveHead k.next (.waiting (c.list mbox)) = some (mem, some x) ∧
        ∀ k', MboxFrame k k' x .pending mem →
          MboxLinked mbox k' call (Function.update w (c.list mbox) l) := by
  rcases hL.lists.takeFirst hList with ⟨mem, hRemove, hLists, hMark, hHeads⟩
  have hFirst : x ∈ w (c.list mbox) := by
    rw [hList]
    exact List.mem_cons_self
  have hNodup := (hL.lists.waits (c.list mbox)).nodup
  rw [hList, List.nodup_cons] at hNodup
  refine ⟨mem, hRemove, ?_⟩
  intro k' hFrame
  constructor
  · rw [hFrame.next]
    exact hLists
  · intro c'
    rw [hFrame.next]
    by_cases hEq : c' = c
    · subst hEq
      exact hMark
    · refine ne_of_eq_of_ne (hHeads _ ?_) (hL.unmarked c')
      intro hSame
      apply hEq
      exact MboxCall.list_inj (N := N) (by simpa using hSame)
  · intro h u
    rw [hFrame.status]
    by_cases hSelf : u = x
    · subst hSelf
      rw [if_pos rfl]
      constructor
      · intro hIn
        by_cases hHead : h = c.list mbox
        · rw [hHead, Function.update_self] at hIn
          exact (hNodup.1 hIn).elim
        · rw [Function.update_of_ne hHead] at hIn
          exact (hHead (hL.lists.single _ _ u hIn hFirst)).elim
      · rintro ⟨hStatus, _⟩
        cases hStatus
    · rw [if_neg hSelf]
      refine Iff.trans ?_ (hL.waiting h u)
      by_cases hHead : h = c.list mbox
      · subst hHead
        rw [Function.update_self, hList, List.mem_cons]
        simp [hSelf]
      · rw [Function.update_of_ne hHead]
  · intro u hCall
    rw [hFrame.data]
    exact hL.objects u hCall

/- The first writer is woken, if there is one. -/
theorem wakeWriter
    (hActive : k.schedActiveThread = some t) :
    ∃ k' w', Riot.wakeWriter storeStatus k mbox = some k' ∧ MboxLinked mbox k' call w' ∧
        w' (.mboxReaders mbox) = w (.mboxReaders mbox) ∧ k'.mbox = k.mbox ∧
        k'.msgBuffer = k.msgBuffer ∧
        ∀ u, call u ≠ some .putting → (k'.thread u).status = (k.thread u).status := by
  unfold Riot.wakeWriter
  cases hWriters : w (.mboxWriters mbox) with
  | nil =>
    have hRemove : listRemoveHead k.next (.waiting (.mboxWriters mbox)) = some (k.next, none) :=
      hL.lists.removeHead_nil (hL.unmarked .putting) hWriters
    rw [hRemove]
    exact ⟨k, w, rfl, hL, rfl, rfl, rfl, fun _ _ => rfl⟩
  | cons x l =>
    rcases hL.wake (c := .putting) hWriters with ⟨mem, hRemove, hLinked⟩
    have hRemove' :
        listRemoveHead k.next (.waiting (.mboxWriters mbox)) = some (mem, some x) := hRemove
    rcases wakeWaiter_eq (k := { k with next := mem }) x hActive with ⟨k', hWake, hFrame, hBuffer⟩
    rw [hRemove']
    refine ⟨k', Function.update w (.mboxWriters mbox) l, hWake, ?_, rfl, hFrame.mbox, hBuffer, ?_⟩
    · exact hLinked k' ⟨hFrame.next, hFrame.mbox, hFrame.status, hFrame.data⟩
    · intro u hNot
      have hIn : x ∈ w (.mboxWriters mbox) := by
        rw [hWriters]
        exact List.mem_cons_self
      rcases (hL.waiting _ x).mp hIn with ⟨_, c, hCall, hHead⟩
      have hc : c = .putting := MboxCall.list_inj (N := N) hHead.symm
      subst hc
      refine (hFrame.status u).trans (if_neg ?_)
      rintro rfl
      exact hNot hCall

/- The running thread starts to wait. -/
theorem wait
    (hActive : k.schedActiveThread = some t) (hRuns : k.runnable t = true)
    (hData : c = .getting → (k.thread t).waitData = some t) :
    ∃ k' l, mboxWait storeStatus k (c.list mbox) = some k' ∧
        MboxFrame k k' t .mboxBlocked k'.next ∧ k'.msgBuffer = k.msgBuffer ∧
        MboxLinked mbox k' (Function.update call t (some c))
          (Function.update w (c.list mbox) l) := by
  have hOff := hL.off_of_runnable hRuns
  have hBlocked : ((k.setStatus t .mboxBlocked).thread t).status = .mboxBlocked := by
    rw [Kernel.setStatus_status, if_pos rfl]
  have hNot : ((k.setStatus t .mboxBlocked).thread t).status.onRunqueue = false := by
    rw [hBlocked]
    rfl
  have hLists : WaitLists (k.setStatus t .mboxBlocked).next w := hL.lists
  rcases hLists.threadAddToList (hL.unmarked c) hOff hNot with ⟨mem, hAdd, hLists', _, hHeads⟩
  generalize hNew : insertByPriority
      (fun u =>
        ((k.setStatus t .mboxBlocked).thread u).priority)
      t (w (c.list mbox)) = l at hLists'
  have hMem : ∀ u, u ∈ l ↔ u = t ∨ u ∈ w (c.list mbox) := by
    intro u
    rw [← hNew, (insertByPriority_perm _ _).mem_iff, List.mem_cons]
  have hFrame : MboxFrame k
        { k.setStatus t .mboxBlocked with next := mem, pendsv := true }
        t .mboxBlocked mem := by
    refine ⟨rfl, rfl, ?_, ?_⟩
    · intro u
      exact k.setStatus_status t u .mboxBlocked
    · intro u
      exact k.setStatus_waitData t u .mboxBlocked
  refine ⟨_, l, ?_, hFrame, rfl, hLists', ?_, ?_, ?_⟩
  · unfold mboxWait
    rw [hActive]
    simp only [Option.bind_eq_bind, Option.bind_some, storeStatus]
    rw [hAdd, Option.bind_some]
    unfold threadYield
    have hActive' : ({ k.setStatus t .mboxBlocked with
          next := mem } : Kernel N).schedActiveThread = some t := hActive
    rw [hActive']
    simp only [Option.bind_eq_bind, Option.bind_some]
    rw [if_neg (by rw [hNot]; simp)]
    rfl
  · intro c'
    by_cases hEq : c' = c
    · subst hEq
      apply hLists'.ne_mark_of_mem (t := t)
      rw [Function.update_self, hMem]
      exact .inl rfl
    · refine ne_of_eq_of_ne (hHeads _ ?_) (hL.unmarked c')
      intro hSame
      apply hEq
      exact MboxCall.list_inj (N := N) (by simpa using hSame)
  · intro h u
    rw [hFrame.status]
    by_cases hSelf : u = t
    · subst hSelf
      rw [if_pos rfl, Function.update_self]
      constructor
      · intro hIn
        by_cases hHead : h = c.list mbox
        · exact ⟨rfl, c, rfl, hHead⟩
        · rw [Function.update_of_ne hHead] at hIn
          exact (hOff h hIn).elim
      · rintro ⟨_, c', hCall, hHead⟩
        cases hCall
        rw [hHead, Function.update_self, hMem]
        exact .inl rfl
    · rw [if_neg hSelf, Function.update_of_ne hSelf]
      refine Iff.trans ?_ (hL.waiting h u)
      by_cases hHead : h = c.list mbox
      · subst hHead
        rw [Function.update_self, hMem]
        simp [hSelf]
      · rw [Function.update_of_ne hHead]
  · intro u hCall
    rw [hFrame.data]
    by_cases hSelf : u = t
    · subst hSelf
      rw [Function.update_self] at hCall
      cases hCall
      exact hData rfl
    · rw [Function.update_of_ne hSelf] at hCall
      exact hL.objects u hCall

/- A thread that has been woken leaves its call. -/
theorem leave
    (hRuns : k.runnable t = true) :
    MboxLinked mbox k (Function.update call t none) w := by
  refine ⟨hL.lists, hL.unmarked, ?_, ?_⟩
  · intro h u
    by_cases hSelf : u = t
    · subst hSelf
      rw [Function.update_self]
      constructor
      · intro hIn
        exact (hL.off_of_runnable hRuns h hIn).elim
      · rintro ⟨_, c, hCall, _⟩
        cases hCall
    · rw [Function.update_of_ne hSelf]
      exact hL.waiting h u
  · intro u hCall
    by_cases hSelf : u = t
    · subst hSelf
      rw [Function.update_self] at hCall
      cases hCall
    · rw [Function.update_of_ne hSelf] at hCall
      exact hL.objects u hCall

end

end MboxLinked

----
-- Messages
----

/- One more position with a value adds that value. -/
theorem filterMap_perm_cons
    {τ μ : Type} {l : List τ} {f g : τ → Option μ} {t : τ} {m : μ}
    (hNodup : l.Nodup) (hIn : t ∈ l) (hSome : g t = some m) (hNone : f t = none)
    (hSame : ∀ u, u ≠ t → g u = f u) :
    (l.filterMap g).Perm (m :: l.filterMap f) := by
  induction l with
  | nil => cases hIn
  | cons a l ih =>
    rcases List.nodup_cons.mp hNodup with ⟨hNot, hRest⟩
    by_cases hEq : a = t
    · subst hEq
      have hTail : l.filterMap g = l.filterMap f := by
        apply List.filterMap_congr
        intro u hu
        apply hSame
        rintro rfl
        exact hNot hu
      rw [List.filterMap_cons_some hSome, List.filterMap_cons_none hNone, hTail]
    · have hTail := ih hRest (List.mem_of_ne_of_mem (Ne.symm hEq) hIn)
      have hHead := hSame a hEq
      cases hOld : f a with
      | none =>
        rw [hOld] at hHead
        rw [List.filterMap_cons_none hHead, List.filterMap_cons_none hOld]
        exact hTail
      | some x =>
        rw [hOld] at hHead
        rw [List.filterMap_cons_some hHead, List.filterMap_cons_some hOld]
        exact (hTail.cons x).trans (.swap m x _)

variable {s s' : MboxState N} {t : Fin N}

/- A reader has been handed one more message. -/
theorem MboxState.handed_count_succ
    {m : Msg} (hSome : s'.handedTo t = some m) (hNone : s.handedTo t = none)
    (hSame : ∀ u, u ≠ t → s'.handedTo u = s.handedTo u) (x : Msg) :
    s'.handed.count x = (m :: s.handed).count x :=
  (filterMap_perm_cons (List.nodup_finRange N) (List.mem_finRange t) hSome hNone hSame).count_eq x

/- Nothing has been handed over. -/
theorem MboxState.handed_congr
    (hSame : ∀ u, s'.handedTo u = s.handedTo u) :
    s'.handed = s.handed := by
  unfold handed
  rw [funext hSame]

/-
  The state of the threads, and of the messages in the
  mailbox and on the way to readers.
-/
structure MboxInv
    (mbox j : Nat) (s : MboxState N)
    (w : WaitHead N → List (Fin N)) : Prop where
  linked : MboxLinked mbox s.kernel s.call w
  holds : CibHolds j (s.kernel.mbox mbox).cib
  empty : w (.mboxReaders mbox) ≠ [] → cibAvail (s.kernel.mbox mbox).cib = 0#32
  conserved :
    ∀ m, s.returned.count m + s.handed.count m + (s.queued mbox).count m = s.accepted.count m

namespace MboxInv

variable {mbox j : Nat} {w w' : WaitHead N → List (Fin N)}

/- What the invariant says about a state. -/
theorem safe
    (hI : MboxInv mbox j s w) :
    MboxSafe mbox j s where
  bounded := hI.holds.avail
  readers := by
    have hReaders : s.readers mbox = w (.mboxReaders mbox) :=
      (hI.linked.lists.waits (.mboxReaders mbox)).listNodes_eq
    rw [hReaders]
    exact hI.empty
  conserved := hI.conserved

/- The mailbox before the first call. -/
theorem of_start
    (hSmall : j ≤ 30) (hStart : (mboxSystem N mbox j).Start s) :
    MboxInv mbox j s (fun _ => []) := by
  rcases hStart with ⟨⟨k, queue, hNull, hStatus, hKernel⟩, hCalls, hAccepted, hReturned⟩
  have hHeads : ∀ h, s.kernel.next (.head h) = .null := by
    intro h
    rw [hKernel]
    simp only [mboxInit, LinkMem.set, Function.update_apply, hNull, ite_self]
  have hThreads : s.kernel.thread = k.thread := by
    rw [hKernel]
    rfl
  have hBox : s.kernel.mbox mbox = ⟨⟨0#32, 0#32, BitVec.ofNat 32 (2 ^ j) - 1#32⟩, queue⟩ := by
    rw [hKernel]
    exact Function.update_self ..
  have hFresh := cibHolds_of_pow hSmall
  constructor
  · refine ⟨WaitLists.of_null hHeads, ?_, ?_, ?_⟩
    · intro c
      rw [hHeads]
      simp
    · intro h t
      rw [hThreads]
      constructor
      · intro hIn
        cases hIn
      · rintro ⟨hBlocked, _⟩
        exact (hStatus t hBlocked).elim
    · intro t hCall
      rw [hCalls] at hCall
      cases hCall
  · rw [hBox]
    exact hFresh.1
  · intro hNe
    exact (hNe rfl).elim
  · intro m
    have hHanded : s.handed = [] := by
      apply List.filterMap_eq_nil_iff.mpr
      intro t _
      unfold MboxState.handedTo
      rw [hCalls]
      rfl
    have hQueued : s.queued mbox = [] := by
      apply List.eq_nil_of_length_eq_zero
      unfold MboxState.queued
      rw [CibHolds.items_length, hBox]
      exact congrArg BitVec.toNat hFresh.2
    rw [hReturned, hHanded, hQueued, hAccepted]
    rfl

end MboxInv

end Riot
