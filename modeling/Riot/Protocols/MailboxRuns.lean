import Riot.Protocols.Mailbox

/-
  Mailbox safety: the mailbox never has more messages than
  cells, readers wait only at an empty mailbox, and every
  message that a put accepted is returned by one get.

  Runs in which every woken writer finds space and no waiting
  reader are safe; otherwise a writer overwrites a message.
-/

----
-- Calls
----

namespace Riot

variable {N : Nat} {s : MboxState N} {t x : Fin N} {m : Msg}

namespace MboxState

/- Only a blocked reader has not been handed anything. -/
theorem handedTo_of_blocked
    (hStatus : (s.kernel.thread t).status = .mboxBlocked) :
    s.handedTo t = none := by
  unfold handedTo Kernel.runnable
  rw [hStatus]
  exact if_neg (fun h => Bool.noConfusion h.2)

/- A thread in no call. -/
theorem handedTo_of_none
    (hCall : s.call t = none) :
    s.handedTo t = none := by
  unfold handedTo
  rw [hCall]
  exact if_neg (fun h => nomatch h.1)

/- A thread that puts. -/
theorem handedTo_of_putting
    (hCall : s.call t = some .putting) :
    s.handedTo t = none := by
  unfold handedTo
  rw [hCall]
  exact if_neg (fun h => nomatch h.1)

/- The fields that are read. -/
theorem handedTo_congr
    {s' : MboxState N} (hCall : s'.call t = s.call t)
    (hStatus : (s'.kernel.thread t).status = (s.kernel.thread t).status)
    (hBuffer : s'.kernel.msgBuffer t = s.kernel.msgBuffer t) :
    s'.handedTo t = s.handedTo t := by
  unfold handedTo Kernel.runnable
  rw [hCall, hStatus, hBuffer]

/- The step is one of `t`, which has been handed nothing. -/
theorem handedTo_eq
    {s' : MboxState N} (hBefore : s.handedTo t = none)
    (hAfter : s'.handedTo t = none) (hCall : ∀ u, u ≠ t → s'.call u = s.call u)
    (hStatus : ∀ u, u ≠ t → (s'.kernel.thread u).status = (s.kernel.thread u).status)
    (hBuffer : ∀ u, u ≠ t → s'.kernel.msgBuffer u = s.kernel.msgBuffer u)
    (u : Fin N) :
    s'.handedTo u = s.handedTo u := by
  by_cases hSelf : u = t
  · subst hSelf
    rw [hBefore, hAfter]
  · exact handedTo_congr (hCall u hSelf) (hStatus u hSelf) (hBuffer u hSelf)

end MboxState

/- A put while a reader waits. -/
theorem mboxPutWith_reader
    {k : Kernel N} {mem : LinkMem (ListHead N) (Fin N)} {mbox : Nat} (blocking : Bool)
    (hActive : k.schedActiveThread = some t)
    (hRemove : listRemoveHead k.next (.waiting (.mboxReaders mbox)) = some (mem, some x))
    (hObject : (k.thread x).waitData = some x) :
    ∃ k', mboxPutWith storeStatus k mbox m blocking = some (k', .returned 1) ∧
        MboxFrame k k' x .pending mem ∧
        k'.msgBuffer = Function.update (Function.update k.msgBuffer t m) x m := by
  let k₁ : Kernel N := { k.setBuffer t m with next := mem }
  rcases wakeWaiter_eq (k := k₁.setBuffer x m) (t := t) x hActive with ⟨k', hWake, hFrame, hBuffer⟩
  have hOwn : k₁.msgBuffer t = m := Function.update_self ..
  have hRemove' : listRemoveHead (k.setBuffer t m).next
          (.waiting (.mboxReaders mbox)) = some (mem, some x) := hRemove
  refine ⟨k', ?_, ⟨hFrame.next, hFrame.mbox, hFrame.status, hFrame.data⟩, hBuffer⟩
  unfold mboxPutWith
  rw [hActive]
  simp only [Option.bind_eq_bind, Option.bind_some]
  rw [hRemove']
  simp only [Option.bind_some]
  have hData : (k₁.thread x).waitData = some x := hObject
  change
    ((k₁.thread x).waitData.bind fun target =>
      (wakeWaiter storeStatus
        (k₁.setBuffer target (k₁.msgBuffer t)) x).bind fun k₂ => some (k₂, Outcome.returned 1)) = _
  rw [hData, Option.bind_some, hOwn, hWake]
  rfl

/- A put while no reader waits. -/
theorem mboxPutWith_empty
    {k : Kernel N} {mbox : Nat} (blocking : Bool)
    (hActive : k.schedActiveThread = some t)
    (hNull : k.next (.head (.waiting (.mboxReaders mbox))) = .null) :
    mboxPutWith storeStatus k mbox m blocking = if cibFull (k.mbox mbox).cib then
        if blocking then (mboxWait storeStatus (k.setBuffer t m)
            (.mboxWriters mbox)).bind (fun k => some (k, .blocked))
        else some (k.setBuffer t m, .returned 0)
      else (mboxQueue (k.setBuffer t m) mbox).bind (fun k => some (k, .returned 1)) := by
  have hRemove : listRemoveHead (k.setBuffer t m).next
          (.waiting (.mboxReaders mbox)) = some (k.next, none) := by
    unfold listRemoveHead
    have hNull' : (k.setBuffer t m).next (.head (.waiting (.mboxReaders mbox))) = .null := hNull
    rw [hNull']
    rfl
  unfold mboxPutWith
  nth_rewrite 1 [hActive]
  simp only [Option.bind_eq_bind, Option.bind_some]
  rw [hRemove]
  simp only [Option.bind_some]
  rfl

/- The end of a put. -/
theorem mboxQueue_eq
    {k : Kernel N} (mbox : Nat) (hActive : k.schedActiveThread = some t) :
    ∃ m, mboxQueue k mbox = some ((k.setBuffer t m).setMbox mbox
            (cibPutUnsafe (k.mbox mbox).cib).1
            (Function.update (k.mbox mbox).msgArray (cibPutUnsafe (k.mbox mbox).cib).2 m)) := by
  refine ⟨{ k.msgBuffer t with senderPid := k.schedActivePid }, ?_⟩
  unfold mboxQueue
  nth_rewrite 1 [hActive]
  rfl

namespace MboxInv

variable {mbox j : Nat} {w : WaitHead N → List (Fin N)} {blocking : Bool} {s' : MboxState N}

section

variable (hI : MboxInv mbox j s w)

include hI

/- A thread of the readers' list. -/
theorem reader
    (hIn : x ∈ w (.mboxReaders mbox)) :
    (s.kernel.thread x).status = .mboxBlocked ∧ s.call x = some .getting := by
  rcases (hI.linked.waiting _ x).mp hIn with ⟨hBlocked, c, hCall, hHead⟩
  have hc : c = .getting := MboxCall.list_inj (N := N) hHead.symm
  subst hc
  exact ⟨hBlocked, hCall⟩

/- No reader waits if the mailbox has a message. -/
theorem readers_nil
    (hSome : cibAvail (s.kernel.mbox mbox).cib ≠ 0#32) :
    w (.mboxReaders mbox) = [] := by
  by_contra hNe
  exact hSome (hI.empty hNe)

/- The first reader gets the message of a put. -/
theorem handOver
    {l : List (Fin N)} (hCall : s.call t = none)
    (hReaders : w (.mboxReaders mbox) = x :: l) :
    ∃ result, mboxPutWith storeStatus (s.kernel.dispatch t) mbox m
          blocking = some result ∧ ∃ w', MboxInv mbox j (s.afterPut t result) w' := by
  have hIn : x ∈ w (.mboxReaders mbox) := by
    rw [hReaders]
    exact List.mem_cons_self
  rcases hI.reader hIn with ⟨hBlocked, hGet⟩
  have hNe : t ≠ x := by
    rintro rfl
    rw [hCall] at hGet
    cases hGet
  have hL : MboxLinked mbox (s.kernel.dispatch t) s.call w :=
    hI.linked.congr rfl (fun _ => rfl) (fun _ => rfl)
  rcases hL.wake (c := .getting) hReaders with ⟨mem, hRemove, hLinked⟩
  rcases mboxPutWith_reader (t := t) (m := m) blocking rfl
      hRemove (hL.objects x hGet) with
    ⟨k', hPut, hFrame, hBuffer⟩
  have hAfter : s.afterPut t (k', .returned 1) = s.accept t k' := rfl
  refine ⟨_, hPut, Function.update w (.mboxReaders mbox) l, ?_⟩
  rw [hAfter]
  refine ⟨hLinked k' hFrame, ?_, ?_, ?_⟩
  · unfold MboxState.accept
    rw [hFrame.mbox]
    exact hI.holds
  · intro _
    unfold MboxState.accept
    rw [hFrame.mbox]
    apply hI.empty
    rw [hReaders]
    simp
  · intro y
    have hOwn : k'.msgBuffer t = m := by
      rw [hBuffer, Function.update_of_ne hNe, Function.update_self]
    have hSome : (s.accept t k').handedTo x = some m := by
      have hHas : k'.msgBuffer x = m := by
        rw [hBuffer, Function.update_self]
      have hWoken : k'.runnable x = true := by
        unfold Kernel.runnable
        rw [hFrame.status, if_pos rfl]
        rfl
      rw [← hHas]
      exact if_pos ⟨hGet, hWoken⟩
    have hSame : ∀ u, u ≠ x → (s.accept t k').handedTo u = s.handedTo u := by
      intro u hu
      by_cases hSelf : u = t
      · subst hSelf
        rw [MboxState.handedTo_of_none hCall]
        exact MboxState.handedTo_of_none hCall
      · refine MboxState.handedTo_congr rfl ?_ ?_
        · exact (hFrame.status u).trans (if_neg hu)
        · change k'.msgBuffer u = _
          rw [hBuffer, Function.update_of_ne hu, Function.update_of_ne hSelf]
          rfl
    have hHanded :=
      MboxState.handed_count_succ hSome (MboxState.handedTo_of_blocked hBlocked) hSame y
    have hQueued : (s.accept t k').queued mbox = s.queued mbox := by
      unfold MboxState.queued MboxState.accept
      rw [hFrame.mbox]
      rfl
    have hOld := hI.conserved y
    rw [hHanded, hQueued]
    unfold MboxState.accept
    dsimp only
    rw [hOwn, List.count_cons, List.count_cons]
    omega

/- A step that moves no message. -/
theorem quiet
    {w' : WaitHead N → List (Fin N)}
    (hLinked : MboxLinked mbox s'.kernel s'.call w')
    (hBox : s'.kernel.mbox mbox = s.kernel.mbox mbox)
    (hReaders : w' (.mboxReaders mbox) ≠ [] → cibAvail (s.kernel.mbox mbox).cib = 0#32)
    (hHanded : ∀ u, s'.handedTo u = s.handedTo u)
    (hReturned : s'.returned = s.returned) (hAccepted : s'.accepted = s.accepted) :
    MboxInv mbox j s' w' where
  linked := hLinked
  holds := by
    rw [hBox]
    exact hI.holds
  empty := by
    rw [hBox]
    exact hReaders
  conserved := by
    intro y
    unfold MboxState.queued
    rw [hReturned, hAccepted, MboxState.handed_congr hHanded, hBox]
    exact hI.conserved y

/- A message goes into the array. -/
theorem enqueue
    (hLinked : MboxLinked mbox s'.kernel s'.call w)
    (hNil : w (.mboxReaders mbox) = [])
    (hSpace : cibFull (s.kernel.mbox mbox).cib = false)
    (hBox : s'.kernel.mbox mbox = ⟨(cibPutUnsafe (s.kernel.mbox mbox).cib).1,
          Function.update (s.kernel.mbox mbox).msgArray
            (cibPutUnsafe (s.kernel.mbox mbox).cib).2 m⟩)
    (hHanded : ∀ u, s'.handedTo u = s.handedTo u)
    (hReturned : s'.returned = s.returned)
    (hAccepted : s'.accepted = m :: s.accepted) :
    MboxInv mbox j s' w := by
  have hLess : (cibAvail (s.kernel.mbox mbox).cib).toNat < 2 ^ j := by
    have hAvail := hI.holds.avail
    have hSigned := hI.holds.signed.2
    rw [hSpace] at hSigned
    have hNe := of_decide_eq_false hSigned.symm
    omega
  rcases hI.holds.putUnsafe (α := Msg) hLess with ⟨hHolds, _, hItems⟩
  refine ⟨hLinked, ?_, ?_, ?_⟩
  · rw [hBox]
    exact hHolds
  · intro hNe
    exact (hNe hNil).elim
  · intro y
    have hOld := hI.conserved y
    unfold MboxState.queued at hOld ⊢
    rw [hReturned, hAccepted, MboxState.handed_congr hHanded, hBox]
    dsimp only
    rw [hItems, List.count_append, List.count_cons, List.count_cons, List.count_nil]
    omega

/- The oldest message leaves the array. -/
theorem dequeue
    {w' : WaitHead N → List (Fin N)}
    (hLinked : MboxLinked mbox s'.kernel s'.call w')
    (hNil : w' (.mboxReaders mbox) = [])
    (hSome : cibAvail (s.kernel.mbox mbox).cib ≠ 0#32)
    (hBox : s'.kernel.mbox mbox =
        ⟨(cibGetUnsafe (s.kernel.mbox mbox).cib).1, (s.kernel.mbox mbox).msgArray⟩)
    (hHanded : ∀ u, s'.handedTo u = s.handedTo u)
    (hReturned : s'.returned =
        (s.kernel.mbox mbox).msgArray (cibGetUnsafe (s.kernel.mbox mbox).cib).2 :: s.returned)
    (hAccepted : s'.accepted = s.accepted) :
    MboxInv mbox j s' w' := by
  have hNe : (cibAvail (s.kernel.mbox mbox).cib).toNat ≠ 0 := by
    intro hZero
    exact hSome (BitVec.eq_of_toNat_eq hZero)
  rcases hI.holds.cibGet_eq (α := Msg) hNe with ⟨_, hHolds, _, hItems⟩
  refine ⟨hLinked, ?_, ?_, ?_⟩
  · rw [hBox]
    exact hHolds
  · intro hList
    exact (hList hNil).elim
  · intro y
    have hOld := hI.conserved y
    unfold MboxState.queued at hOld ⊢
    rw [hItems, List.count_cons] at hOld
    rw [hReturned, hAccepted, MboxState.handed_congr hHanded, hBox, List.count_cons]
    dsimp only
    omega

/- Without readers a put queues, waits or gives up. -/
theorem putWithout
    (hRuns : s.kernel.runnable t = true) (hCall : s.call t = none)
    (hNil : w (.mboxReaders mbox) = []) :
    ∃ result, mboxPutWith storeStatus (s.kernel.dispatch t) mbox m
          blocking = some result ∧ ∃ w', MboxInv mbox j (s.afterPut t result) w' := by
  have hL : MboxLinked mbox ((s.kernel.dispatch t).setBuffer t m) s.call w :=
    hI.linked.congr rfl (fun _ => rfl) (fun _ => rfl)
  have hNull : (s.kernel.dispatch t).next (.head (.waiting (.mboxReaders mbox))) = .null :=
    hI.linked.lists.null_of_nil (hI.linked.unmarked .getting) hNil
  have hBefore := MboxState.handedTo_of_none hCall
  rw [mboxPutWith_empty (t := t) blocking rfl hNull]
  split
  · split
    · rcases hL.wait (c := .putting) rfl hRuns (by simp) with
        ⟨k', l, hWait, hFrame, hBuffer, hLinked⟩
      refine ⟨(k', .blocked), ?_, Function.update w (.mboxWriters mbox) l, ?_⟩
      · have hWait' : mboxWait storeStatus
                ((s.kernel.dispatch t).setBuffer t m)
                (.mboxWriters mbox) = some k' := hWait
        rw [hWait']
        rfl
      · refine hI.quiet hLinked (congrFun hFrame.mbox mbox) ?_ ?_
          rfl rfl
        · intro hNe
          exact (hNe hNil).elim
        · refine MboxState.handedTo_eq hBefore ?_ ?_ ?_ ?_
          · apply MboxState.handedTo_of_putting
            exact Function.update_self ..
          · intro u hu
            exact Function.update_of_ne hu ..
          · intro u hu
            exact (hFrame.status u).trans (if_neg hu)
          · intro u hu
            refine (congrFun hBuffer u).trans ?_
            exact Function.update_of_ne hu ..
    · refine ⟨_, rfl, w, ?_⟩
      refine hI.quiet hL rfl hI.empty ?_ rfl rfl
      refine MboxState.handedTo_eq hBefore
        (MboxState.handedTo_of_none hCall) (fun _ _ => rfl)
        (fun _ _ => rfl) ?_
      intro u hu
      exact Function.update_of_ne hu ..
  · rename_i hFull
    rcases mboxQueue_eq (t := t)
        (k := (s.kernel.dispatch t).setBuffer t m) mbox rfl with
      ⟨m', hQueue⟩
    rw [hQueue, Option.bind_some]
    refine ⟨_, rfl, w, ?_⟩
    refine hI.enqueue (m := m') ?_ hNil ?_ ?_ ?_ rfl ?_
    · exact hL.congr rfl (fun _ => rfl) (fun _ => rfl)
    · exact eq_false_of_ne_true hFull
    · exact Function.update_self ..
    · refine MboxState.handedTo_eq hBefore
        (MboxState.handedTo_of_none hCall) (fun _ _ => rfl)
        (fun _ _ => rfl) ?_
      intro u hu
      refine (Function.update_of_ne hu ..).trans ?_
      exact Function.update_of_ne hu ..
    · refine congrArg (· :: s.accepted) ?_
      exact Function.update_self ..

/- Every put. -/
theorem put
    (hRuns : s.kernel.runnable t = true) (hCall : s.call t = none) :
    ∃ result, mboxPutWith storeStatus (s.kernel.dispatch t) mbox m
          blocking = some result ∧ ∃ w', MboxInv mbox j (s.afterPut t result) w' := by
  cases hReaders : w (.mboxReaders mbox) with
  | nil => exact hI.putWithout hRuns hCall hReaders
  | cons x l => exact hI.handOver hCall hReaders

/- A get that returns the oldest message. -/
theorem getItem
    (hCall : s.call t = none) (hSome : cibAvail (s.kernel.mbox mbox).cib ≠ 0#32) :
    ∃ result, mboxGetWith storeStatus (s.kernel.dispatch t) mbox
          blocking = some result ∧ ∃ w', MboxInv mbox j (s.afterGet t result) w' := by
  have hNil := hI.readers_nil hSome
  have hBefore := MboxState.handedTo_of_none hCall
  let k₁ : Kernel N := ((s.kernel.dispatch t).setMbox mbox
      (cibGetUnsafe (s.kernel.mbox mbox).cib).1
      (s.kernel.mbox mbox).msgArray).setBuffer t
        ((s.kernel.mbox mbox).msgArray (cibGetUnsafe (s.kernel.mbox mbox).cib).2)
  have hL : MboxLinked mbox k₁ s.call w := hI.linked.congr rfl (fun _ => rfl) (fun _ => rfl)
  have hGet : mboxGetWith storeStatus (s.kernel.dispatch t) mbox
          blocking =
        (wakeWriter storeStatus k₁ mbox).bind (fun k => some (k, .returned 1)) := by
    unfold mboxGetWith
    simp only [Kernel.dispatch_schedActiveThread, Kernel.dispatch_mbox, Option.bind_eq_bind,
      Option.bind_some]
    rw [if_pos hSome]
  rw [hGet]
  rcases hL.wakeWriter (t := t) rfl with ⟨k', w', hWake, hLinked, hReaders, hBox, hBuffer, hStatus⟩
  rw [hWake]
  refine ⟨_, rfl, w', ?_⟩
  refine hI.dequeue hLinked (hReaders.trans hNil) hSome ?_ ?_ ?_
    rfl
  · refine (congrFun hBox mbox).trans ?_
    exact Function.update_self ..
  · intro u
    by_cases hPut : s.call u = some .putting
    · rw [MboxState.handedTo_of_putting hPut]
      exact MboxState.handedTo_of_putting hPut
    · by_cases hSelf : u = t
      · subst hSelf
        rw [MboxState.handedTo_of_none hCall]
        exact MboxState.handedTo_of_none hCall
      · refine MboxState.handedTo_congr rfl (hStatus u hPut) ?_
        refine (congrFun hBuffer u).trans ?_
        exact Function.update_of_ne hSelf ..
  · refine congrArg (· :: s.returned) ?_
    refine (congrFun hBuffer t).trans ?_
    exact Function.update_self ..

/- Every get. -/
theorem get
    (hRuns : s.kernel.runnable t = true) (hCall : s.call t = none) :
    ∃ result, mboxGetWith storeStatus (s.kernel.dispatch t) mbox
          blocking = some result ∧ ∃ w', MboxInv mbox j (s.afterGet t result) w' := by
  by_cases hSome : cibAvail (s.kernel.mbox mbox).cib = 0#32
  · have hBefore := MboxState.handedTo_of_none hCall
    have hGet : mboxGetWith storeStatus (s.kernel.dispatch t) mbox
            blocking =
          if blocking then
            (mboxWait storeStatus ((s.kernel.dispatch t).setWaitData t (some t))
              (.mboxReaders mbox)).bind (fun k => some (k, .blocked))
          else
            some (s.kernel.dispatch t, .returned 0) := by
      unfold mboxGetWith
      simp only [Kernel.dispatch_schedActiveThread, Kernel.dispatch_mbox, Option.bind_eq_bind,
        Option.bind_some]
      rw [if_neg (not_not.mpr hSome)]
    rw [hGet]
    split
    · have hL₀ : MboxLinked mbox (s.kernel.dispatch t) s.call w :=
        hI.linked.congr rfl (fun _ => rfl) (fun _ => rfl)
      have hKeep : ∀ u, (((s.kernel.dispatch t).setWaitData t
              (some t)).thread u).status = (s.kernel.thread u).status :=
        (s.kernel.dispatch t).setThread_keeps Thread.status rfl
      have hRuns₀ : ((s.kernel.dispatch t).setWaitData t (some t)).runnable t = true := by
        unfold Kernel.runnable
        rw [hKeep]
        exact hRuns
      have hData : (((s.kernel.dispatch t).setWaitData t (some t)).thread t).waitData = some t :=
        congrArg Thread.waitData ((s.kernel.dispatch t).setThread_thread_same t _)
      rcases (hL₀.setWaitData t).wait (c := .getting) rfl
          hRuns₀ (fun _ => hData) with
        ⟨k', l, hWait, hFrame, hBuffer, hLinked⟩
      have hWait' : mboxWait storeStatus
              ((s.kernel.dispatch t).setWaitData t (some t))
              (.mboxReaders mbox) = some k' := hWait
      rw [hWait']
      refine ⟨_, rfl, Function.update w (.mboxReaders mbox) l, ?_⟩
      refine hI.quiet hLinked (congrFun hFrame.mbox mbox) (fun _ => hSome) ?_ rfl rfl
      refine MboxState.handedTo_eq hBefore ?_ ?_ ?_ ?_
      · apply MboxState.handedTo_of_blocked
        exact (hFrame.status t).trans (if_pos rfl)
      · intro u hu
        exact Function.update_of_ne hu ..
      · intro u hu
        refine (hFrame.status u).trans ?_
        rw [if_neg hu, hKeep]
      · intro u _
        exact congrFun hBuffer u
    · refine ⟨_, rfl, w, ?_⟩
      exact hI.quiet (hI.linked.congr rfl (fun _ => rfl)
        (fun _ => rfl)) rfl hI.empty (fun _ => rfl) rfl rfl
  · exact hI.getItem hCall hSome

/- A woken writer that finds space queues its message. -/
theorem resumeWriter
    (hRuns : s.kernel.runnable t = true) (hCall : s.call t = some .putting)
    (hSpace : cibFull (s.kernel.mbox mbox).cib = false)
    (hNull : s.kernel.next (.head (.waiting (.mboxReaders mbox))) = .null) :
    ∃ k, mboxQueue (s.kernel.dispatch t) mbox = some k ∧
        MboxInv mbox j ((s.accept t k).leave t) w := by
  rcases mboxQueue_eq (t := t) (k := s.kernel.dispatch t) mbox
      rfl with
    ⟨m, hQueue⟩
  refine ⟨_, hQueue, ?_⟩
  have hNil := hI.linked.lists.eq_nil_of_null hNull
  refine hI.enqueue (m := m) ?_ hNil hSpace ?_ ?_ rfl ?_
  · exact (hI.linked.leave hRuns).congr rfl (fun _ => rfl) (fun _ => rfl)
  · exact Function.update_self ..
  · refine MboxState.handedTo_eq (MboxState.handedTo_of_putting hCall) ?_ ?_ (fun _ _ => rfl) ?_
    · apply MboxState.handedTo_of_none
      exact Function.update_self ..
    · intro u hu
      exact Function.update_of_ne hu ..
    · intro u hu
      exact Function.update_of_ne hu ..
  · refine congrArg (· :: s.accepted) ?_
    exact Function.update_self ..

/- A woken reader returns with its message. -/
theorem resumeReader
    (hRuns : s.kernel.runnable t = true) (hCall : s.call t = some .getting) :
    MboxInv mbox j ((s.deliver t s.kernel).leave t) w := by
  have hSome : s.handedTo t = some (s.kernel.msgBuffer t) := if_pos ⟨hCall, hRuns⟩
  have hNone : ((s.deliver t s.kernel).leave t).handedTo t = none :=
    MboxState.handedTo_of_none (Function.update_self ..)
  have hSame : ∀ u, u ≠ t → s.handedTo u = ((s.deliver t s.kernel).leave t).handedTo u := by
    intro u hu
    refine MboxState.handedTo_congr ?_ rfl rfl
    exact (Function.update_of_ne hu ..).symm
  refine ⟨hI.linked.leave hRuns, hI.holds, hI.empty, ?_⟩
  intro y
  have hOld := hI.conserved y
  rw [MboxState.handed_count_succ hSome hNone hSame y, List.count_cons] at hOld
  have hReturned :
      ((s.deliver t s.kernel).leave t).returned = s.kernel.msgBuffer t :: s.returned := rfl
  have hAccepted : ((s.deliver t s.kernel).leave t).accepted = s.accepted := rfl
  have hQueued : ((s.deliver t s.kernel).leave t).queued mbox = s.queued mbox := rfl
  rw [hReturned, hAccepted, hQueued, List.count_cons]
  omega

end

end MboxInv

----
-- Runs
----

/- Every step that meets the condition has a safe result. -/
theorem MboxOp.exec_inv
    {mbox j : Nat} {s : MboxState N} {w : WaitHead N → List (Fin N)} (op : MboxOp N)
    (hI : MboxInv mbox j s w) (hEnabled : op.Enabled s) (hOk : MboxStep mbox s op) :
    ∃ s', op.exec mbox s = some s' ∧ ∃ w', MboxInv mbox j s' w' := by
  cases op with
  | mboxPut t m =>
    rcases hI.put (m := m) hEnabled.1 hEnabled.2 with ⟨result, hPut, hInv⟩
    exact ⟨_, Option.map_eq_some_iff.mpr ⟨result, hPut, rfl⟩, hInv⟩
  | mboxTryPut t m =>
    rcases hI.put (m := m) hEnabled.1 hEnabled.2 with ⟨result, hPut, hInv⟩
    exact ⟨_, Option.map_eq_some_iff.mpr ⟨result, hPut, rfl⟩, hInv⟩
  | mboxGet t =>
    rcases hI.get hEnabled.1 hEnabled.2 with ⟨result, hGet, hInv⟩
    exact ⟨_, Option.map_eq_some_iff.mpr ⟨result, hGet, rfl⟩, hInv⟩
  | mboxTryGet t =>
    rcases hI.get hEnabled.1 hEnabled.2 with ⟨result, hGet, hInv⟩
    exact ⟨_, Option.map_eq_some_iff.mpr ⟨result, hGet, rfl⟩, hInv⟩
  | resume t =>
    rcases hEnabled with ⟨hRuns, hIn⟩
    cases hCall : s.call t with
    | none => exact (hIn hCall).elim
    | some c =>
      cases c with
      | putting =>
        rcases hOk hCall with ⟨hSpace, hNull⟩
        rcases hI.resumeWriter hRuns hCall hSpace hNull with ⟨k, hQueue, hInv⟩
        refine ⟨(s.accept t k).leave t, ?_, w, hInv⟩
        simp only [MboxOp.exec, hCall, hQueue, Option.map_some]
      | getting =>
        refine ⟨(s.deliver t s.kernel).leave t, ?_, w, hI.resumeReader hRuns hCall⟩
        simp only [MboxOp.exec, hCall]

/- Three threads that can run, and a mailbox of one cell. -/
def mboxStart : MboxState 3 where
  kernel :=
    mboxInit
      { Kernel.zero 3 with
        thread := fun t =>
          { Thread.zero 3 with status := .pending, pid := t + 1 } }
      0 (fun _ => ⟨0, 0, 0⟩) 1
  call := fun _ => none
  accepted := []
  returned := []

/- The mailbox of these threads is new. -/
theorem mboxStart_start :
    (mboxSystem 3 0 0).Start mboxStart := by
  refine ⟨⟨_, _, ?_, ?_, rfl⟩, fun _ => rfl, rfl, rfl⟩
  · intro h
    rfl
  · intro t hStatus
    cases hStatus

end Riot
