import Riot.Protocols.ThreadFlags

/-
  Thread flags lose no wake-up: under every interleaving of
  calls on flags and of messages, no blocked thread has the
  flags it waits for, and every wait call returns the flags
  that it promises and clears exactly these.
-/

----
-- Calls on Flags
----

namespace Riot

variable {N : Nat} {f f' : FlagKernel N} {call : Fin N → FlagCall} {t u : Fin N}
variable {mask : BitVec 16}

/- A thread that runs does not wait for flags. -/
theorem flagBlocked_of_runnable
    (hRuns : f.kernel.runnable t = true) :
    (f.kernel.thread t).status.flagBlocked = false := by
  unfold Kernel.runnable at hRuns
  cases hStatus : (f.kernel.thread t).status with
  | flagBlockedAny =>
    rw [hStatus] at hRuns
    cases hRuns
  | flagBlockedAll =>
    rw [hStatus] at hRuns
    cases hRuns
  | _ => rfl

/- Setting flags. -/
theorem FlagInv.set
    (hInv : FlagInv f call) (hSet : threadFlagsSet storeStatus f t mask = some f') :
    FlagInv f' call := by
  rcases Option.bind_eq_some_iff.mp hSet with ⟨⟨f₁, woken⟩, hWake, hRest⟩
  have hInv₁ := hInv.raise hWake
  dsimp only at hRest
  split at hRest
  · cases hRest
    exact hInv₁.congr (fun _ => ⟨rfl, rfl, rfl⟩)
  · cases hRest
    exact hInv₁

/- The caller blocks with a mask. -/
theorem threadFlagsWait_eq
    (f : FlagKernel N) (mask : BitVec 16) (t : Fin N) (status : ThreadStatus) :
    ∃ f', threadFlagsWait storeStatus f mask t status = some f' ∧
        (f'.kernel.thread t).status = status ∧ f'.waitMask t = mask ∧ f'.flags = f.flags ∧
        ∀ u, u ≠ t → SameWords f f' u := by
  refine ⟨_, rfl, ?_, ?_, rfl, ?_⟩
  · refine (Kernel.setStatus_status _ t t status).trans (if_pos rfl)
  · exact Function.update_self ..
  · intro u hNe
    refine ⟨?_, rfl, Function.update_of_ne hNe ..⟩
    refine (Kernel.setStatus_status _ t u status).trans ?_
    rw [if_neg hNe]
    exact f.kernel.setWaitData_status t u none

/- The first part of a wait for any flag. -/
theorem threadFlagsWaitAny_waits
    (hActive : f.kernel.schedActiveThread = some t)
    (hRuns : f.kernel.runnable t = true)
    (hWait : threadFlagsWaitAny storeStatus f mask = some f') :
    WaitsAny f' t mask ∧ ∀ u, u ≠ t → SameWords f f' u := by
  unfold threadFlagsWaitAny at hWait
  rw [hActive] at hWait
  simp only [Option.bind_eq_bind, Option.bind_some] at hWait
  split at hWait
  · rename_i hNone
    rcases threadFlagsWait_eq f mask t .flagBlockedAny with
      ⟨f₁, hEq, hStatus, hMask, hFlags, hOther⟩
    rw [hEq] at hWait
    cases hWait
    refine ⟨.inl ⟨hStatus, hMask, ?_⟩, hOther⟩
    rw [hFlags]
    exact hNone
  · rename_i hSome
    cases hWait
    exact ⟨.inr ⟨hRuns, hSome⟩, fun _ _ => ⟨rfl, rfl, rfl⟩⟩

/- The first part of a wait for all flags. -/
theorem threadFlagsWaitAll_waits
    (hActive : f.kernel.schedActiveThread = some t)
    (hRuns : f.kernel.runnable t = true)
    (hWait : threadFlagsWaitAll storeStatus f mask = some f') :
    WaitsAll f' t mask ∧ ∀ u, u ≠ t → SameWords f f' u := by
  unfold threadFlagsWaitAll at hWait
  rw [hActive] at hWait
  simp only [Option.bind_eq_bind, Option.bind_some] at hWait
  split at hWait
  · rename_i hAll
    cases hWait
    exact ⟨.inr ⟨hRuns, hAll⟩, fun _ _ => ⟨rfl, rfl, rfl⟩⟩
  · rename_i hSome
    rcases threadFlagsWait_eq f mask t .flagBlockedAll with
      ⟨f₁, hEq, hStatus, hMask, hFlags, hOther⟩
    rw [hEq] at hWait
    cases hWait
    refine ⟨.inl ⟨hStatus, hMask, ?_⟩, hOther⟩
    rw [hFlags]
    exact hSome

/- The caller is in another part of its call. -/
theorem FlagInv.enter
    {c : FlagCall} (hInv : FlagInv f call) (hOk : CallOk f' t c)
    (hOther : ∀ u, u ≠ t → SameWords f f' u) :
    FlagInv f' (Function.update call t c) := by
  intro u
  by_cases hSelf : u = t
  · subst hSelf
    rw [Function.update_self]
    exact hOk
  · rw [Function.update_of_ne hSelf]
    exact (hInv u).congr (hOther u hSelf)

/- Clearing flags of a thread that runs. -/
theorem threadFlagsClearAtomic_words
    (f : FlagKernel N) (mask : BitVec 16) (hNe : u ≠ t) :
    SameWords f (threadFlagsClearAtomic f t mask).1 u :=
  ⟨rfl, Function.update_of_ne hNe .., rfl⟩

/- What a call returns that is about to clear its flags. -/
theorem CallOk.returns
    {c : FlagCall} (hOk : CallOk f t c) (hRuns : f.kernel.runnable t = true)
    (hCall : FlagState.clears c = true) :
    FlagReturn.Ok
      { call := c
        before := f.flags t
        value := (threadFlagsClearAtomic f t (FlagState.clearMask c)).2
        after := (threadFlagsClearAtomic f t (FlagState.clearMask c)).1.flags t } := by
  have hNot := flagBlocked_of_runnable hRuns
  refine ⟨FlagKernel.setFlags_flags .., ?_, ?_⟩
  · unfold threadFlagsClearAtomic
    dsimp only
    grind
  · cases c with
    | idle => cases hCall
    | waitAny mask =>
      rcases hOk with ⟨hStatus, _⟩ | ⟨_, hSome⟩
      · rw [hStatus] at hNot
        cases hNot
      · unfold threadFlagsClearAtomic FlagState.clearMask
        dsimp only
        grind
    | waitOne mask => cases hCall
    | waitOneRead mask tmp =>
      rcases hOk with ⟨_, hSome, hSub⟩
      rcases exists_isLowestBit hSome with ⟨i, _, hLow⟩
      refine ⟨hSub, i, hLow, ?_⟩
      rw [← and_neg_eq_twoPow hLow, BitVec.neg_eq_not_add]
      unfold threadFlagsClearAtomic FlagState.clearMask leastBit
      dsimp only
      grind
    | waitAll mask =>
      rcases hOk with ⟨hStatus, _⟩ | ⟨_, hAll⟩
      · rw [hStatus] at hNot
        cases hNot
      · unfold threadFlagsClearAtomic FlagState.clearMask
        dsimp only
        grind

----
-- Messages
----

variable {address : Fin N → BitVec 16} {v : Fin N} {m : Msg} {targetPid : Int}

namespace FlagInv

section

variable (hInv : FlagInv f call)

include hInv

/- A message object has been filled. -/
theorem setBuffer
    (t : Fin N) (m : Msg) :
    FlagInv { f with kernel := f.kernel.setBuffer t m } call :=
  hInv.congr (fun _ => ⟨rfl, rfl, rfl⟩)

/- A thread is told of its message. -/
theorem setMsgWaiting
    (hTell : Riot.setMsgWaiting storeStatus f v = some f') :
    FlagInv f' call := by
  rcases Option.map_eq_some_iff.mp hTell with ⟨⟨f₁, woken⟩, hWake, rfl⟩
  exact hInv.raise hWake

/- The function `queue_msg`. -/
theorem queueMsg
    {queued : Bool} (hQueue : queueMsgFlags storeStatus f v m = some (f', queued)) :
    FlagInv f' call := by
  rcases Option.bind_eq_some_iff.mp hQueue with ⟨⟨k, done⟩, hPut, hRest⟩
  have hInv₁ : FlagInv { f with kernel := k } call := by
    rcases queueMsg_some hPut with ⟨_, rfl, _⟩ | ⟨_, cib, array, rfl⟩
    · exact hInv
    · refine hInv.congr (fun u => ⟨?_, rfl, rfl⟩)
      exact f.kernel.setQueue_status v u cib array
  dsimp only at hRest
  split at hRest
  · rcases Option.bind_eq_some_iff.mp hRest with ⟨f₁, hTell, hLast⟩
    cases hLast
    exact hInv₁.setMsgWaiting hTell
  · cases hRest
    exact hInv₁

/- A receiver gets its message. -/
theorem copyToWaiting
    {k : Kernel N} (hStatus : (f.kernel.thread v).status = .receiveBlocked)
    (hCopy : Riot.copyToWaiting storeStatus f.kernel v m = some k) :
    FlagInv { f with kernel := k } call := by
  rcases Option.bind_eq_some_iff.mp hCopy with ⟨object, _, hSet⟩
  cases hSet
  have hIdle : call v = .idle := by
    apply (hInv v).eq_idle
    · unfold Kernel.runnable
      rw [hStatus]
      rfl
    · rw [hStatus]
      rfl
  refine hInv.idle hIdle ?_ ?_
  · dsimp only
    rw [Kernel.setStatus_status, if_pos rfl]
    rfl
  · intro u hNe
    refine ⟨?_, rfl, rfl⟩
    refine (Kernel.setStatus_status _ v u .pending).trans ?_
    exact if_neg hNe

/- A sender waits, and its target is told. -/
theorem sendBlocking
    (hIdle : call t = .idle)
    (hSend : sendBlockingFlags storeStatus address f t v = some f') :
    FlagInv f' call := by
  unfold sendBlockingFlags at hSend
  simp only [Option.bind_eq_bind] at hSend
  rcases Option.bind_eq_some_iff.mp hSend with ⟨k₁, hSet, hRest⟩
  rcases Option.bind_eq_some_iff.mp hRest with ⟨k₂, hAdd, hTell⟩
  rcases threadAddToList_some hAdd with ⟨mem, rfl⟩
  refine FlagInv.setMsgWaiting ?_ hTell
  refine hInv.idle hIdle ?_ ?_
  · cases hSet
    dsimp only
    rw [Kernel.setStatus_status, if_pos rfl]
    split
    · rfl
    · rfl
  · intro u hNe
    cases hSet
    refine ⟨?_, rfl, Function.update_of_ne hNe ..⟩
    refine (Kernel.setStatus_status _ t u _).trans ?_
    rw [if_neg hNe]
    exact f.kernel.setWaitData_status t u (some t)

/- The function `_msg_send`. -/
theorem msgSendWith
    {block : Bool} {outcome : Outcome}
    (hActive : f.kernel.schedActiveThread = some t) (hIdle : call t = .idle)
    (hSend : msgSendWithFlags storeStatus address f m targetPid block = some (f', outcome)) :
    FlagInv f' call := by
  unfold msgSendWithFlags at hSend
  rw [hActive] at hSend
  simp only [Option.bind_eq_bind, Option.bind_some] at hSend
  generalize { m with senderPid := f.kernel.schedActivePid } = m' at hSend
  have hInv₀ := hInv.setBuffer t m'
  split at hSend
  · cases hSend
    exact hInv₀
  · rename_i target _
    split at hSend
    · rcases Option.bind_eq_some_iff.mp hSend with ⟨⟨f₁, queued⟩, hQueue, hRest⟩
      have hInv₁ := hInv₀.queueMsg hQueue
      dsimp only at hRest
      split at hRest
      · cases hRest
        refine hInv₁.congr (fun u => ⟨?_, rfl, rfl⟩)
        unfold yieldForReply
        split
        · rfl
        · rfl
      · split at hRest
        · cases hRest
          exact hInv₁
        · rcases Option.bind_eq_some_iff.mp hRest with ⟨f₂, hBlock, hLast⟩
          cases hLast
          exact (hInv₁.sendBlocking hIdle hBlock).congr (fun _ => ⟨rfl, rfl, rfl⟩)
    · rename_i hStatus
      rcases Option.bind_eq_some_iff.mp hSend with ⟨k₁, hCopy, hLast⟩
      cases hLast
      exact (hInv₀.copyToWaiting (not_not.mp hStatus) hCopy).congr (fun _ => ⟨rfl, rfl, rfl⟩)

/- A message to the caller itself. -/
theorem msgSendToSelf
    {outcome : Outcome}
    (hSend : msgSendToSelfFlags storeStatus f m = some (f', outcome)) :
    FlagInv f' call := by
  rcases Option.bind_eq_some_iff.mp hSend with ⟨me, _, hRest⟩
  rcases Option.bind_eq_some_iff.mp hRest with ⟨⟨f₁, queued⟩, hQueue, hLast⟩
  cases hLast
  exact (hInv.setBuffer me _).queueMsg hQueue

/- A message for which the caller awaits a reply. -/
theorem msgSendReceive
    {outcome : Outcome} (hActive : f.kernel.schedActiveThread = some t)
    (hIdle : call t = .idle)
    (hSend : msgSendReceiveFlags storeStatus address f m targetPid = some (f', outcome)) :
    FlagInv f' call := by
  unfold msgSendReceiveFlags at hSend
  split at hSend
  · cases hSend
  · rw [hActive] at hSend
    simp only [Option.bind_eq_bind, Option.bind_some] at hSend
    rcases Option.bind_eq_some_iff.mp hSend with ⟨k₁, hSet, hRest⟩
    cases hSet
    let f₁ : FlagKernel N := { f with kernel := f.kernel.setStatus t .replyBlocked }
    refine msgSendWith (f := f₁.setWaitObject address t) ?_ hActive hIdle hRest
    have hStatus : ∀ u, (((f.kernel.setStatus t .replyBlocked).setWaitData t
            (some t)).thread u).status = if u = t then
                .replyBlocked
              else
                (f.kernel.thread u).status := by
      intro u
      rw [Kernel.setWaitData_status, Kernel.setStatus_status]
    refine hInv.idle hIdle ?_ ?_
    · refine (congrArg ThreadStatus.flagBlocked (hStatus t)).trans ?_
      rw [if_pos rfl]
      rfl
    · intro u hNe
      refine ⟨(hStatus u).trans (if_neg hNe), rfl, ?_⟩
      exact Function.update_of_ne hNe ..

/- The function `_msg_send_oneway`. -/
theorem msgSendOneway
    {result : Int}
    (hSend : msgSendOnewayFlags storeStatus f m targetPid = some (f', result)) :
    FlagInv f' call := by
  unfold msgSendOnewayFlags at hSend
  split at hSend
  · cases hSend
    exact hInv
  · split at hSend
    · rename_i hStatus
      rcases Option.bind_eq_some_iff.mp hSend with ⟨k₁, hCopy, hLast⟩
      cases hLast
      exact (hInv.copyToWaiting hStatus hCopy).congr (fun _ => ⟨rfl, rfl, rfl⟩)
    · rcases Option.bind_eq_some_iff.mp hSend with ⟨⟨f₁, queued⟩, hQueue, hLast⟩
      cases hLast
      exact hInv.queueMsg hQueue

end

end FlagInv

----
-- Runs
----

variable {s s' : FlagState N}

/- The threads and what their calls have returned. -/
structure FlagState.Inv
    (s : FlagState N) : Prop where
  calls : FlagInv s.flagKernel s.call
  returned : ∀ e ∈ s.returned, e.Ok

namespace FlagState.Inv

/- What the invariant says about a state. -/
theorem flagsOk
    (hInv : s.Inv) :
    FlagsOk s where
  any := by
    intro t hStatus
    have hOk := hInv.calls t
    have hNot : s.flagKernel.kernel.runnable t = false := by
      unfold Kernel.runnable
      rw [hStatus]
      rfl
    cases hCall : s.call t with
    | idle =>
      rw [hCall] at hOk
      unfold CallOk at hOk
      rw [hStatus] at hOk
      cases hOk
    | waitAny mask =>
      rw [hCall] at hOk
      rcases hOk with ⟨_, rfl, hNone⟩ | ⟨hRuns, _⟩
      · exact ⟨.inl rfl, hNone⟩
      · rw [hNot] at hRuns
        cases hRuns
    | waitOne mask =>
      rw [hCall] at hOk
      rcases hOk with ⟨_, rfl, hNone⟩ | ⟨hRuns, _⟩
      · exact ⟨.inr rfl, hNone⟩
      · rw [hNot] at hRuns
        cases hRuns
    | waitOneRead mask tmp =>
      rw [hCall] at hOk
      have hRuns := hOk.1
      rw [hNot] at hRuns
      cases hRuns
    | waitAll mask =>
      rw [hCall] at hOk
      rcases hOk with ⟨hOther, _⟩ | ⟨hRuns, _⟩
      · rw [hStatus] at hOther
        cases hOther
      · rw [hNot] at hRuns
        cases hRuns
  all := by
    intro t hStatus
    have hOk := hInv.calls t
    have hNot : s.flagKernel.kernel.runnable t = false := by
      unfold Kernel.runnable
      rw [hStatus]
      rfl
    have hAny : ∀ mask, ¬ WaitsAny s.flagKernel t mask := by
      rintro mask (⟨hOther, _⟩ | ⟨hRuns, _⟩)
      · rw [hStatus] at hOther
        cases hOther
      · rw [hNot] at hRuns
        cases hRuns
    cases hCall : s.call t with
    | idle =>
      rw [hCall] at hOk
      unfold CallOk at hOk
      rw [hStatus] at hOk
      cases hOk
    | waitAny mask =>
      rw [hCall] at hOk
      exact (hAny mask hOk).elim
    | waitOne mask =>
      rw [hCall] at hOk
      exact (hAny mask hOk).elim
    | waitOneRead mask tmp =>
      rw [hCall] at hOk
      have hRuns := hOk.1
      rw [hNot] at hRuns
      cases hRuns
    | waitAll mask =>
      rw [hCall] at hOk
      rcases hOk with ⟨_, rfl, hSome⟩ | ⟨hRuns, _⟩
      · exact ⟨rfl, hSome⟩
      · rw [hNot] at hRuns
        cases hRuns
  returned := hInv.returned

/- Another kernel that keeps the calls. -/
theorem withKernel
    {f : FlagKernel N} (hInv : s.Inv) (hCalls : FlagInv f s.call) :
    (s.withKernel f).Inv :=
  ⟨hCalls, hInv.returned⟩

/- The end of a wait call. -/
theorem finish
    {t : Fin N} (hInv : s.Inv) (hRuns : s.runnable t = true)
    (hCall : clears (s.call t) = true) :
    (s.finish t).Inv := by
  constructor
  · refine hInv.calls.enter ?_ ?_
    · exact flagBlocked_of_runnable hRuns
    · intro u hNe
      exact threadFlagsClearAtomic_words _ _ hNe
  · intro e hIn
    rcases List.mem_cons.mp hIn with rfl | hOld
    · exact (hInv.calls t).returns hRuns hCall
    · exact hInv.returned e hOld

/- Every step. -/
theorem step
    {op : FlagOp N} (hInv : s.Inv) (hEnabled : op.Enabled s)
    (hExec : op.exec address s = some s') :
    s'.Inv := by
  have hDispatch : ∀ t, FlagInv (s.flagKernel.dispatch t) s.call := by
    intro t
    exact hInv.calls.congr (fun _ => ⟨rfl, rfl, rfl⟩)
  cases op with
  | threadFlagsSet t target mask =>
    rcases Option.map_eq_some_iff.mp hExec with ⟨f, hSet, rfl⟩
    apply hInv.withKernel
    cases t with
    | none => exact hInv.calls.set hSet
    | some t => exact (hDispatch t).set hSet
  | threadFlagsClear t mask =>
    rcases hEnabled with ⟨hRuns, hIdle⟩
    cases hExec
    apply hInv.withKernel
    refine (hDispatch t).idle hIdle ?_ ?_
    · exact flagBlocked_of_runnable (f := s.flagKernel) hRuns
    · intro u hNe
      exact threadFlagsClearAtomic_words _ _ hNe
  | threadFlagsWaitAny t mask =>
    rcases hEnabled with ⟨hRuns, hIdle⟩
    rcases Option.map_eq_some_iff.mp hExec with ⟨f, hWait, rfl⟩
    rcases threadFlagsWaitAny_waits (t := t)
        (f := s.flagKernel.dispatch t) rfl hRuns hWait with
      ⟨hWaits, hOther⟩
    exact ⟨(hDispatch t).enter hWaits hOther, hInv.returned⟩
  | threadFlagsWaitOne t mask =>
    rcases hEnabled with ⟨hRuns, hIdle⟩
    rcases Option.map_eq_some_iff.mp hExec with ⟨f, hWait, rfl⟩
    rcases threadFlagsWaitAny_waits (t := t)
        (f := s.flagKernel.dispatch t) rfl hRuns hWait with
      ⟨hWaits, hOther⟩
    exact ⟨(hDispatch t).enter hWaits hOther, hInv.returned⟩
  | threadFlagsWaitAll t mask =>
    rcases hEnabled with ⟨hRuns, hIdle⟩
    rcases Option.map_eq_some_iff.mp hExec with ⟨f, hWait, rfl⟩
    rcases threadFlagsWaitAll_waits (t := t)
        (f := s.flagKernel.dispatch t) rfl hRuns hWait with
      ⟨hWaits, hOther⟩
    exact ⟨(hDispatch t).enter hWaits hOther, hInv.returned⟩
  | readOne t =>
    rcases hEnabled with ⟨hRuns, _⟩
    unfold FlagOp.exec at hExec
    dsimp only at hExec
    split at hExec
    · rename_i mask hCall
      cases hExec
      refine ⟨hInv.calls.enter ?_ (fun _ _ => ⟨rfl, rfl, rfl⟩), hInv.returned⟩
      have hOk := hInv.calls t
      rw [hCall] at hOk
      rcases hOk with ⟨hStatus, _⟩ | ⟨_, hSome⟩
      · have hNot := flagBlocked_of_runnable (f := s.flagKernel) hRuns
        rw [hStatus] at hNot
        cases hNot
      · exact ⟨hRuns, hSome, BitVec.and_self⟩
    · cases hExec
  | finish t =>
    cases hExec
    exact hInv.finish hEnabled.1 hEnabled.2
  | msgSend t m targetPid block =>
    rcases Option.map_eq_some_iff.mp hExec with ⟨⟨f, outcome⟩, hSend, rfl⟩
    apply hInv.withKernel
    unfold msgSendFromFlags at hSend
    split at hSend
    · exact (hDispatch t).msgSendToSelf hSend
    · exact (hDispatch t).msgSendWith rfl hEnabled.2 hSend
  | msgSendToSelf t m =>
    rcases Option.map_eq_some_iff.mp hExec with ⟨⟨f, outcome⟩, hSend, rfl⟩
    exact hInv.withKernel ((hDispatch t).msgSendToSelf hSend)
  | msgSendReceive t m targetPid =>
    rcases Option.map_eq_some_iff.mp hExec with ⟨⟨f, outcome⟩, hSend, rfl⟩
    exact hInv.withKernel ((hDispatch t).msgSendReceive rfl hEnabled.2 hSend)
  | msgSendOneway m targetPid =>
    rcases Option.map_eq_some_iff.mp hExec with ⟨⟨f, result⟩, hSend, rfl⟩
    exact hInv.withKernel (hInv.calls.msgSendOneway hSend)

end FlagState.Inv

/-
  Under every interleaving no thread waits for flags that it
  has, and every wait call returns what it promises.
-/
theorem flagsOk_of_reachable
    (address : Fin N → BitVec 16) (s : FlagState N)
    (hReach : (flagSystem address).Reachable s) :
    FlagsOk s := by
  have hInv : s.Inv := by
    refine hReach.invariant (I := FlagState.Inv) ?_ ?_
    · rintro s ⟨hStatus, hIdle, hNone⟩
      constructor
      · intro t
        rw [hIdle]
        exact hStatus t
      · intro e hIn
        rw [hNone] at hIn
        cases hIn
    · intro s op s' hInv _ hEnabled hExec
      exact hInv.step hEnabled hExec
  exact hInv.flagsOk

/- Two threads with room for one message each. -/
def flagStart : FlagState 2 where
  flagKernel :=
    { kernel :=
        { Kernel.zero 2 with
          thread := fun t =>
            { Thread.zero 2 with
              status := .pending
              pid := t + 1
              msgArray := some (fun _ => default) }
          schedThreads := fun pid =>
            if pid = 1 then
              some 0
            else if pid = 2 then
              some 1
            else
              none }
      flags := fun _ => 0#16
      waitMask := fun _ => 0#16 }
  call := fun _ => .idle
  returned := []

/-
  A message wakes the first thread, which takes the lower of
  two flags; then it waits for the other and a third one.
-/
theorem flagsOk_of_waitRun :
    ∃ s : FlagState 2,
      (flagSystem (fun _ => 0#16)).runVia (fun _ _ => True)
          flagStart
          [.threadFlagsWaitOne 0 0x8006#16, .msgSend 1 ⟨0, 7, 0⟩ 1 true,
            .threadFlagsSet (some 1) 0 4#16, .readOne 0, .threadFlagsSet none 0 2#16, .finish 0,
            .threadFlagsWaitAll 0 0x8001#16, .threadFlagsSet none 0 1#16, .finish 0,
            .threadFlagsWaitAny 0 8#16] = some s ∧
        s.returned.map FlagReturn.value = [0x8001#16, 4#16] ∧
        (s.flagKernel.kernel.thread 0).status = .flagBlockedAny ∧ FlagsOk s := by
  have hStart : (flagSystem (fun _ => 0#16)).Start flagStart := ⟨fun _ => rfl, fun _ => rfl, rfl⟩
  refine Exists.imp (fun s h => ⟨h.1, h.2.1.1, h.2.1.2, h.2.2⟩)
    (System.exists_run (P := fun s => _ ∧ _) hStart (by decide +kernel)
      (flagsOk_of_reachable (fun _ => 0#16)))

end Riot
