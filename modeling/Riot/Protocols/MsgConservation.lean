import Riot.Protocols.MsgRefinement

/-
  Message conservation: what a thread receives are the
  messages accepted for it, in the order of acceptance, and
  every sender's messages are accepted in the order sent.
-/

----
-- Invariant
----

namespace Riot

variable {N : Nat} {s s' : MsgState N} {w : WaitHead N → List (Fin N)}
variable {t v : Fin N} {m : Msg}

/- The channels, and the kernel that implements them. -/
structure MsgInv
    (s : MsgState N) : Prop where
  linked : ∃ w, MsgLinked s.kernel s.call w
  channels : s.channels.Inv

/- Threads before their first message. -/
theorem MsgInv.of_start
    (hStart : (msgSystem N).Start s) :
    MsgInv s := by
  rcases hStart with ⟨hNull, hStatus, hQueues, hCalls, hAccepted, hDelivered⟩
  have hIdle : ∀ t, s.channels.mode t = .idle := fun t => Kernel.modes_of_none (hCalls t)
  constructor
  · refine ⟨fun _ => [], WaitLists.of_null hNull, ?_, ?_, ?_, fun t => (hQueues t).queueOk.1⟩
    · intro v
      rw [hNull]
      simp
    · intro h t
      simp [hCalls]
    · intro t
      rw [hCalls]
      exact hStatus t
  · constructor
    · intro t v tag hMode
      rw [hIdle] at hMode
      cases hMode
    · intro v
      have hNone : s.channels.accepted v = [] := hAccepted v
      rw [hNone]
      refine ⟨?_, List.Pairwise.nil⟩
      intro a ha
      cases ha
    · intro v
      have hNone : s.channels.accepted v = [] := hAccepted v
      have hEmpty : s.channels.delivered v = [] := hDelivered v
      have hQueue : s.channels.queue v = [] := (hQueues v).queueOk.2
      have hHeld : s.channels.held v = [] := by
        apply Channels.held_eq_nil
        intro m hMode
        rw [hIdle] at hMode
        cases hMode
      unfold Channels.Conserved
      rw [hNone, hEmpty, hQueue, hHeld]
      exact ⟨rfl, fun _ => rfl⟩

/- A woken receiver holds its message. -/
theorem holding_of_runnable
    (hCall : s.call t = some .receiving) (hRuns : s.kernel.runnable t = true) :
    s.channels.mode t = .holding (s.kernel.msgBuffer t) := by
  have hStatus : (s.kernel.thread t).status ≠ .receiveBlocked := by
    intro hBlocked
    unfold Kernel.runnable at hRuns
    rw [hBlocked] at hRuns
    cases hRuns
  unfold MsgState.channels MsgCall.mode
  dsimp only
  rw [hCall]
  exact if_neg hStatus

/- A woken receiver returns with its message. -/
theorem refines_resume
    (hLinked : MsgLinked s.kernel s.call w) (hCall : s.call t = some .receiving)
    (hRuns : s.kernel.runnable t = true) :
    s.Refines { s.deliver t s.kernel with
        call := Function.update s.call t none } := by
  have hLinked' : MsgLinked s.kernel (Function.update s.call t none) w := by
    refine hLinked.change t hLinked.lists hLinked.unmarked ?_
      (fun u hNe => Function.update_of_ne hNe _ _)
      (fun _ _ => rfl) (fun _ _ => rfl) ?_ (hLinked.queues t)
    · intro h u
      rw [hLinked.waiting h u]
      by_cases hEq : u = t
      · subst hEq
        rw [Function.update_self, hCall]
        simp
      · rw [Function.update_of_ne hEq]
    · rw [Function.update_self]
      unfold Kernel.runnable at hRuns
      unfold Kernel.CallOk
      cases hStatus : (s.kernel.thread t).status with
      | running => simp [ThreadStatus.NotInMsg]
      | pending => simp [ThreadStatus.NotInMsg]
      | _ =>
        rw [hStatus] at hRuns
        cases hRuns
  refine MsgState.refines_of_step
    (.finish s.channels t (s.kernel.msgBuffer t) (holding_of_runnable hCall hRuns))
    hLinked' rfl ?_ rfl rfl rfl
  refine (Kernel.modes_update (k := s.kernel) s.call (t := t)
      ?_ (fun _ _ => rfl) (fun _ _ _ => rfl)).trans ?_
  · intro u hNe
    exact Function.update_of_ne hNe _ _
  · dsimp only
    rw [Function.update_self]
    rfl

/- Released senders are settled after every call. -/
theorem MsgOp.exec_of_step
    {op : MsgOp N} (hStep : op.step s = some s') :
    op.exec s = some s'.settle := by
  unfold exec
  rw [hStep]
  rfl

/- Every enabled step is a step of the channels. -/
theorem MsgOp.exec_refines
    {op : MsgOp N} (hLinked : MsgLinked s.kernel s.call w)
    (hEnabled : op.Enabled s) :
    ∃ s', op.exec s = some s' ∧ s.Refines s' := by
  have hFree : ∀ t ∈ op.caller, (s.call t).isNone = true → s.call t = none :=
    fun t _ hNone => Option.isNone_iff_eq_none.mp hNone
  cases op with
  | msgSend t m targetPid =>
    have hCall := hFree t rfl (hEnabled t rfl).2
    rcases MsgState.refines_msgSendFrom hLinked hCall m
        targetPid true with
      ⟨result, hSend, hRefines⟩
    refine ⟨_, exec_of_step ?_, hRefines.settle⟩
    exact congrArg (Option.map (s.sentBy (some t) (s.targetOf t targetPid) (s.stamped t m))) hSend
  | msgTrySend t m targetPid =>
    have hCall := hFree t rfl (hEnabled t rfl).2
    rcases MsgState.refines_msgSendFrom hLinked hCall m
        targetPid false with
      ⟨result, hSend, hRefines⟩
    refine ⟨_, exec_of_step ?_, hRefines.settle⟩
    exact congrArg (Option.map (s.sentBy (some t) (s.targetOf t targetPid) (s.stamped t m))) hSend
  | msgSendToSelf t m =>
    have hCall := hFree t rfl (hEnabled t rfl).2
    rcases MsgState.refines_msgSendToSelf hLinked hCall m with ⟨result, hSend, hRefines⟩
    refine ⟨_, exec_of_step ?_, hRefines.settle⟩
    exact congrArg (Option.map (s.sentBy (some t) (some t) (s.stamped t m))) hSend
  | msgSendInt m targetPid =>
    rcases MsgState.refines_msgSendInt hLinked m targetPid with ⟨result, hSend, hRefines⟩
    refine ⟨_, exec_of_step ?_, hRefines.settle⟩
    exact congrArg
      (Option.map (fun result =>
          s.sentBy none (s.kernel.schedThreads targetPid)
            { m with senderPid := kernelPidIsr }
            (result.1, .returned result.2)))
      hSend
  | msgReceive t =>
    have hCall := hFree t rfl (hEnabled t rfl).2
    rcases MsgState.refines_msgReceiveWith hLinked hCall true with ⟨result, hReceive, hRefines, _⟩
    refine ⟨_, exec_of_step ?_, hRefines⟩
    exact congrArg (Option.map (s.receivedBy t)) hReceive
  | msgTryReceive t =>
    have hCall := hFree t rfl (hEnabled t rfl).2
    rcases MsgState.refines_msgReceiveWith hLinked hCall false with ⟨result, hReceive, hRefines, _⟩
    refine ⟨_, exec_of_step ?_, hRefines⟩
    exact congrArg (Option.map (s.receivedBy t)) hReceive
  | resume t =>
    refine ⟨_, rfl, ?_⟩
    apply MsgState.Refines.settle
    refine refines_resume hLinked ?_ hEnabled.1
    have hCall := hEnabled.2
    split at hCall
    · assumption
    · cases hCall

/- The invariant carries over a refined step. -/
theorem MsgInv.refines
    (hInv : MsgInv s) (hRefines : s.Refines s') :
    MsgInv s' :=
  ⟨hRefines.2, hInv.channels.step hRefines.1⟩

----
-- Delivery
----

variable {rest : List Msg}

/- The operations with which a thread takes its messages. -/
def TakesFor
    (v : Fin N) (_ : MsgState N) (op : MsgOp N) : Prop :=
  op = .msgReceive v ∨ op = .resume v

instance
    (v : Fin N) (s : MsgState N) (op : MsgOp N) :
    Decidable (TakesFor v s op) :=
  inferInstanceAs (Decidable (_ ∨ _))

/- The accepted messages are delivered or pending. -/
theorem MsgInv.conserved
    (hInv : MsgInv s) (v : Fin N) :
    (s.accepted v).map Tag.msg = s.delivered v ++ s.pending v := by
  have hConserved := (hInv.channels.conserved v).1
  rw [List.append_assoc] at hConserved
  rw [s.pending_eq v]
  exact hConserved

/- A thread that can run takes its oldest message. -/
theorem MsgInv.takes
    (hInv : MsgInv s) (hRuns : s.kernel.runnable v = true)
    (hPending : s.pending v = m :: rest) :
    ∃ op s', TakesFor v s op ∧ op.Enabled s ∧ op.exec s = some s' ∧ s.Refines s' ∧
        s'.delivered v = s.delivered v ++ [m] ∧ s'.kernel.runnable v = true := by
  rcases hInv.linked with ⟨w, hLinked⟩
  have hOk := hLinked.calls v
  cases hCall : s.call v with
  | none =>
    have hQueued : (s.kernel.thread v).queued = m :: rest := by
      unfold MsgState.pending at hPending
      rw [hCall] at hPending
      exact hPending
    rcases MsgState.refines_msgReceiveWith hLinked hCall
        true with
      ⟨result, hReceive, hRefines, hReceived⟩
    rcases hReceived m rest hQueued with ⟨hDelivered, _, hStatus⟩
    refine ⟨.msgReceive v, _, .inl rfl, ?_,
        MsgOp.exec_of_step (congrArg (Option.map (s.receivedBy v)) hReceive),
        hRefines, hDelivered, ?_⟩
    · rintro t ⟨⟩
      rw [hCall]
      exact ⟨hRuns, rfl⟩
    · unfold Kernel.runnable at *
      rw [hStatus]
      exact hRuns
  | some c =>
    rw [hCall] at hOk
    cases c with
    | sending u tag =>
      -- A blocked sender cannot run.
      unfold Kernel.runnable at hRuns
      rw [hOk.1] at hRuns
      cases hRuns
    | receiving =>
      have hHead : s.kernel.msgBuffer v = m := by
        have hHolds := holding_of_runnable hCall hRuns
        rw [s.pending_eq v] at hPending
        simp only [Channels.held, hHolds] at hPending
        exact (List.cons.inj hPending).1
      have hRefines := refines_resume hLinked hCall hRuns
      have hSettle := MsgState.settle_of_linked hRefines.2.choose_spec
      refine ⟨.resume v, _, .inr rfl, ⟨hRuns, ?_⟩, MsgOp.exec_of_step rfl, ?_⟩
      · rw [hCall]
      · rw [hSettle]
        refine ⟨hRefines, ?_, hRuns⟩
        refine (Function.update_self _ _ _).trans ?_
        rw [hHead]

/-
  A thread that can run gets all its messages by receiving:
  every step delivers one of those accepted before.
-/
theorem MsgInv.delivers
    (hInv : MsgInv s) (hRuns : s.kernel.runnable v = true) :
    ∃ ops s', (msgSystem N).runVia (TakesFor v) s ops = some s' ∧
        (s.accepted v).map Tag.msg <+: s'.delivered v := by
  generalize hAll : (s.accepted v).map Tag.msg = all
  by_cases hDone : all <+: s.delivered v
  · exact ⟨[], s, rfl, hDone⟩
  refine System.exists_runVia_of_decreasing
    (fun s' => all.length - (s'.delivered v).length)
    (I := fun s' =>
      MsgInv s' ∧ s'.kernel.runnable v = true ∧ all <+: (s'.accepted v).map Tag.msg ∧
        ¬all <+: s'.delivered v)
    ?_ ⟨hInv, hRuns, hAll ▸ List.prefix_rfl, hDone⟩
  rintro s₁ ⟨hInv₁, hRuns₁, hPrefix, hNot⟩
  have hConserved := hInv₁.conserved v
  -- Not everything has been delivered.
  have hMore : ∃ m rest, s₁.pending v = m :: rest := by
    cases hPending : s₁.pending v with
    | nil =>
      rw [hConserved, hPending, List.append_nil] at hPrefix
      exact (hNot hPrefix).elim
    | cons m rest => exact ⟨m, rest, rfl⟩
  have hShort : (s₁.delivered v).length < all.length := by
    by_contra hLong
    apply hNot
    refine List.prefix_of_prefix_length_le hPrefix ?_ (Nat.le_of_not_lt hLong)
    rw [hConserved]
    exact List.prefix_append _ _
  rcases hMore with ⟨m, rest, hPending⟩
  rcases hInv₁.takes hRuns₁ hPending with
    ⟨op, s₂, hTakes, hEnabled, hExec, hRefines, hDelivered, hRuns₂⟩
  refine ⟨op, s₂, hTakes, hEnabled, hExec, ?_⟩
  by_cases hDone₂ : all <+: s₂.delivered v
  · exact .inl hDone₂
  · right
    refine ⟨⟨hInv₁.refines hRefines, hRuns₂, ?_, hDone₂⟩, ?_⟩
    · exact hPrefix.trans ((hRefines.1.accepted_extends v).map Tag.msg)
    · rw [hDelivered, List.length_append, List.length_singleton]
      omega

----
-- Conservation
----

/-
  What holds in every state:
    * the accepted messages of a thread are those it has
      received, then those pending, each exactly once;
    * the messages of one sender were accepted in the order
      of its calls;
    * a thread that can run receives everything accepted for
      it;
    * no call faults.
-/
structure MsgConservation
    (s : MsgState N) : Prop where
  conserved : ∀ v, (s.accepted v).map Tag.msg = s.delivered v ++ s.pending v
  ordered : ∀ v, (s.accepted v).Pairwise (fun a b => a.sender = b.sender → a.seq < b.seq)
  delivers :
    ∀ v, s.kernel.runnable v = true → ∃ ops s',
          (msgSystem N).runVia (TakesFor v) s ops = some s' ∧
            (s.accepted v).map Tag.msg <+: s'.delivered v
  runs : ∀ op : MsgOp N, op.Enabled s → (op.exec s).isSome = true

/- Conservation holds under every interleaving of calls. -/
theorem msgConservation_of_reachable
    {s : MsgState N} (hReach : (msgSystem N).Reachable s) :
    MsgConservation s := by
  have hInv : MsgInv s := by
    refine hReach.invariant (fun s hStart => .of_start hStart) ?_
    intro s op s' hInv _ hEnabled hExec
    rcases hInv.linked with ⟨w, hLinked⟩
    rcases MsgOp.exec_refines hLinked hEnabled with ⟨s₁, hExec₁, hRefines⟩
    have hSame : s₁ = s' := Option.some.inj (hExec₁.symm.trans hExec)
    subst hSame
    exact hInv.refines hRefines
  constructor
  · exact hInv.conserved
  · intro v
    exact (hInv.channels.ordered v).2
  · intro v hRuns
    exact hInv.delivers hRuns
  · intro op hEnabled
    rcases hInv.linked with ⟨w, hLinked⟩
    rcases MsgOp.exec_refines hLinked hEnabled with ⟨s₁, hExec₁, _⟩
    rw [hExec₁]
    rfl

/- Two threads; thread 0 has a queue for one message. -/
def msgStart : MsgState 2 where
  kernel :=
    { Kernel.zero 2 with
      thread := fun t =>
        { Thread.zero 2 with
          status := .pending
          priority := 7
          pid := t + 1
          msgQueue :=
            if t = 0 then ⟨0#32, 0#32, 0#32⟩
            else ⟨0#32, 0#32, -1#32⟩
          msgArray :=
            if t = 0 then some (fun _ => ⟨0, 0, 0⟩) else none }
      schedThreads := fun pid =>
        if pid = 1 then some 0
        else if pid = 2 then some 1
        else none }
  call := fun _ => none
  sent := fun _ => 0
  accepted := fun _ => []
  delivered := fun _ => []

/-
  Thread 1 sends a message through the queue, one from the
  list of waiting senders and one directly; an interrupt
  finds the queue full.
-/
theorem msgConservation_of_sendRun :
    ∃ s,
      (msgSystem 2).runVia (fun _ _ => True) msgStart
          [.msgSend 1 ⟨0, 10, 0⟩ 1, .msgSend 1 ⟨0, 11, 0⟩ 1,
            .msgSendInt ⟨0, 12, 0⟩ 1, .msgReceive 0, .msgTryReceive 0, .msgReceive 0,
            .msgTrySend 1 ⟨0, 13, 0⟩ 1, .resume 0] = some s ∧
        s.delivered 0 = [⟨2, 10, 0⟩, ⟨2, 11, 0⟩, ⟨2, 13, 0⟩] ∧ MsgConservation s := by
  have hStart : (msgSystem 2).Start msgStart := by
    refine ⟨fun _ => rfl, ?_, ?_, fun _ => rfl, fun _ => rfl, fun _ => rfl⟩
    · intro t
      refine ⟨?_, ?_, ?_⟩ <;> exact nofun
    · intro t
      match t with
      | 0 => exact .inr ⟨0, by decide, by simp [msgStart], rfl⟩
      | 1 => exact .inl ⟨rfl, rfl⟩
  exact System.exists_run hStart (by decide +kernel) (fun _ => msgConservation_of_reachable)

end Riot
