import Riot.Sys.Event

/-
  Event queues under interrupts.

  The list node of an event says whether the event is queued.
  This is right as long as no event is queued again between its
  removal from a queue and the later clearing of its list node.
-/

----
-- The Property
----

namespace Riot

open LinkMem

variable {H E T : Type}

/-
  Each queue is a circular list of distinct events, an event
  with a null list node is in no queue, and a posted event is in
  its queue or about to be returned.
-/
def EventSound
    (queueOf : E → H) (r : EventRun H E T) : Prop :=
  ∃ events : H → List E, (∀ queue, IsCircular r.mem queue (events queue)) ∧
    (∀ e, r.mem (.entry e) = .null → ∀ queue, e ∉ events queue) ∧
    (∀ e, r.posted e = true → e ∈ events (queueOf e) ∨ ∃ t, r.pc t = .clear e)

/-
  No event is pushed between its removal from a queue and the
  clearing of its list node.
-/
def EventAction.Safe
    (r : EventRun H E T) : EventAction H E T → Prop
| .post e => ¬ (r.mem (.entry e) = .null ∧ ∃ t, r.pc t = .clear e)
| _ => True

----
-- The Invariant
----

structure EventInv
    (queueOf : E → H) (r : EventRun H E T)
    (events : H → List E) : Prop where
  circular : ∀ queue, IsCircular r.mem queue (events queue)
  home : ∀ queue, ∀ e ∈ events queue, queueOf e = queue
  taken : ∀ t e, r.pc t = .clear e → ∀ queue, e ∉ events queue
  cleared : ∀ e, (∀ queue, e ∉ events queue) → (∀ t, r.pc t ≠ .clear e) → r.mem (.entry e) = .null
  posted : ∀ e, r.posted e = true → e ∈ events (queueOf e) ∨ ∃ t, r.pc t = .clear e

section

variable {queueOf : E → H} {r : EventRun H E T} {events : H → List E} {e : E}
variable {mem : LinkMem H E} {t : T}

theorem EventInv.sound
    (h : EventInv queueOf r events) :
    EventSound queueOf r := by
  refine ⟨events, h.circular, ?_, h.posted⟩
  intro e hNull queue hIn
  rcases (h.circular queue).closed hIn with ⟨e', _, hRef⟩
  rw [hNull] at hRef
  cases hRef

theorem EventInv.init
    (waiter : H → Option T) :
    EventInv queueOf (EventRun.init waiter) (fun _ => []) := by
  refine ⟨?_, ?_, ?_, ?_, ?_⟩
  · intro queue
    exact IsCircular.nil_iff.mpr rfl
  · intro queue e hIn
    cases hIn
  · intro t e hAt
    cases hAt
  · intro e _ _
    rfl
  · intro e hPosted
    cases hPosted

/- Only what is in a queue has to be at home there. -/
theorem EventInv.not_mem_of_home
    (h : EventInv queueOf r events) (hNot : e ∉ events (queueOf e)) (queue : H) :
    e ∉ events queue := by
  intro hIn
  rw [← h.home queue e hIn] at hIn
  exact hNot hIn

----
-- Changes of One Queue
----

variable [DecidableEq H] [DecidableEq E] [DecidableEq T] {mem' : LinkMem H E}
variable {queue : H} {l' : List E}

/- Only the events of one queue are touched. -/
theorem EventInv.circular_update
    (h : EventInv queueOf r events) (hCirc : IsCircular mem' queue l')
    (hHeads : ∀ q, q ≠ queue → mem' (.head q) = r.mem (.head q))
    (hSame : ∀ x, queueOf x ≠ queue → mem' (.entry x) = r.mem (.entry x)) (q : H) :
    IsCircular mem' q (Function.update events queue l' q) := by
  by_cases hq : q = queue
  · subst hq
    rw [Function.update_self]
    exact hCirc
  · rw [Function.update_of_ne hq]
    refine (h.circular q).congr (hHeads q hq) ?_
    intro x hx
    apply hSame
    rw [h.home q x hx]
    exact hq

/- The events of one queue are replaced by events at home. -/
theorem EventInv.home_update
    (h : EventInv queueOf r events) (hHome : ∀ x ∈ l', queueOf x = queue) (q : H) :
    ∀ x ∈ Function.update events queue l' q, queueOf x = q := by
  by_cases hq : q = queue
  · subst hq
    rw [Function.update_self]
    exact hHome
  · rw [Function.update_of_ne hq]
    exact h.home q

theorem mem_queue_update_iff
    {x : E} {q : H} :
    x ∈ Function.update events queue l' q ↔ (q = queue ∧ x ∈ l') ∨ (q ≠ queue ∧ x ∈ events q) := by
  by_cases hq : q = queue
  · subst hq
    simp
  · simp [hq]

/- An event that is not in a list keeps out of its way. -/
theorem isCircular_set_of_notMem
    {l : List E} {v : Link E} (hCirc : IsCircular mem queue l) (hNot : e ∉ l) :
    IsCircular (mem.set (.entry e) v) queue l := by
  refine hCirc.congr (set_entry_head _ _ _ _) ?_
  intro x hx
  apply set_of_ne
  intro hEq
  cases hEq
  exact hNot hx

----
-- Steps
----

theorem clistLpop_cases
    {l : List E} (hCirc : IsCircular mem queue l) :
    (l = [] ∧ clistLpop mem queue = some (mem, none)) ∨ ∃ e rest mem', l = e :: rest ∧
        clistLpop mem queue = some (mem', some e) ∧ IsCircular mem' queue rest ∧
        (∀ q, q ≠ queue → mem' (.head q) = mem (.head q)) ∧
        (∀ x, x ∉ rest → mem' (.entry x) = mem (.entry x)) := by
  cases l with
  | nil =>
    left
    have hNull := IsCircular.nil_iff.mp hCirc
    exact ⟨rfl, by simp [clistLpop, hNull]⟩
  | cons e rest =>
    right
    rcases clistLpop_spec hCirc with ⟨mem', hPop, hTail, hHeads, hEntries⟩
    exact ⟨e, rest, mem', rfl, hPop, hTail, hHeads, hEntries⟩

/- A pop takes the first event of some queue, or none. -/
theorem lpopFirst_cases
    (hCirc : ∀ q, IsCircular mem q (events q)) (queues : List H) :
    lpopFirst mem queues = some (mem, none) ∨ ∃ queue e rest mem', events queue = e :: rest ∧
        lpopFirst mem queues = some (mem', some e) ∧ IsCircular mem' queue rest ∧
        (∀ q, q ≠ queue → mem' (.head q) = mem (.head q)) ∧
        (∀ x, x ∉ rest → mem' (.entry x) = mem (.entry x)) := by
  induction queues with
  | nil => exact Or.inl rfl
  | cons queue queues ih =>
    rcases clistLpop_cases (hCirc queue) with ⟨_, hPop⟩ | ⟨e, rest, mem', hEq, hPop, hRest⟩
    · rw [lpopFirst, hPop]
      exact ih
    · right
      refine ⟨queue, e, rest, mem', hEq, ?_, hRest⟩
      rw [lpopFirst, hPop]

section

variable (h : EventInv queueOf r events)

include h

/- A thread goes on without an event. -/
theorem EventInv.moved
    {r' : EventRun H E T} {pc : EventPc H E} (hOld : ∀ e, r.pc t ≠ .clear e)
    (hNew : ∀ e, pc ≠ .clear e) (hPc : r'.pc = Function.update r.pc t pc)
    (hMem : r'.mem = r.mem) (hPosted : r'.posted = r.posted) :
    EventInv queueOf r' events := by
  have hClear : ∀ t' e, r'.pc t' = .clear e ↔ r.pc t' = .clear e := by
    intro t' e
    rw [hPc]
    by_cases ht : t' = t
    · subst ht
      rw [Function.update_self]
      exact ⟨fun hAt => absurd hAt (hNew e), fun hAt => absurd hAt (hOld e)⟩
    · rw [Function.update_of_ne ht]
  refine ⟨?_, h.home, ?_, ?_, ?_⟩
  · rw [hMem]
    exact h.circular
  · intro t' e hAt
    exact h.taken t' e ((hClear t' e).mp hAt)
  · intro e hNot hNone
    rw [hMem]
    refine h.cleared e hNot ?_
    intro t' hAt
    exact hNone t' ((hClear t' e).mpr hAt)
  · intro e hPost
    rw [hPosted] at hPost
    rcases h.posted e hPost with hIn | ⟨t', hAt⟩
    · exact Or.inl hIn
    · exact Or.inr ⟨t', (hClear t' e).mpr hAt⟩

/- A thread takes the first event off a queue. -/
theorem EventInv.took
    {r' : EventRun H E T} {rest : List E} (hOld : ∀ x, r.pc t ≠ .clear x)
    (hEvents : events queue = e :: rest) (hCirc : IsCircular r'.mem queue rest)
    (hHeads : ∀ q, q ≠ queue → r'.mem (.head q) = r.mem (.head q))
    (hEntries : ∀ x, x ∉ rest → r'.mem (.entry x) = r.mem (.entry x))
    (hPc : r'.pc = Function.update r.pc t (.clear e))
    (hPosted : r'.posted = r.posted) :
    EventInv queueOf r' (Function.update events queue rest) := by
  have hHome : ∀ x ∈ rest, queueOf x = queue := by
    intro x hx
    exact h.home queue x (by rw [hEvents]; simp [hx])
  have hHomeE : queueOf e = queue := h.home queue e (by rw [hEvents]; simp)
  have hNotRest : e ∉ rest := by
    have hNodup := (h.circular queue).1
    rw [hEvents] at hNodup
    exact (List.nodup_cons.mp hNodup).1
  have hSub : ∀ x q, x ∈ Function.update events queue rest q → x ∈ events q := by
    intro x q hIn
    rcases mem_queue_update_iff.mp hIn with ⟨rfl, hx⟩ | ⟨_, hx⟩
    · rw [hEvents]
      exact List.mem_cons_of_mem _ hx
    · exact hx
  have hOther : ∀ {t' x}, r.pc t' = .clear x → r'.pc t' = .clear x := by
    intro t' x hAt
    rw [hPc, Function.update_of_ne]
    · exact hAt
    · rintro rfl
      exact hOld x hAt
  have hSelf : r'.pc t = .clear e := by
    rw [hPc, Function.update_self]
  refine ⟨h.circular_update hCirc hHeads ?_, h.home_update hHome, ?_, ?_, ?_⟩
  · intro x hx
    exact hEntries x (fun hIn => hx (hHome x hIn))
  · intro t' x hAt q hIn
    by_cases ht : t' = t
    · subst ht
      rw [hSelf] at hAt
      cases hAt
      rcases mem_queue_update_iff.mp hIn with ⟨_, hx⟩ | ⟨hq, hx⟩
      · exact hNotRest hx
      · exact hq ((h.home q e hx).symm.trans hHomeE)
    · rw [hPc, Function.update_of_ne ht] at hAt
      exact h.taken t' x hAt q (hSub x q hIn)
  · intro x hNot hNone
    have hNe : x ≠ e := by
      rintro rfl
      exact hNone t hSelf
    have hNotRest' : x ∉ rest := by
      intro hIn
      exact hNot queue (mem_queue_update_iff.mpr (.inl ⟨rfl, hIn⟩))
    rw [hEntries x hNotRest']
    refine h.cleared x ?_ ?_
    · intro q hIn
      by_cases hq : q = queue
      · subst hq
        rw [hEvents] at hIn
        rcases List.mem_cons.mp hIn with hEq | hIn
        · exact hNe hEq
        · exact hNotRest' hIn
      · exact hNot q (mem_queue_update_iff.mpr (.inr ⟨hq, hIn⟩))
    · intro t' hAt
      exact hNone t' (hOther hAt)
  · intro x hPost
    rw [hPosted] at hPost
    rcases h.posted x hPost with hIn | ⟨t', hAt⟩
    · by_cases hEq : x = e
      · subst hEq
        exact Or.inr ⟨t, hSelf⟩
      · left
        rw [mem_queue_update_iff]
        by_cases hq : queueOf x = queue
        · rw [hq, hEvents] at hIn
          refine Or.inl ⟨hq, ?_⟩
          rcases List.mem_cons.mp hIn with hx | hx
          · exact absurd hx hEq
          · exact hx
        · exact Or.inr ⟨hq, hIn⟩
    · exact Or.inr ⟨t', hOther hAt⟩

/- A thread clears the list node of what it took. -/
theorem EventInv.returned
    (hAt : r.pc t = .clear e) :
    EventInv queueOf (eventClear r t e) events := by
  have hNotIn := h.taken t e hAt
  have hClear : ∀ t' x, (eventClear r t e).pc t' = .clear x → r.pc t' = .clear x := by
    intro t' x hClear
    by_cases ht : t' = t
    · subst ht
      simp [eventClear, EventRun.goto] at hClear
    · simpa [eventClear, EventRun.goto, ht] using hClear
  have hKept : ∀ t' x, x ≠ e → r.pc t' = .clear x → (eventClear r t e).pc t' = .clear x := by
    intro t' x hNe hOther
    have ht : t' ≠ t := by
      rintro rfl
      rw [hAt] at hOther
      cases hOther
      exact hNe rfl
    simpa [eventClear, EventRun.goto, ht] using hOther
  refine ⟨?_, h.home, ?_, ?_, ?_⟩
  · intro q
    exact isCircular_set_of_notMem (h.circular q) (hNotIn q)
  · intro t' x hx
    exact h.taken t' x (hClear t' x hx)
  · intro x hNot hNone
    by_cases hEq : x = e
    · subst hEq
      exact set_same _ _ _
    · have hOld : r.mem (.entry x) = .null := by
        refine h.cleared x hNot ?_
        intro t' hx
        exact hNone t' (hKept t' x hEq hx)
      rw [← hOld]
      exact set_of_ne _ _ (by simpa using hEq)
  · intro x hPost
    have hNe : x ≠ e := by
      rintro rfl
      simp [eventClear, EventRun.goto] at hPost
    have hOld : r.posted x = true := by
      simpa [eventClear, EventRun.goto, hNe] using hPost
    rcases h.posted x hOld with hIn | ⟨t', hx⟩
    · exact Or.inl hIn
    · exact Or.inr ⟨t', hKept t' x hNe hx⟩

/- An event is queued, or it is known to be under way. -/
theorem EventInv.post
    (hSafe : (EventAction.post e : EventAction H E T).Safe r) :
    ∃ r' events', eventPost r (queueOf e) e = some r' ∧ EventInv queueOf r' events' := by
  unfold eventPost
  by_cases hNull : r.mem (.entry e) = .null
  · have hFree : ∀ t, r.pc t ≠ .clear e := by
      intro t hAt
      exact hSafe ⟨hNull, t, hAt⟩
    have hNot : ∀ q, e ∉ events q := by
      intro q hIn
      rcases (h.circular q).closed hIn with ⟨e', _, hRef⟩
      rw [hNull] at hRef
      cases hRef
    rcases clistRpush_spec (h.circular (queueOf e))
      (hNot (queueOf e)) with
      ⟨mem', hPush, hCirc, hHeads, hEntries⟩
    have hHome : ∀ x ∈ events (queueOf e) ++ [e], queueOf x = queueOf e := by
      intro x hx
      rcases List.mem_append.mp hx with hIn | hIn
      · exact h.home _ x hIn
      · rw [List.mem_singleton.mp hIn]
    refine ⟨{ r with
      mem := mem'
      notify := r.notify ++ (r.waiter (queueOf e)).toList
      posted := Function.update r.posted e true },
      Function.update events (queueOf e) (events (queueOf e) ++ [e]), ?_, ?_⟩
    · rw [if_pos hNull, hPush]
      rfl
    · refine ⟨h.circular_update hCirc hHeads ?_, h.home_update hHome, ?_, ?_, ?_⟩
      · intro x hx
        refine hEntries x ?_ ?_
        · rintro rfl
          exact hx rfl
        · exact fun hIn => hx (h.home _ x hIn)
      · intro t x hAt q hIn
        rcases mem_queue_update_iff.mp hIn with ⟨_, hx⟩ | ⟨_, hx⟩
        · rcases List.mem_append.mp hx with hx | hx
          · exact h.taken t x hAt _ hx
          · rw [List.mem_singleton.mp hx] at hAt
            exact hFree t hAt
        · exact h.taken t x hAt q hx
      · intro x hNotIn hNone
        have hOut : x ∉ events (queueOf e) ++ [e] := by
          intro hx
          exact hNotIn (queueOf e) (mem_queue_update_iff.mpr (.inl ⟨rfl, hx⟩))
        rw [List.mem_append, List.mem_singleton, not_or] at hOut
        refine (hEntries x hOut.2 hOut.1).trans ?_
        refine h.cleared x ?_ hNone
        intro q hIn
        by_cases hq : q = queueOf e
        · subst hq
          exact hOut.1 hIn
        · exact hNotIn q (mem_queue_update_iff.mpr (.inr ⟨hq, hIn⟩))
      · intro x hPost
        by_cases hEq : x = e
        · subst hEq
          left
          rw [Function.update_self]
          simp
        · have hOld : r.posted x = true := by
            simpa [hEq] using hPost
          rcases h.posted x hOld with hIn | hAt
          · left
            rw [mem_queue_update_iff]
            by_cases hq : queueOf x = queueOf e
            · exact Or.inl ⟨hq, by rw [← hq]; simp [hIn]⟩
            · exact Or.inr ⟨hq, hIn⟩
          · exact Or.inr hAt
  · refine ⟨{ r with
      notify := r.notify ++ (r.waiter (queueOf e)).toList
      posted := Function.update r.posted e true }, events, ?_, ?_⟩
    · rw [if_neg hNull]
      rfl
    · refine ⟨h.circular, h.home, h.taken, h.cleared, ?_⟩
      intro x hPost
      by_cases hEq : x = e
      · subst hEq
        by_contra hNone
        rw [not_or, not_exists] at hNone
        exact hNull (h.cleared x (h.not_mem_of_home hNone.1) hNone.2)
      · have hOld : r.posted x = true := by
          simpa [hEq] using hPost
        exact h.posted x hOld

/- An event is removed from its queue if it is there. -/
theorem EventInv.cancel
    [Fintype E] :
    ∃ r' events', eventCancel r (queueOf e) e = some r' ∧ EventInv queueOf r' events' := by
  have hNodup := (h.circular (queueOf e)).1
  have hSpec :
      ∃ mem' res, clistRemove (Fintype.card E) r.mem (queueOf e) e = some (mem', res) ∧ _ :=
    clistRemove_spec (h.circular (queueOf e)) hNodup.length_le_card
  rcases hSpec with ⟨mem', res, hRemove, hCirc, hHeads, hEntries⟩
  have hGone : e ∉ (events (queueOf e)).erase e := hNodup.not_mem_erase
  have hSub : ∀ x, x ∈ (events (queueOf e)).erase e → x ∈ events (queueOf e) :=
    fun x hx => List.mem_of_mem_erase hx
  have hNe : ∀ {x}, x ≠ e → mem'.set (.entry e) .null (.entry x) = mem' (.entry x) := by
    intro x hx
    exact set_of_ne _ _ (by simpa using hx)
  refine ⟨{ r with mem := mem'.set (.entry e) .null, posted := Function.update r.posted e false },
    Function.update events (queueOf e) ((events (queueOf e)).erase e), ?_, ?_⟩
  · rw [eventCancel, hRemove]
    rfl
  · refine ⟨h.circular_update (isCircular_set_of_notMem hCirc hGone) ?_ ?_,
      h.home_update (fun x hx => h.home _ x (hSub x hx)), ?_, ?_, ?_⟩
    · intro q hq
      exact (set_entry_head mem' e .null q).trans (hHeads q hq)
    · intro x hx
      have hEq : x ≠ e := by
        rintro rfl
        exact hx rfl
      exact (hNe hEq).trans (hEntries x (fun hIn => hx (h.home _ x (hSub x hIn))))
    · intro t x hAt q hIn
      rcases mem_queue_update_iff.mp hIn with ⟨_, hx⟩ | ⟨_, hx⟩
      · exact h.taken t x hAt _ (hSub x hx)
      · exact h.taken t x hAt q hx
    · intro x hNotIn hNone
      by_cases hEq : x = e
      · subst hEq
        exact set_same _ _ _
      · have hOut : x ∉ (events (queueOf e)).erase e := by
          intro hx
          exact hNotIn (queueOf e) (mem_queue_update_iff.mpr (.inl ⟨rfl, hx⟩))
        refine ((hNe hEq).trans (hEntries x hOut)).trans ?_
        refine h.cleared x ?_ hNone
        intro q hIn
        by_cases hq : q = queueOf e
        · subst hq
          exact hOut ((List.mem_erase_of_ne hEq).mpr hIn)
        · exact hNotIn q (mem_queue_update_iff.mpr (.inr ⟨hq, hIn⟩))
    · intro x hPost
      have hEq : x ≠ e := by
        rintro rfl
        simp at hPost
      have hOld : r.posted x = true := by
        simpa [hEq] using hPost
      rcases h.posted x hOld with hIn | hAt
      · left
        rw [mem_queue_update_iff]
        by_cases hq : queueOf x = queueOf e
        · refine Or.inl ⟨hq, ?_⟩
          rw [List.mem_erase_of_ne hEq, ← hq]
          exact hIn
        · exact Or.inr ⟨hq, hIn⟩
      · exact Or.inr hAt

end

/- A thread outside of the functions has taken nothing. -/
theorem EventPc.ne_clear_of_isIdle
    {pc : EventPc H E} (hIdle : pc.isIdle = true) (e : E) :
    pc ≠ .clear e := by
  rintro rfl
  cases hIdle

theorem EventInv.get
    (h : EventInv queueOf r events) (queue : H) (hIdle : (r.pc t).isIdle = true) :
    ∃ r' events', eventGet r t queue = some r' ∧ EventInv queueOf r' events' := by
  have hOld := EventPc.ne_clear_of_isIdle hIdle
  rcases clistLpop_cases (h.circular queue) with
    ⟨_, hPop⟩ | ⟨e, rest, mem', hEq, hPop, hCirc, hRest⟩
  · refine ⟨r.goto t (.idle none), events, ?_, ?_⟩
    · rw [eventGet, hPop]
      rfl
    · exact h.moved hOld (fun _ hClear => by cases hClear)
        rfl rfl rfl
  · refine ⟨{ r with mem := mem' }.goto t (.clear e), Function.update events queue rest, ?_, ?_⟩
    · rw [eventGet, hPop]
      rfl
    · exact h.took hOld hEq hCirc hRest.1 hRest.2 rfl rfl

theorem EventInv.threadStep
    (h : EventInv queueOf r events) :
    ∃ r' events', eventThreadStep r t = some r' ∧ EventInv queueOf r' events' := by
  unfold eventThreadStep
  cases hAt : r.pc t with
  | idle result => exact ⟨r, events, rfl, h⟩
  | clear e => exact ⟨_, events, rfl, h.returned hAt⟩
  | waitPop queues =>
    have hOld : ∀ e, r.pc t ≠ .clear e := by
      intro e hClear
      rw [hAt] at hClear
      cases hClear
    rcases lpopFirst_cases h.circular queues with
      hPop | ⟨queue, e, rest, mem', hEq, hPop, hCirc, hRest⟩
    · refine ⟨r.goto t (.waitFlags queues), events, ?_, ?_⟩
      · simp only [eventWaitPop, hPop]
        rfl
      · exact h.moved hOld (fun _ hClear => by cases hClear)
          rfl rfl rfl
    · refine ⟨{ r with mem := mem' }.goto t (.clear e), Function.update events queue rest, ?_, ?_⟩
      · simp only [eventWaitPop, hPop]
        rfl
      · exact h.took hOld hEq hCirc hRest.1 hRest.2 rfl rfl
  | waitFlags queues =>
    have hOld : ∀ e, r.pc t ≠ .clear e := by
      intro e hClear
      rw [hAt] at hClear
      cases hClear
    exact ⟨_, events, rfl, h.moved hOld (fun _ hClear => by cases hClear) rfl rfl rfl⟩

----
-- All Runs
----

variable [Fintype E]

/- No step faults, and each keeps the invariant. -/
theorem EventInv.exec
    {a : EventAction H E T} (h : EventInv queueOf r events) (hSafe : a.Safe r)
    (hPossible : a.Possible r) :
    ∃ r' events', eventExec queueOf r a = some r' ∧ EventInv queueOf r' events' := by
  cases a with
  | post e => exact h.post hSafe
  | notify t => exact ⟨_, events, rfl, ⟨h.circular, h.home, h.taken, h.cleared, h.posted⟩⟩
  | cancel e => exact h.cancel
  | get t queue => exact h.get queue hPossible
  | wait t queues =>
    exact ⟨_, events, rfl, h.moved (EventPc.ne_clear_of_isIdle hPossible.1)
      (fun _ hClear => by cases hClear) rfl rfl rfl⟩
  | step t => exact h.threadStep

/-
  The queues are sound in every run in which no event is pushed
  between its removal and the clearing of its list node.
-/
theorem eventSound_of_reachable
    (hReach : (eventSystem queueOf).ReachableVia (fun r a => a.Safe r) r) :
    EventSound queueOf r := by
  have hInv : ∃ events, EventInv queueOf r events := by
    refine hReach.invariant (I := fun r => ∃ events, EventInv queueOf r events) ?_ ?_
    · rintro _ ⟨waiter, rfl⟩
      exact ⟨_, EventInv.init waiter⟩
    · rintro r a r' ⟨events, h⟩ hSafe hPossible hExec
      rcases h.exec hSafe hPossible with ⟨r'', events', hSome, h'⟩
      have hEq : r'' = r' := by
        have hBoth := hSome.symm.trans hExec
        exact Option.some.inj hBoth
      subst hEq
      exact ⟨events', h'⟩
  rcases hInv with ⟨events, h⟩
  exact h.sound

end

----
-- Runs of One Thread
----

instance
    (r : EventRun Unit Unit Unit) (a : EventAction Unit Unit Unit) :
    Decidable (a.Possible r) := by
  cases a <;> unfold EventAction.Possible <;> infer_instance

instance
    (r : EventRun Unit Unit Unit) (a : EventAction Unit Unit Unit) :
    Decidable (a.Safe r) := by
  cases a <;> unfold EventAction.Safe <;> infer_instance

instance
    (r : EventRun Unit Unit Unit) (a : EventAction Unit Unit Unit) :
    Decidable ((eventSystem (fun _ : Unit => ())).Enabled r a) :=
  inferInstanceAs (Decidable (a.Possible r))

/- One queue, one event, and the thread that waits. -/
def oneThread : EventRun Unit Unit Unit :=
  EventRun.init (fun _ => some ())

theorem oneThread_start :
    (eventSystem (fun _ : Unit => ())).Start oneThread :=
  ⟨fun _ => some (), rfl⟩

/- A post that falls between removal and clearing. -/
theorem eventSound_posted :
    ∃ r : EventRun Unit Unit Unit,
      (eventSystem (fun _ => ())).ReachableVia
          (fun r a => a.Safe r) r ∧ r.pc () = .idle (some ()) ∧ EventSound (fun _ => ()) r := by
  exact System.exists_reachableVia
    [.post (), .notify (), .wait () [()], .step (), .post (), .step ()]
    oneThread_start (by decide +kernel) (fun _ => eventSound_of_reachable)

/-
  An event that is cancelled and posted between its removal and
  the clearing of its list node is in the queue with a null
  list node.
-/
theorem not_eventSound_requeued :
    ∃ r : EventRun Unit Unit Unit,
      (eventSystem (fun _ => ())).Reachable r ∧ ¬ EventSound (fun _ => ()) r := by
  have hRun :
      ((eventSystem (fun _ : Unit => ())).runVia
          (fun _ _ => True) oneThread
          [.post (), .get () (), .cancel (), .post (), .step ()]).any
        (fun r => decide (r.mem (.head ()) = .ref () ∧ r.mem (.entry ()) = .null)) = true := by
    decide +kernel
  rcases System.exists_reachableVia_of_runVia oneThread_start hRun with ⟨r, _, hReach, hHead, hNull⟩
  refine ⟨r, hReach, ?_⟩
  rintro ⟨events, hCirc, hOut, _⟩
  have hNil : events () ≠ [] := by
    rw [Ne, (hCirc ()).eq_nil_iff, hHead]
    intro hEq
    cases hEq
  rcases List.exists_mem_of_ne_nil _ hNil with ⟨e, hIn⟩
  exact hOut e hNull () hIn

end Riot
