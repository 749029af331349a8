import Riot.Lib.FinNumerals
import Mathlib.Order.WellFounded
import Mathlib.Tactic.Common

/-
  Labelled transition systems, and reachability through
  steps that meet a condition.
-/

----
-- Reachability
----

/-
  Start states, and steps named by events.  An event that is
  enabled may still have no result: the step then faults.
-/
structure System (σ ε : Type) where
  Start : σ → Prop
  Enabled : σ → ε → Prop
  exec : σ → ε → Option σ

namespace System

variable {σ ε : Type} {sys : System σ ε} {ok ok' : σ → ε → Prop}

/-
  The states of runs in which every step meets the condition
  `ok` in the state it starts from.
-/
inductive ReachableVia
    (sys : System σ ε)
    (ok : σ → ε → Prop) : σ → Prop
| start
    {s : σ}
    (hStart : sys.Start s) :
    ReachableVia sys ok s
| step
    {s s' : σ} {e : ε}
    (hReach : ReachableVia sys ok s)
    (hOk : ok s e)
    (hEnabled : sys.Enabled s e)
    (hExec : sys.exec s e = some s') :
    ReachableVia sys ok s'

/- The states of all runs. -/
def Reachable
    (sys : System σ ε) : σ → Prop :=
  ReachableVia sys (fun _ _ => True)

/-
  A property of every start state that each admitted step
  preserves holds in every state reached.
-/
theorem ReachableVia.invariant
    {I : σ → Prop} {s : σ} (hReach : ReachableVia sys ok s)
    (hStart : ∀ s, sys.Start s → I s)
    (hStep : ∀ s e s', I s → ok s e → sys.Enabled s e → sys.exec s e = some s' → I s') :
    I s := by
  induction hReach with
  | start h => exact hStart _ h
  | step _ hOk hEnabled hExec ih => exact hStep _ _ _ ih hOk hEnabled hExec

end System

----
-- Concrete Runs
----

namespace System

variable {σ ε : Type} (sys : System σ ε) (ok : σ → ε → Prop)
variable [∀ s e, Decidable (sys.Enabled s e)] [∀ s e, Decidable (ok s e)]

/- Execute a list of enabled events that meet `ok`. -/
def runVia : σ → List ε → Option σ
| s, [] => some s
| s, e :: es =>
  if ok s e ∧ sys.Enabled s e then
    (sys.exec s e).bind (fun s' => runVia s' es)
  else
    none

variable {sys ok}

/- Executed events stay among the reachable states. -/
theorem reachableVia_of_runVia
    {s s' : σ} {es : List ε} (hReach : ReachableVia sys ok s)
    (hRun : sys.runVia ok s es = some s') :
    ReachableVia sys ok s' := by
  induction es generalizing s with
  | nil =>
    cases hRun
    exact hReach
  | cons e es ih =>
    unfold runVia at hRun
    split at hRun
    · rename_i hBoth
      rcases Option.bind_eq_some_iff.mp hRun with ⟨mid, hExec, hRest⟩
      exact ih (.step hReach hBoth.1 hBoth.2 hExec) hRest
    · cases hRun

/- A checked run reaches a state with the checked property. -/
theorem exists_reachableVia_of_runVia
    {P : σ → Prop} [DecidablePred P] {s : σ} {es : List ε} (hStart : sys.Start s)
    (hRun : (sys.runVia ok s es).any (fun s => decide (P s)) = true) :
    ∃ s', sys.runVia ok s es = some s' ∧ ReachableVia sys ok s' ∧ P s' := by
  rcases (Option.any_eq_true _ _).mp hRun with ⟨s', hs, hP⟩
  exact ⟨s', hs, reachableVia_of_runVia (.start hStart) hs, of_decide_eq_true hP⟩

/- The same with what holds in all states that are reached. -/
theorem exists_run
    {P Q : σ → Prop} [DecidablePred P] {s : σ} {es : List ε} (hStart : sys.Start s)
    (hRun : (sys.runVia ok s es).any (fun s => decide (P s)) = true)
    (hAll : ∀ s', ReachableVia sys ok s' → Q s') :
    ∃ s', sys.runVia ok s es = some s' ∧ P s' ∧ Q s' := by
  rcases exists_reachableVia_of_runVia hStart hRun with ⟨s', hs, hReach, hP⟩
  exact ⟨s', hs, hP, hAll s' hReach⟩

theorem exists_reachableVia
    {P Q : σ → Prop} [DecidablePred P] {s : σ} (es : List ε) (hStart : sys.Start s)
    (hRun : (sys.runVia ok s es).any (fun s => decide (P s)) = true)
    (hAll : ∀ s', ReachableVia sys ok s' → Q s') :
    ∃ s', ReachableVia sys ok s' ∧ P s' ∧ Q s' := by
  rcases exists_reachableVia_of_runVia hStart hRun with ⟨s', _, hReach, hP⟩
  exact ⟨s', hReach, hP, hAll s' hReach⟩

/- What each admitted event preserves, their run preserves. -/
theorem runVia_invariant
    {I : σ → Prop} {s s' : σ} {es : List ε}
    (hStep : ∀ s e s', I s → ok s e → sys.Enabled s e → sys.exec s e = some s' → I s')
    (hRun : sys.runVia ok s es = some s') (hI : I s) :
    I s' := by
  induction es generalizing s with
  | nil =>
    cases hRun
    exact hI
  | cons e es ih =>
    unfold runVia at hRun
    split at hRun
    · rename_i hBoth
      rcases Option.bind_eq_some_iff.mp hRun with ⟨mid, hExec, hRest⟩
      exact ih hRest (hStep s e mid hI hBoth.1 hBoth.2 hExec)
    · cases hRun

/-
  If some admitted event meets the goal or lowers a measure,
  a run meets the goal.
-/
theorem exists_runVia_of_decreasing
    {α : Type} [LT α] [WellFoundedLT α] (μ : σ → α) {I G : σ → Prop} {s : σ}
    (hStep : ∀ s, I s →
        ∃ e s', ok s e ∧ sys.Enabled s e ∧ sys.exec s e = some s' ∧ (G s' ∨ (I s' ∧ μ s' < μ s)))
    (hI : I s) :
    ∃ es s', sys.runVia ok s es = some s' ∧ G s' := by
  induction hm : μ s using WellFoundedLT.induction generalizing s with
  | ind m ih =>
    subst hm
    rcases hStep s hI with ⟨e, s', hOk, hEnabled, hExec, hGoal | ⟨hI', hLt⟩⟩
    · refine ⟨[e], s', ?_, hGoal⟩
      unfold runVia
      rw [if_pos ⟨hOk, hEnabled⟩, hExec]
      rfl
    · rcases ih (μ s') hLt hI' rfl with ⟨es, s'', hRun, hGoal⟩
      refine ⟨e :: es, s'', ?_, hGoal⟩
      unfold runVia
      rw [if_pos ⟨hOk, hEnabled⟩, hExec, Option.bind_some]
      exact hRun

end System
