import Mathlib.Tactic.Common

/-
  Histories of calls: an implementation whose calls may
  fail, beside the abstract object it stands for.

  Key definitions include:
    * `History.run`
    * `History.apply`
    * `History.Admits`

  Key theorems include:
    * `History.refines`
-/

----
-- Histories
----

namespace History

variable {σ α ε ρ : Type}

/- Perform calls one after the other; collect the results. -/
def run
    (step : σ → ε → Option (σ × ρ)) :
    σ → List ε → Option (σ × List ρ)
  | s, [] => some (s, [])
  | s, e :: es =>
    match step s e with
    | none => none
    | some (s', res) => (run step s' es).map (fun r => (r.1, res :: r.2))

/- The same on the abstract object, which never fails. -/
def apply
    (next : α → ε → α × ρ) :
    α → List ε → α × List ρ
  | a, [] => (a, [])
  | a, e :: es =>
    ((apply next (next a e).1 es).1, (next a e).2 :: (apply next (next a e).1 es).2)

/- Every call is allowed in the state it is made in. -/
def Admits
    (next : α → ε → α × ρ) (ok : α → ε → Prop) :
    α → List ε → Prop
  | _, [] => True
  | a, e :: es => ok a e ∧ Admits next ok (next a e).1 es

/-
  If every allowed call succeeds with the abstract result and
  keeps a relation, so does every history of allowed calls.
  The relation may count the calls made so far.
-/
theorem refines
    {step : σ → ε → Option (σ × ρ)} {next : α → ε → α × ρ} {ok : α → ε → Prop}
    {R : Nat → σ → α → Prop} {limit n : Nat} {s : σ} {a : α} {es : List ε}
    (hStep : ∀ n s a e, R n s a → n < limit → ok a e →
        ∃ s', step s e = some (s', (next a e).2) ∧ R (n + 1) s' (next a e).1)
    (hR : R n s a)
    (hAdmits : Admits next ok a es)
    (hLimit : n + es.length ≤ limit) :
    ∃ s', run step s es = some (s', (apply next a es).2) ∧
      R (n + es.length) s' (apply next a es).1 := by
  induction es generalizing n s a with
  | nil => exact ⟨s, rfl, hR⟩
  | cons e es ih =>
    simp only [List.length_cons] at hLimit
    rcases hStep n s a e hR (by omega) hAdmits.1 with ⟨s₁, hCall, hR₁⟩
    rcases ih hR₁ hAdmits.2 (by omega) with ⟨s', hRun, hR'⟩
    refine ⟨s', ?_, ?_⟩
    · simp only [run, hCall, hRun, Option.map_some]
      rfl
    · rw [List.length_cons, Nat.add_comm es.length 1, ← Nat.add_assoc]
      exact hR'

end History
