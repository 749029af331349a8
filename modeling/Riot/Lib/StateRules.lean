import Mathlib.Control.Basic
import Mathlib.Tactic.Common

/-
  Computations with a state that may not return.

  A computation ensures a property if the property holds
  whenever the computation returns, and keeps it if it holds
  whenever it held before.  It returns with a property if
  there is a value that has it.
-/

----
-- Computations
----

variable {σ α β : Type} {P : σ → Prop} {m : StateT σ Option α} {f : α → StateT σ Option β}

/- The property holds whenever the computation returns. -/
def Ensures
    (P : σ → Prop) (m : StateT σ Option α) : Prop :=
  ∀ s a s', m s = some (a, s') → P s'

/- The property still holds when the computation returns. -/
def Keeps
    (P : σ → Prop) (m : StateT σ Option α) : Prop :=
  ∀ s a s', P s → m s = some (a, s') → P s'

/- A sequence returns if both parts return. -/
theorem bind_eq_some
    {s s' : σ} {b : β} :
    (m >>= f) s = some (b, s') ↔ ∃ a t, m s = some (a, t) ∧ f a t = some (b, s') := by
  constructor
  · intro hBind
    rcases Option.bind_eq_some_iff.mp hBind with ⟨⟨a, t⟩, hFirst, hNext⟩
    exact ⟨a, t, hFirst, hNext⟩
  · rintro ⟨a, t, hFirst, hNext⟩
    exact Option.bind_eq_some_iff.mpr ⟨(a, t), hFirst, hNext⟩

----
-- What Is Ensured
----

namespace Ensures

/- What the rest ensures, the whole ensures. -/
theorem bind
    (hNext : ∀ a, Ensures P (f a)) :
    Ensures P (m >>= f) := by
  intro s b s' hBind
  rcases bind_eq_some.mp hBind with ⟨a, t, _, hRest⟩
  exact hNext a t b s' hRest

/- What is ensured first and then kept is ensured. -/
theorem seq
    (hFirst : Ensures P m) (hNext : ∀ a, Keeps P (f a)) :
    Ensures P (m >>= f) := by
  intro s b s' hBind
  rcases bind_eq_some.mp hBind with ⟨a, t, hStart, hRest⟩
  exact hNext a t b s' (hFirst s a t hStart) hRest

theorem ite
    {c : Prop} [Decidable c] {m₁ m₂ : StateT σ Option α} (hThen : Ensures P m₁)
    (hElse : Ensures P m₂) :
    Ensures P (if c then m₁ else m₂) := by
  split
  · exact hThen
  · exact hElse

end Ensures

----
-- What Is Kept
----

namespace Keeps

theorem pure
    (a : α) :
    Keeps P (Pure.pure a : StateT σ Option α) := by
  intro s b s' h hPure
  cases hPure
  exact h

end Keeps

----
-- What Returns
----

variable {R : α → Prop} {T : β → Prop} {r : Option α} {g : α → Option β}

/- The computation returns a value with the property. -/
def Returns
    (R : α → Prop) (r : Option α) : Prop :=
  ∃ a, r = some a ∧ R a

namespace Returns

theorem of_eq
    {a : α} (hValue : R a) :
    Returns R (some a) :=
  ⟨a, rfl, hValue⟩

/- One computation after another. -/
theorem bind
    (hFirst : Returns R r) (hNext : ∀ a, R a → Returns T (g a)) :
    Returns T (r >>= g) := by
  rcases hFirst with ⟨a, rfl, hValue⟩
  exact hNext a hValue

theorem ite
    {p : Prop} [Decidable p] {r' : Option α} (hThen : p → Returns R r)
    (hElse : ¬ p → Returns R r') :
    Returns R (if p then r else r') := by
  by_cases hTest : p
  · rw [if_pos hTest]
    exact hThen hTest
  · rw [if_neg hTest]
    exact hElse hTest

theorem mono
    {R' : α → Prop} (hReturns : Returns R r) (hImp : ∀ a, R a → R' a) :
    Returns R' r := by
  rcases hReturns with ⟨a, hEq, hValue⟩
  exact ⟨a, hEq, hImp a hValue⟩

end Returns
