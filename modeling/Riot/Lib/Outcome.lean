import Mathlib.Tactic.Common

/-
  Results of computations that may fail.

  An outcome says what holds of the value of a computation, and
  with which errors it may end instead.

  Key definitions include:
    * `EndsWith`

  Key theorems include:
    * `EndsWith.bind`
    * `EndsWith.exists_of_no_error`
-/

----
-- Outcomes
----

variable {ε α β : Type} {E F : ε → Prop} {P : α → Prop} {Q : β → Prop} {r : Except ε α}

def EndsWith
    (E : ε → Prop)
    (P : α → Prop) : Except ε α → Prop
| .ok a => P a
| .error e => E e

namespace EndsWith

theorem ok
    {a : α} (hPost : P a) :
    EndsWith E P (.ok a) :=
  hPost

theorem error
    {e : ε} (hErr : E e) :
    EndsWith E P (.error e) :=
  hErr

/- One computation after another. -/
theorem bind
    {f : α → Except ε β} (hFirst : EndsWith E P r)
    (hNext : ∀ a, P a → EndsWith E Q (f a)) :
    EndsWith E Q (r >>= f) := by
  cases r with
  | ok a => exact hNext a hFirst
  | error e => exact hFirst

theorem mono
    {P' : α → Prop} (hOut : EndsWith E P r) (hErr : ∀ e, E e → F e)
    (hPost : ∀ a, P a → P' a) :
    EndsWith F P' r := by
  cases r with
  | ok a => exact hPost a hOut
  | error e => exact hErr e hOut

/- A computation that cannot fail has a value. -/
theorem exists_of_no_error
    (hOut : EndsWith E P r) (hErr : ∀ e, ¬ E e) :
    ∃ a, r = .ok a ∧ P a := by
  cases r with
  | ok a => exact ⟨a, rfl, hOut⟩
  | error e => exact absurd hOut (hErr e)

end EndsWith
