import Riot.Lib.FinNumerals
import Mathlib.Algebra.BigOperators.Group.Finset.Basic
import Mathlib.Data.Fintype.BigOperators
import Mathlib.Data.Int.Basic
import Mathlib.Tactic.Common

/-
  Counting the holders of a resource.

  Key definitions include:
    * `single`
    * `tally`

  Key theorems include:
    * `sum_update`
    * `tally_eq_zero`
-/

----
-- Tallies
----

open Function

variable {ι : Type} [Fintype ι] [DecidableEq ι] {α β : Type} [DecidableEq β]

/- One for the resource itself, and nothing for others. -/
def single : Option β → β → Int
| none, _ => 0
| some b, x => if b = x then 1 else 0

/- How many hold a resource, if each holds at most one. -/
def tally
    (f : ι → Option β) (x : β) : Int :=
  ∑ i, single (f i) x

omit [DecidableEq β] in
/- A change at one place changes a sum by the difference. -/
theorem sum_update
    (w : α → Int) (f : ι → α) (i : ι) (a : α) :
    ∑ j, w (update f i a j) = ∑ j, w (f j) - w (f i) + w a := by
  have hOthers :
      ∑ j ∈ Finset.univ.erase i, w (update f i a j) = ∑ j ∈ Finset.univ.erase i, w (f j) := by
    apply Finset.sum_congr rfl
    intro j hMem
    rw [update_of_ne (Finset.ne_of_mem_erase hMem)]
  have hNew := Finset.sum_erase_add Finset.univ (fun j => w (update f i a j)) (Finset.mem_univ i)
  have hOld := Finset.sum_erase_add Finset.univ (fun j => w (f j)) (Finset.mem_univ i)
  simp only [update_self] at hNew
  rw [hOthers] at hNew
  omega

omit [DecidableEq ι] in
/- Nobody holds anything. -/
theorem tally_eq_zero
    {f : ι → Option β} (hNone : ∀ i, f i = none) (x : β) :
    tally f x = 0 := by
  apply Finset.sum_eq_zero
  intro i _
  rw [hNone]
  rfl
