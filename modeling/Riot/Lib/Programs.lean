import Riot.Lib.StateRules

/-
  Programs over operations with answers.

  A program is what a thread still does: it ends, or performs
  an operation and goes on with the answer.  What a program
  means is given from outside, by the states it acts on or by
  what each operation demands.
-/

----
-- Programs
----

variable {Op : Type} {Ans : Op → Type} {α β σ ε : Type}

inductive Prog
    (Ans : Op → Type)
    (α : Type) : Type
| done
    (a : α) :
    Prog Ans α
| call
    (o : Op) (next : Ans o → Prog Ans α) :
    Prog Ans α

namespace Prog

/- The operation that is performed next. -/
def next : Prog Ans α → Option Op
| .done _ => none
| .call o _ => some o

/- A single operation. -/
def perform
    (o : Op) : Prog Ans (Ans o) :=
  .call o .done

def bind
    (f : α → Prog Ans β) : Prog Ans α → Prog Ans β
| .done a => f a
| .call o next => .call o (fun x => bind f (next x))

instance : Monad (Prog Ans) where
  pure := .done
  bind p f := bind f p

----
-- Demands
----

/-
  Each operation demands something of a state, given what the
  rest demands of the answer and the next state.  A program
  meets the demands if each of its operations does in turn.
-/
def Meets
    (demand : (o : Op) → (Ans o → σ → Prop) → σ → Prop) :
    Prog Ans α → (α → σ → Prop) → σ → Prop
| .done a, post, s => post a s
| .call o next, post, s => demand o (fun x s' => Meets demand (next x) post s') s

variable {demand : (o : Op) → (Ans o → σ → Prop) → σ → Prop}
variable {post post' : α → σ → Prop} {p : Prog Ans α} {s : σ}

@[simp]
theorem meets_perform
    {o : Op} {post : Ans o → σ → Prop} :
    (perform o).Meets demand post s ↔ demand o post s :=
  Iff.rfl

/- What the rest demands is demanded of the first part. -/
@[simp]
theorem meets_bind
    {f : α → Prog Ans β} {post : β → σ → Prop} :
    (p >>= f).Meets demand post s ↔ p.Meets demand (fun a s' => (f a).Meets demand post s') s := by
  induction p generalizing s with
  | done a => exact Iff.rfl
  | call o next ih =>
    have hNext : (fun x s' =>
            (next x >>= f).Meets demand post s') =
          fun x s' =>
            (next x).Meets demand (fun a t => (f a).Meets demand post t) s' := by
      funext x s'
      exact propext (ih x)
    show demand o _ s ↔ demand o _ s
    rw [← hNext]
    rfl

/- Demands that follow from stronger ones pass to programs. -/
theorem Meets.mono
    (hMeets : p.Meets demand post s)
    (hDemand : ∀ (o : Op) (q q' : Ans o → σ → Prop) (s : σ),
        (∀ x s', q x s' → q' x s') → demand o q s → demand o q' s)
    (hPost : ∀ a s', post a s' → post' a s') :
    p.Meets demand post' s := by
  induction p generalizing s with
  | done a => exact hPost a s hMeets
  | call o next ih => exact hDemand o _ _ s (fun x s' hNext => ih x hNext) hMeets

----
-- Runs
----

/-
  Run a program to its end.  Each operation takes one choice
  of the environment, and may have no result.
-/
def run
    (exec : (o : Op) → ε → StateT σ Option (Ans o)) :
    Prog Ans α → List ε → StateT σ Option α
| .done a, [] => pure a
| .call o next, e :: es => do
    let x ← exec o e
    run exec (next x) es
| _, _ => fun _ => none

variable {exec : (o : Op) → ε → StateT σ Option (Ans o)}

/-
  A program that meets demands which ensure the result of
  each operation ends as demanded.
-/
theorem meets_run
    {es : List ε} {a : α} {s' : σ}
    (hSound :
      ∀ (o : Op) (q : Ans o → σ → Prop) s e x t, demand o q s → exec o e s = some (x, t) → q x t)
    (hMeets : p.Meets demand post s)
    (hRun : p.run exec es s = some (a, s')) :
    post a s' := by
  induction p generalizing s es with
  | done b =>
    cases es with
    | nil =>
      cases hRun
      exact hMeets
    | cons e es => cases hRun
  | call o next ih =>
    cases es with
    | nil => cases hRun
    | cons e es =>
      rcases bind_eq_some.mp hRun with ⟨x, t, hExec, hRest⟩
      exact ih x (hSound o _ s e x t hMeets hExec) hRest

----
-- Pre- and Postconditions
----

/- The demand that the result of an operation is as demanded. -/
def demandOf
    (exec : (o : Op) → ε → StateT σ Option (Ans o)) (o : Op) (post : Ans o → σ → Prop)
    (s : σ) : Prop :=
  ∀ e x s', exec o e s = some (x, s') → post x s'

/-
  From a state with the precondition, the program only ends
  with the postcondition.
-/
def Triple
    (exec : (o : Op) → ε → StateT σ Option (Ans o)) (pre : σ → Prop) (p : Prog Ans α)
    (post : α → σ → Prop) : Prop :=
  ∀ s, pre s → p.Meets (demandOf exec) post s

namespace Triple

variable {pre pre' : σ → Prop}

theorem pure
    {a : α} (hPost : ∀ s, pre s → post a s) :
    Triple exec pre (Pure.pure a : Prog Ans α) post :=
  hPost

/- An operation, given by what it does to the state. -/
theorem perform
    {o : Op} {post : Ans o → σ → Prop}
    (hExec : ∀ s e x s', pre s → exec o e s = some (x, s') → post x s') :
    Triple exec pre (Prog.perform o) post :=
  fun s hPre e x s' => hExec s e x s' hPre

theorem mono
    (hTriple : Triple exec pre p post) (hPre : ∀ s, pre' s → pre s)
    (hPost : ∀ a s, post a s → post' a s) :
    Triple exec pre' p post' :=
  fun s h =>
    (hTriple s (hPre s h)).mono
      (fun _ _ _ _ hImp hDemand e x s' hExec =>
        hImp x s' (hDemand e x s' hExec))
      hPost

/- One program after another. -/
theorem bind
    {f : α → Prog Ans β} {mid : α → σ → Prop} {post : β → σ → Prop}
    (hFirst : Triple exec pre p mid) (hNext : ∀ a, Triple exec (mid a) (f a) post) :
    Triple exec pre (p >>= f) post := by
  intro s hPre
  rw [meets_bind]
  exact (hFirst s hPre).mono
      (fun _ _ _ _ hImp hDemand e x s' hExec =>
        hImp x s' (hDemand e x s' hExec))
      (fun a s' hMid => hNext a s' hMid)

theorem ite
    {c : Prop} [Decidable c] {p' : Prog Ans α} (hThen : c → Triple exec pre p post)
    (hElse : ¬ c → Triple exec pre p' post) :
    Triple exec pre (if c then p else p') post := by
  by_cases hTest : c
  · rw [if_pos hTest]
    exact hThen hTest
  · rw [if_neg hTest]
    exact hElse hTest

/- What a run of the program ends with. -/
theorem run
    {es : List ε} {s s' : σ} {a : α} (hTriple : Triple exec pre p post)
    (hPre : pre s) (hRun : p.run exec es s = some (a, s')) :
    post a s' :=
  meets_run (fun _ _ _ e x t hDemand hExec => hDemand e x t hExec) (hTriple s hPre) hRun

end Triple

end Prog
