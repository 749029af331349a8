import Riot.Scheduler.Bitcache

/-
  The run queues as lists of threads.

  `Runqueues mem q` says that the memory holds, at every
  priority, a circular list with the nodes `q`, and that no
  thread is on two queues.  The scheduler's queue operations
  are then operations on `q`.
-/

----
-- Held Queues
----

namespace Riot

open LinkMem

variable {N : Nat}

/- Memory agrees outside the given run-queue nodes. -/
def SameOutside
    (mem mem' : LinkMem (ListHead N) (Fin N)) (changed : Fin N → Prop) : Prop :=
  (∀ h, mem' (.head (.waiting h)) = mem (.head (.waiting h))) ∧
    ∀ e, ¬ changed e → mem' (.entry e) = mem (.entry e)

namespace SameOutside

variable {mem mem' mem'' : LinkMem (ListHead N) (Fin N)} {changed changed' : Fin N → Prop}

/- Every memory agrees with itself. -/
theorem refl :
    SameOutside mem mem changed :=
  ⟨fun _ => rfl, fun _ _ => rfl⟩

/- Agreement composes. -/
theorem trans
    (hLeft : SameOutside mem mem' changed)
    (hRight : SameOutside mem' mem'' changed) :
    SameOutside mem mem'' changed := by
  constructor
  · intro h
    exact (hRight.1 h).trans (hLeft.1 h)
  · intro e hNot
    exact (hRight.2 e hNot).trans (hLeft.2 e hNot)

/- Agreement may forget nodes. -/
theorem mono
    (hSame : SameOutside mem mem' changed) (hImp : ∀ e, changed e → changed' e) :
    SameOutside mem mem' changed' :=
  ⟨hSame.1, fun e hNot =>
    hSame.2 e (fun hIn => hNot (hImp e hIn))⟩

end SameOutside

/- The run queues hold the lists `q`. -/
structure Runqueues
    (mem : LinkMem (ListHead N) (Fin N))
    (q : Nat → List (Fin N)) : Prop where
  circular : ∀ p < schedPrioLevels, IsCircular mem (.runqueue p) (q p)
  disjoint : ∀ p < schedPrioLevels, ∀ p' < schedPrioLevels, ∀ t ∈ q p, t ∈ q p' → p = p'

/- The thread is on one of the queues. -/
def OnQueues
    (q : Nat → List (Fin N)) (t : Fin N) : Prop :=
  ∃ p < schedPrioLevels, t ∈ q p

/- Membership when one queue has been replaced. -/
theorem mem_update_iff
    {q : Nat → List (Fin N)} {prio p : Nat} {l : List (Fin N)} {t : Fin N} :
    t ∈ Function.update q prio l p ↔ (p = prio ∧ t ∈ l) ∨ (p ≠ prio ∧ t ∈ q p) := by
  by_cases hEq : p = prio
  · subst hEq
    simp
  · simp [hEq]

/- Duplicate-free lists of threads fit the fuel. -/
theorem length_le_of_nodup
    {l : List (Fin N)} (hNodup : l.Nodup) :
    l.length ≤ N := by
  simpa using hNodup.length_le_card

namespace Runqueues

variable {mem mem' : LinkMem (ListHead N) (Fin N)} {q : Nat → List (Fin N)}
variable {t : Fin N} {prio : Nat}

/- The nodes of a held queue. -/
theorem circularNodes_eq
    (hQ : Runqueues mem q) (hPrio : prio < schedPrioLevels) :
    circularNodes N mem (.runqueue prio) = q prio :=
  (hQ.circular prio hPrio).circularNodes_eq (length_le_of_nodup (hQ.circular prio hPrio).1)

/- The count of a held queue. -/
theorem clistCount_eq
    (hQ : Runqueues mem q) (hPrio : prio < schedPrioLevels) :
    clistCount N mem (.runqueue prio) = some (q prio).length :=
  Riot.clistCount_eq (hQ.circular prio hPrio) (length_le_of_nodup (hQ.circular prio hPrio).1)

/- Changes outside the queues keep them. -/
theorem congr
    (hQ : Runqueues mem q)
    (hHead : ∀ p < schedPrioLevels, mem' (.head (.runqueue p)) = mem (.head (.runqueue p)))
    (hEntry : ∀ e, OnQueues q e → mem' (.entry e) = mem (.entry e)) :
    Runqueues mem' q := by
  refine ⟨?_, hQ.disjoint⟩
  intro p hp
  exact (hQ.circular p hp).congr (hHead p hp) (fun e he => hEntry e ⟨p, hp, he⟩)

/-
  One queue changes: the new list has new nodes only where
  no other queue has them.
-/
theorem update
    (hQ : Runqueues mem q) {l : List (Fin N)}
    (hCirc : IsCircular mem' (.runqueue prio) l)
    (hNew : ∀ e ∈ l, e ∈ q prio ∨ ¬ OnQueues q e)
    (hHead : ∀ h, h ≠ .runqueue prio → mem' (.head h) = mem (.head h))
    (hEntry : ∀ p < schedPrioLevels, p ≠ prio → ∀ e ∈ q p, mem' (.entry e) = mem (.entry e)) :
    Runqueues mem' (Function.update q prio l) := by
  constructor
  · intro p hp
    by_cases hEq : p = prio
    · subst hEq
      simpa using hCirc
    · rw [Function.update_of_ne hEq]
      exact (hQ.circular p hp).congr (hHead _ (by simpa using hEq)) (hEntry p hp hEq)
  · intro p hp p' hp' e he he'
    by_cases hEq : p = prio
    · by_cases hEq' : p' = prio
      · exact hEq.trans hEq'.symm
      · subst hEq
        rw [Function.update_self] at he
        rw [Function.update_of_ne hEq'] at he'
        rcases hNew e he with hOld | hOff
        · exact hQ.disjoint p hp p' hp' e hOld he'
        · exact (hOff ⟨p', hp', he'⟩).elim
    · rw [Function.update_of_ne hEq] at he
      by_cases hEq' : p' = prio
      · subst hEq'
        rw [Function.update_self] at he'
        rcases hNew e he' with hOld | hOff
        · exact hQ.disjoint p hp p' hp' e he hOld
        · exact (hOff ⟨p, hp, he⟩).elim
      · rw [Function.update_of_ne hEq'] at he'
        exact hQ.disjoint p hp p' hp' e he he'

end Runqueues

----
-- Queue Operations
----

namespace Runqueues

variable {N : Nat} {mem : LinkMem (ListHead N) (Fin N)} {q : Nat → List (Fin N)}
variable {t : Fin N} {prio : Nat}

section

variable (hQ : Runqueues mem q) (hPrio : prio < schedPrioLevels)

include hQ hPrio

/- Pushing a thread that is on no queue. -/
theorem rpush
    (hOff : ¬ OnQueues q t) :
    ∃ mem', clistRpush mem (.runqueue prio) t = some mem' ∧
        Runqueues mem' (Function.update q prio (q prio ++ [t])) ∧
        SameOutside mem mem' (fun e => e = t ∨ OnQueues q e) := by
  have hNot : t ∉ q prio := fun hIn => hOff ⟨prio, hPrio, hIn⟩
  rcases clistRpush_spec (hQ.circular prio hPrio) hNot with ⟨mem', hPush, hCirc, hHead, hEntry⟩
  refine ⟨mem', hPush, ?_, ?_, ?_⟩
  · apply hQ.update hCirc
    · intro e he
      rcases List.mem_append.mp he with hOld | hNew
      · exact .inl hOld
      · rw [List.mem_singleton] at hNew
        exact .inr (hNew ▸ hOff)
    · exact hHead
    · intro p hp hNe e he
      apply hEntry e
      · rintro rfl
        exact hOff ⟨p, hp, he⟩
      · intro hIn
        exact hNe (hQ.disjoint p hp prio hPrio e he hIn)
  · intro h
    exact hHead _ (by simp)
  · intro e hNone
    apply hEntry e
    · exact fun hEq => hNone (.inl hEq)
    · exact fun hIn => hNone (.inr ⟨prio, hPrio, hIn⟩)

/-
  Pushing a thread that is still on its queue keeps the
  queues well formed, possibly without some of the nodes.
-/
theorem rpush_of_mem
    (hMem : t ∈ q prio) :
    ∃ mem' l, clistRpush mem (.runqueue prio) t = some mem' ∧
        Runqueues mem' (Function.update q prio l) ∧ t ∈ l ∧ (∀ e ∈ l, e ∈ q prio) ∧
        SameOutside mem mem' (OnQueues q) := by
  rcases clistRpush_of_mem (hQ.circular prio hPrio) hMem with
    ⟨mem', l, hPush, hCirc, hIn, hSub, hHead, hEntry⟩
  refine ⟨mem', l, hPush, ?_, hIn, hSub, ?_, ?_⟩
  · apply hQ.update hCirc
    · exact fun e he => .inl (hSub e he)
    · exact hHead
    · intro p hp hNe e he
      apply hEntry e
      intro hIn
      exact hNe (hQ.disjoint p hp prio hPrio e he hIn)
  · intro h
    exact hHead _ (by simp)
  · intro e hNone
    exact hEntry e (fun hIn => hNone ⟨prio, hPrio, hIn⟩)

/- Popping drops the first node. -/
theorem lpop :
    ∃ mem', clistLpop mem (.runqueue prio) = some (mem', (q prio).head?) ∧
        Runqueues mem' (Function.update q prio (q prio).tail) ∧
        SameOutside mem mem' (OnQueues q) := by
  rcases clistLpop_spec (hQ.circular prio hPrio) with ⟨mem', hPop, hCirc, hHead, hEntry⟩
  refine ⟨mem', hPop, ?_, ?_, ?_⟩
  · apply hQ.update hCirc
    · exact fun e he => .inl (List.mem_of_mem_tail he)
    · exact hHead
    · intro p hp hNe e he
      apply hEntry e
      intro hIn
      exact hNe (hQ.disjoint p hp prio hPrio e he (List.mem_of_mem_tail hIn))
  · intro h
    exact hHead _ (by simp)
  · intro e hNone
    exact hEntry e (fun hIn =>
      hNone ⟨prio, hPrio, List.mem_of_mem_tail hIn⟩)

/- Advancing rotates the list by one. -/
theorem lpoprpush :
    ∃ mem', clistLpoprpush mem (.runqueue prio) = some mem' ∧
        Runqueues mem' (Function.update q prio ((q prio).rotate 1)) ∧
        SameOutside mem mem' (fun _ => False) := by
  rcases clistLpoprpush_spec (hQ.circular prio hPrio) with ⟨mem', hTurn, hCirc, hHead, hEntry⟩
  refine ⟨mem', hTurn, ?_, ?_, ?_⟩
  · apply hQ.update hCirc
    · exact fun e he => .inl (List.mem_rotate.mp he)
    · exact hHead
    · exact fun _ _ _ e _ => hEntry e
  · intro h
    exact hHead _ (by simp)
  · exact fun e _ => hEntry e

end

end Runqueues

----
-- Debug Loops
----

variable {N : Nat} {mem : LinkMem (ListHead N) (Fin N)} {q : Nat → List (Fin N)}

/- Counting succeeds exactly on circular run queues. -/
theorem countRunqueues_eq_some_iff :
    countRunqueues mem = some () ↔ ∀ p < schedPrioLevels, ∃ l, IsCircular mem (.runqueue p) l := by
  have hList : ∀ is : List Nat, is.forM
            (fun i =>
              (clistCount N mem (.runqueue i)).map (fun _ => ())) = some () ↔
          ∀ i ∈ is, ∃ l, IsCircular mem (.runqueue i) l := by
    intro is
    induction is with
    | nil => simp
    | cons i is ih =>
      rw [List.forM, List.forall_mem_cons]
      cases hCount : clistCount N mem (.runqueue i) with
      | none =>
        constructor
        · intro hFail
          cases hFail
        · rintro ⟨⟨l, hCirc⟩, _⟩
          rw [clistCount_eq hCirc (length_le_of_nodup hCirc.1)] at hCount
          cases hCount
      | some n =>
        rcases clistCount_some hCount with ⟨l, hCirc, _⟩
        constructor
        · intro hRest
          exact ⟨⟨l, hCirc⟩, ih.mp hRest⟩
        · rintro ⟨_, hRest⟩
          exact ih.mpr hRest
  unfold countRunqueues
  rw [hList]
  simp only [List.mem_range]

/- Counting succeeds on held queues. -/
theorem Runqueues.countRunqueues_eq
    (hQ : Runqueues mem q) :
    countRunqueues mem = some () :=
  countRunqueues_eq_some_iff.mpr (fun p hp => ⟨q p, hQ.circular p hp⟩)

/- The inner loop advances queue 1 by the rest of queue i. -/
theorem Runqueues.rotateFor_eq
    {i j fuel : Nat} (hQ : Runqueues mem q) (hi : i < schedPrioLevels)
    (hFuel : (q i).length - j < fuel) :
    ∃ mem', rotateFor i fuel j mem = some mem' ∧
        Runqueues mem' (Function.update q 1 ((q 1).rotate ((q i).length - j))) ∧
        SameOutside mem mem' (fun _ => False) := by
  induction fuel generalizing j mem q with
  | zero => omega
  | succ fuel ih =>
    simp only [rotateFor, hQ.clistCount_eq hi, Option.bind_eq_bind, Option.bind_some]
    by_cases hj : j < (q i).length
    · rw [if_pos hj]
      rcases hQ.lpoprpush (by decide : 1 < schedPrioLevels) with ⟨mem₁, hTurn, hQ₁, hSame₁⟩
      have hLength : (Function.update q 1 ((q 1).rotate 1) i).length = (q i).length := by
        by_cases hEq : i = 1
        · subst hEq
          simp
        · rw [Function.update_of_ne hEq]
      rcases ih (j := j + 1) hQ₁ (by rw [hLength]; omega) with ⟨mem₂, hRest, hQ₂, hSame₂⟩
      refine ⟨mem₂, ?_, ?_, hSame₁.trans hSame₂⟩
      · rw [hTurn, Option.bind_some]
        exact hRest
      · rw [hLength, Function.update_self, Function.update_idem, List.rotate_rotate] at hQ₂
        have hTurns : 1 + ((q i).length - (j + 1)) = (q i).length - j := by
          omega
        rwa [hTurns] at hQ₂
    · rw [if_neg hj]
      have hZero : (q i).length - j = 0 := by omega
      refine ⟨mem, rfl, ?_, .refl⟩
      rw [hZero, List.rotate_zero, Function.update_eq_self]
      exact hQ

/- Number of nodes on all run queues. -/
def queueTotal
    (q : Nat → List (Fin N)) : Nat :=
  ((List.range schedPrioLevels).map (fun i => (q i).length)).sum

/- The debug loop rotates queue 1 by the total size. -/
theorem Runqueues.rotateRunqueues_eq
    (hQ : Runqueues mem q) :
    ∃ mem', rotateRunqueues mem = some mem' ∧
        Runqueues mem' (Function.update q 1 ((q 1).rotate (queueTotal q))) ∧
        SameOutside mem mem' (fun _ => False) := by
  -- Induction on the queues still to be counted.
  have hList : ∀ (is : List Nat)
        (mem : LinkMem (ListHead N) (Fin N))
        (q : Nat → List (Fin N)), (∀ i ∈ is, i < schedPrioLevels) → Runqueues mem q → ∃ mem',
          is.foldlM
              (fun mem i => do
                let count ← clistCount N mem (.runqueue i)
                if count ≠ 0 then
                  rotateFor i (N + 1) 0 mem
                else
                  some mem)
              mem = some mem' ∧
            Runqueues mem'
              (Function.update q 1 ((q 1).rotate (is.map (fun i => (q i).length)).sum)) ∧
            SameOutside mem mem' (fun _ => False) := by
    intro is
    induction is with
    | nil =>
      intro mem q _ hQ
      refine ⟨mem, rfl, ?_, .refl⟩
      simpa using hQ
    | cons i is ih =>
      intro mem q hBound hQ
      have hi := hBound i (by simp)
      have hStep : ∃ mem', (if (q i).length ≠ 0 then rotateFor i (N + 1) 0 mem else
                some mem) = some mem' ∧
              Runqueues mem' (Function.update q 1 ((q 1).rotate (q i).length)) ∧
              SameOutside mem mem' (fun _ => False) := by
        by_cases hZero : (q i).length = 0
        · refine ⟨mem, by simp [hZero], ?_, .refl⟩
          rw [hZero, List.rotate_zero, Function.update_eq_self]
          exact hQ
        · rw [if_pos hZero]
          have hFits : (q i).length ≤ N := length_le_of_nodup (hQ.circular i hi).1
          exact hQ.rotateFor_eq hi (j := 0) (by omega)
      rcases hStep with ⟨mem₁, hOne, hQ₁, hSame₁⟩
      rcases ih mem₁ _
          (fun x hx => hBound x (List.mem_cons_of_mem _ hx))
          hQ₁ with
        ⟨mem₂, hRest, hQ₂, hSame₂⟩
      refine ⟨mem₂, ?_, ?_, hSame₁.trans hSame₂⟩
      · rw [List.foldlM_cons, hQ.clistCount_eq hi, Option.bind_eq_bind, Option.bind_eq_bind,
          Option.bind_some, hOne, Option.bind_some]
        exact hRest
      · have hLengths : (fun x =>
              (Function.update q 1 ((q 1).rotate (q i).length) x).length) =
              fun x => (q x).length := by
          funext x
          by_cases hEq : x = 1
          · subst hEq
            simp
          · rw [Function.update_of_ne hEq]
        rw [hLengths, Function.update_self, Function.update_idem, List.rotate_rotate] at hQ₂
        simpa using hQ₂
  unfold rotateRunqueues queueTotal
  exact hList _ mem q (fun i hi => List.mem_range.mp hi) hQ

end Riot
