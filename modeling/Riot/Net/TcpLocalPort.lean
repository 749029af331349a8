import Mathlib.Data.Nat.Find
import Riot.Net.GnrcTcp

/-
  The choice of a local port for an outgoing connection.

  The connections are given by their local ports. The body of
  the loop skips to the loop's condition on a well-known port,
  and the condition asks only whether the port is in use.
-/

----
-- The Loop
----

namespace Riot

/- LL_SEARCH_SCALAR over the list of connections. -/
def isLocalPortInUse
    (tcbs : List UInt16) (portNumber : UInt16) : Bool :=
  tcbs.any (· == portNumber)

/- The number i is the draw of the next round. -/
def getRandomLocalPort
    (tcbs : List UInt16) (randomUint32 : Nat → UInt32) :
    Nat → Nat → Option UInt16
| 0, _ => none
| fuel + 1, i =>
  let ret := (randomUint32 i).toUInt16
  if ret < 1024 then
    -- continue: the condition of the loop is next
    if isLocalPortInUse tcbs ret then
      getRandomLocalPort tcbs randomUint32 fuel (i + 1)
    else
      some ret
  else if isLocalPortInUse tcbs ret then
    getRandomLocalPort tcbs randomUint32 fuel (i + 1)
  else
    some ret

----
-- The Port that is Chosen
----

variable {tcbs : List UInt16} {randomUint32 : Nat → UInt32}

/- The loop ends with the first port that is not in use. -/
theorem getRandomLocalPort_eq_some
    {fuel i : Nat} {ret : UInt16} :
    getRandomLocalPort tcbs randomUint32 fuel i = some ret ↔
      ∃ k < fuel, (randomUint32 (i + k)).toUInt16 = ret ∧ isLocalPortInUse tcbs ret = false ∧
        ∀ j < k, isLocalPortInUse tcbs (randomUint32 (i + j)).toUInt16 = true := by
  induction fuel generalizing i with
  | zero => simp [getRandomLocalPort]
  | succ fuel ih =>
    rw [getRandomLocalPort, ite_self]
    cases hUse : isLocalPortInUse tcbs (randomUint32 i).toUInt16 with
    | false =>
      simp only [Bool.false_eq_true, if_false, Option.some.injEq]
      constructor
      · rintro rfl
        exact ⟨0, Nat.zero_lt_succ fuel, rfl, hUse, fun j hj => absurd hj (Nat.not_lt_zero j)⟩
      · rintro ⟨k, -, hDraw, -, hUsed⟩
        rcases k with _ | k
        · exact hDraw
        · have hFirst := hUsed 0 (Nat.zero_lt_succ k)
          rw [Nat.add_zero, hUse] at hFirst
          cases hFirst
    | true =>
      simp only [if_true, ih]
      constructor
      · rintro ⟨k, hLt, hDraw, hFree, hUsed⟩
        refine ⟨k + 1, Nat.succ_lt_succ hLt, ?_, hFree, ?_⟩
        · rw [← hDraw, Nat.add_assoc, Nat.add_comm 1 k]
        · intro j hj
          rcases j with _ | j
          · exact hUse
          · rw [Nat.add_comm j 1, ← Nat.add_assoc]
            exact hUsed j (Nat.lt_of_succ_lt_succ hj)
      · rintro ⟨k, hLt, hDraw, hFree, hUsed⟩
        rcases k with _ | k
        · rw [← hDraw, Nat.add_zero, hUse] at hFree
          cases hFree
        · refine ⟨k, Nat.lt_of_succ_lt_succ hLt, ?_, hFree, ?_⟩
          · rw [← hDraw, Nat.add_assoc, Nat.add_comm 1 k]
          · intro j hj
            rw [Nat.add_assoc, Nat.add_comm 1 j]
            exact hUsed (j + 1) (Nat.succ_lt_succ hj)

/-
  The port is free and not well-known exactly if every free
  well-known draw comes after a free draw that is not.
-/
theorem getRandomLocalPort_unused_iff
    (tcbs : List UInt16) (randomUint32 : Nat → UInt32) :
    (∀ fuel ret, getRandomLocalPort tcbs randomUint32 fuel 0 = some ret →
      1024 ≤ ret ∧ isLocalPortInUse tcbs ret = false) ↔ ∀ i, (randomUint32 i).toUInt16 < 1024 →
      isLocalPortInUse tcbs (randomUint32 i).toUInt16 = false →
      ∃ j < i, 1024 ≤ (randomUint32 j).toUInt16 ∧
        isLocalPortInUse tcbs (randomUint32 j).toUInt16 = false := by
  simp only [getRandomLocalPort_eq_some, Nat.zero_add]
  constructor
  · intro hRet i hLow hFree
    by_contra hNone
    -- then the first draw that is free is a well-known port
    have hFirst : ∃ k, isLocalPortInUse tcbs (randomUint32 k).toUInt16 = false := ⟨i, hFree⟩
    have hLe : Nat.find hFirst ≤ i := Nat.find_min' hFirst hFree
    have hHigh := hRet (Nat.find hFirst + 1) _
      ⟨Nat.find hFirst, Nat.lt_succ_self _, rfl,
        Nat.find_spec hFirst, fun j hj =>
          Bool.eq_true_of_not_eq_false (Nat.find_min hFirst hj)⟩
    rcases Nat.lt_or_eq_of_le hLe with hLt | hEq
    · exact hNone ⟨_, hLt, hHigh⟩
    · rw [hEq] at hHigh
      exact absurd hLow (UInt16.not_lt.mpr hHigh.1)
  · rintro hDraws fuel ret ⟨k, -, hDraw, hFree, hUsed⟩
    refine ⟨UInt16.not_lt.mp fun hLow => ?_, hFree⟩
    rw [← hDraw] at hLow hFree
    rcases hDraws k hLow hFree with ⟨j, hj, -, hBefore⟩
    rw [hUsed j hj] at hBefore
    cases hBefore

/- A well-known port is returned if the first draw is one. -/
theorem not_getRandomLocalPort_unused :
    ¬∀ tcbs randomUint32 fuel ret, getRandomLocalPort tcbs randomUint32 fuel 0 = some ret →
      1024 ≤ ret ∧ isLocalPortInUse tcbs ret = false :=
  fun h => absurd (h [] (fun _ => 80) 1 80 rfl).1 (by decide)

end Riot
