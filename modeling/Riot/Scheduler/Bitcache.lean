import Riot.Core.Sched

/-
  The run-queue cache as a set of priorities.

  Both bit orders store one bit per priority, and reading
  the cache returns the smallest stored priority.
-/

----
-- Bit Positions
----

namespace Riot

namespace BitOrder

/- Index of the bit that stands for a priority. -/
def index
    (order : BitOrder) (prio : Nat) : Nat :=
  match order with
  | .clz => 31 - prio
  | .lsb _ => prio

section

variable (order : BitOrder)

include order

/- Indices stay inside the word. -/
theorem index_lt
    {prio : Nat} (hPrio : prio < 32) :
    order.index prio < 32 := by
  cases order <;> (simp only [index]; omega)

/- Distinct priorities use distinct bits. -/
theorem index_inj
    {p q : Nat} (hp : p < 32) (hq : q < 32) :
    order.index p = order.index q ↔ p = q := by
  cases order with
  | clz =>
    simp only [index]
    omega
  | lsb build => simp only [index]

/- The shifted constants are single-bit words. -/
theorem bit_eq_twoPow
    {prio : Nat} (hPrio : prio < 32) :
    order.bit prio = BitVec.twoPow 32 (order.index prio) := by
  cases order with
  | clz =>
    have hAll : ∀ p : Fin 32, 0x80000000#32 >>> p.val = BitVec.twoPow 32 (31 - p.val) := by
      decide
    exact hAll ⟨prio, hPrio⟩
  | lsb build => exact (BitVec.twoPow_eq 32 prio).symm

/- The cache test reads the bit of the priority. -/
theorem test_eq_getLsbD
    (bitcache : BitVec 32) {prio : Nat} (hPrio : prio < 32) :
    order.test bitcache prio = bitcache.getLsbD (order.index prio) := by
  have hi := order.index_lt hPrio
  unfold test
  rw [order.bit_eq_twoPow hPrio, BitVec.and_twoPow]
  by_cases hBit : bitcache.getLsbD (order.index prio) = true
  · have hNe : BitVec.twoPow 32 (order.index prio) ≠ 0#32 := by
      intro hZero
      have hSelf := congrArg (fun w => BitVec.getLsbD w (order.index prio)) hZero
      simp [hi] at hSelf
    simp [hBit, hNe]
  · simp [hBit]

/- Storing a priority adds exactly that priority. -/
theorem test_or_bit
    (bitcache : BitVec 32) {p q : Nat} (hp : p < 32) (hq : q < 32) :
    order.test (bitcache ||| order.bit p) q = (order.test bitcache q || decide (q = p)) := by
  rw [order.test_eq_getLsbD _ hq, order.test_eq_getLsbD _ hq, BitVec.getLsbD_or,
    order.bit_eq_twoPow hp, BitVec.getLsbD_twoPow]
  have hInj := order.index_inj hp hq
  by_cases hEq : q = p
  · simp [hEq, order.index_lt hp]
  · have hNe : order.index p ≠ order.index q := by
      intro h
      exact hEq (hInj.mp h).symm
    simp [hEq, hNe]

/- Clearing a priority removes exactly that priority. -/
theorem test_and_not_bit
    (bitcache : BitVec 32) {p q : Nat} (hp : p < 32) (hq : q < 32) :
    order.test (bitcache &&& ~~~(order.bit p)) q = (order.test bitcache q && !decide (q = p)) := by
  rw [order.test_eq_getLsbD _ hq, order.test_eq_getLsbD _ hq, BitVec.getLsbD_and,
    BitVec.getLsbD_not, order.bit_eq_twoPow hp, BitVec.getLsbD_twoPow]
  have hInj := order.index_inj hp hq
  have hiq := order.index_lt hq
  by_cases hEq : q = p
  · simp [hEq, order.index_lt hp]
  · have hNe : order.index p ≠ order.index q := by
      intro h
      exact hEq (hInj.mp h).symm
    simp [hEq, hNe, hiq]

/- The empty cache stores no priority. -/
theorem test_zero
    (prio : Nat) :
    order.test 0#32 prio = false := by
  simp [test]

end

end BitOrder

----
-- Reading the Cache
----

/- Reading returns the smallest stored priority. -/
theorem getPrioQueueFromRunqueue_eq
    (order : BitOrder) {bitcache : BitVec 32} {prio : Nat} (hPrio : prio < 32)
    (hTest : order.test bitcache prio = true)
    (hSmallest : ∀ p < prio, order.test bitcache p = false) :
    getPrioQueueFromRunqueue order bitcache = some prio := by
  rw [order.test_eq_getLsbD _ hPrio] at hTest
  cases order with
  | clz =>
    have hNe : bitcache ≠ 0#32 := by
      intro hZero
      rw [hZero] at hTest
      simp at hTest
    rcases bitarithmMsb_spec hNe with ⟨i, hi, hMsb, hSet, hAbove⟩
    -- Bit `31 - prio` is the highest one.
    have hIndex : 31 - prio = i := by
      rcases Nat.lt_trichotomy (31 - prio) i with hLt | hEq | hGt
      · have hSmall := hSmallest (31 - i) (by omega)
        rw [BitOrder.test_eq_getLsbD _ _ (by omega)] at hSmall
        have hSub : 31 - (31 - i) = i := by omega
        simp only [BitOrder.index, hSub] at hSmall
        rw [hSet] at hSmall
        cases hSmall
      · exact hEq
      · rw [BitOrder.index, hAbove _ hGt] at hTest
        cases hTest
    simp only [getPrioQueueFromRunqueue, hMsb, Option.map_some]
    congr 1
    omega
  | lsb build =>
    simp only [getPrioQueueFromRunqueue]
    apply bitarithmLsb_spec
    refine ⟨hTest, ?_⟩
    intro j hj
    have hSmall := hSmallest j hj
    rwa [BitOrder.test_eq_getLsbD _ _ (by omega)] at hSmall

/- A nonempty cache has a smallest stored priority. -/
theorem exists_smallest_of_ne
    (order : BitOrder) {bitcache : BitVec 32} (hNe : bitcache ≠ 0#32) :
    ∃ prio < 32, order.test bitcache prio = true ∧ ∀ p < prio, order.test bitcache p = false := by
  have hSome : ∃ prio, prio < 32 ∧ order.test bitcache prio = true := by
    rcases exists_isLowestBit hNe with ⟨i, hi, hBit, _⟩
    refine ⟨order.index i, order.index_lt hi, ?_⟩
    rw [order.test_eq_getLsbD _ (order.index_lt hi)]
    have hTwice : order.index (order.index i) = i := by
      cases order with
      | clz =>
        simp only [BitOrder.index]
        omega
      | lsb build => simp only [BitOrder.index]
    rw [hTwice]
    exact hBit
  refine ⟨Nat.find hSome, (Nat.find_spec hSome).1, (Nat.find_spec hSome).2, ?_⟩
  intro p hp
  have hMin := Nat.find_min hSome hp
  have hLt : p < 32 := Nat.lt_trans hp (Nat.find_spec hSome).1
  simpa [hLt] using hMin

end Riot
