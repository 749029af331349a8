import Riot.Lib.Histories
import Mathlib.Data.List.Nodup

/-
  The index stack of `lifo.c`, over whole histories of calls.

  Slot 0 of the array holds the top index, slot `i + 1` the
  index below `i`, and -1 is the bottom. An access outside
  the array is a fault (`none`).
-/

----
-- Operations
----

namespace Riot

/- Read `array[index]`. -/
def arrayGet
    (array : List Int) (index : Int) : Option Int :=
  if index < 0 then none else array[index.toNat]?

/- Store into `array[index]`. -/
def arraySet
    (array : List Int) (index value : Int) : Option (List Int) :=
  if 0 ≤ index ∧ index.toNat < array.length then
    some (array.set index.toNat value)
  else
    none

/- Is nothing stored? -/
def lifoEmpty
    (array : List Int) : Option Bool :=
  (arrayGet array 0).map (fun head => head == -1)

/- Clear the slots 0 to `n`. -/
def lifoInit
    (array : List Int) (n : Nat) : Option (List Int) :=
  (List.range (n + 1)).foldlM (fun array (i : Nat) => arraySet array i (-1)) array

/-
  Store an index. With DEVELHELP the slots are read for a
  warning first.
-/
def lifoInsert
    (develhelp : Bool) (array : List Int) (i : Int) : Option (List Int) := do
  let index := i + 1
  if develhelp then
    if (← arrayGet array index) ≠ -1 then
      let _ ← arrayGet array 0
  let array ← arraySet array index (← arrayGet array 0)
  arraySet array 0 i

/- Take the index stored last, or -1. -/
def lifoGet
    (develhelp : Bool) (array : List Int) : Option (List Int × Int) := do
  let head ← arrayGet array 0
  let array ←
    if head ≠ -1 then do
      arraySet array 0 (← arrayGet array (head + 1))
    else
      some array
  let array ←
    if develhelp then
      arraySet array (head + 1) (-1)
    else
      some array
  return (array, head)

/- The calls on a stack. -/
inductive LifoOp where
  | insert (i : Nat)
  | get
  | empty
deriving DecidableEq

/- What a call returns. -/
inductive LifoResult where
  | done
  | index (head : Int)
  | answer (empty : Bool)
deriving DecidableEq

/- Perform a call. -/
def LifoOp.run
    (develhelp : Bool) (array : List Int) :
    LifoOp → Option (List Int × LifoResult)
  | .insert i => (lifoInsert develhelp array i).map (·, .done)
  | .get => (lifoGet develhelp array).map (fun r => (r.1, .index r.2))
  | .empty => (lifoEmpty array).map (fun r => (array, .answer r))

----
-- The Abstract Stack
----

/- The top of a stack of indices, or -1. -/
def lifoTop : List Nat → Int
  | [] => -1
  | i :: _ => i

/- What a call makes of the stored indices, and returns. -/
def LifoOp.apply
    (stack : List Nat) : LifoOp → List Nat × LifoResult
  | .insert i => (i :: stack, .done)
  | .get => (stack.tail, .index (lifoTop stack))
  | .empty => (stack, .answer stack.isEmpty)

/- An index that is stored is in range and not yet stored. -/
def LifoOp.Fresh
    (n : Nat)
    (stack : List Nat) : LifoOp → Prop
  | .insert i => i < n ∧ i ∉ stack
  | _ => True

/- From slot `slot` on the array chains the indices down. -/
def LifoChain
    (array : List Int) : Nat → List Nat → Prop
  | slot, [] => array[slot]? = some (-1)
  | slot, i :: l => array[slot]? = some (i : Int) ∧ LifoChain array (i + 1) l

/- The array of `n + 1` slots holds a stack of indices. -/
structure LifoHolds
    (n : Nat) (array : List Int)
    (stack : List Nat) : Prop where
  length : array.length = n + 1
  bound : ∀ i ∈ stack, i < n
  nodup : stack.Nodup
  chain : LifoChain array 0 stack

----
-- Chains
----

variable {array : List Int} {n slot : Nat} {l stack : List Nat}

/- Reading a slot of the array. -/
theorem arrayGet_natCast
    (array : List Int) (i : Nat) :
    arrayGet array (i : Int) = array[i]? := by
  rw [arrayGet, if_neg (by omega), Int.toNat_natCast]

/- Storing into a slot of the array. -/
theorem arraySet_natCast
    {i : Nat} (value : Int) (hIdx : i < array.length) :
    arraySet array (i : Int) value = some (array.set i value) := by
  simp [arraySet, hIdx]

/- The first slot of a chain holds its top. -/
theorem LifoChain.top
    (hChain : LifoChain array slot l) :
    array[slot]? = some (lifoTop l) := by
  cases l with
  | nil => exact hChain
  | cons i l => exact hChain.1

/- A chain reads its first slot and those of its indices. -/
theorem LifoChain.set
    {j : Nat} {value : Int} (hChain : LifoChain array slot l) (hSlot : slot ≠ j)
    (hNot : ∀ i ∈ l, i + 1 ≠ j) :
    LifoChain (array.set j value) slot l := by
  induction l generalizing slot with
  | nil =>
    unfold LifoChain at *
    rwa [List.getElem?_set_ne hSlot.symm]
  | cons i l ih =>
    refine ⟨?_, ih hChain.2 (hNot i (by simp)) ?_⟩
    · rw [List.getElem?_set_ne hSlot.symm]
      exact hChain.1
    · exact fun k hk => hNot k (by simp [hk])

/- A chain may start at another slot with the same content. -/
theorem LifoChain.move
    {slot' : Nat} (hChain : LifoChain array slot l)
    (hSame : array[slot']? = array[slot]?) :
    LifoChain array slot' l := by
  cases l with
  | nil => exact hSame.trans hChain
  | cons i l => exact ⟨hSame.trans hChain.1, hChain.2⟩

/- The cleared slots of an array are -1. -/
theorem lifoInit_slots
    (m : Nat) (hLen : m ≤ array.length) :
    ∃ array',
      (List.range m).foldlM (fun array (i : Nat) => arraySet array i (-1)) array = some array' ∧
      array'.length = array.length ∧ ∀ i < m, array'[i]? = some (-1) := by
  induction m with
  | zero => exact ⟨array, rfl, rfl, by simp⟩
  | succ m ih =>
    rcases ih (Nat.le_of_succ_le hLen) with ⟨array₁, hRun, hLen₁, hSlots⟩
    have hIdx : m < array₁.length := by
      rw [hLen₁]
      exact hLen
    refine ⟨array₁.set m (-1), ?_, ?_, ?_⟩
    · rw [List.range_succ, List.foldlM_append, hRun]
      simp [arraySet_natCast _ hIdx]
    · rw [List.length_set, hLen₁]
    · intro i hi
      by_cases hEq : i = m
      · subst hEq
        exact List.getElem?_set_self hIdx
      · rw [List.getElem?_set_ne (Ne.symm hEq)]
        exact hSlots i (by omega)

/- The initialised array holds the empty stack. -/
theorem lifoInit_spec
    (hLen : array.length = n + 1) :
    ∃ array', lifoInit array n = some array' ∧ LifoHolds n array' [] := by
  rcases lifoInit_slots (n + 1) (Nat.le_of_eq hLen.symm) with ⟨array', hRun, hLen', hSlots⟩
  exact ⟨array', hRun, hLen'.trans hLen, by simp, .nil, hSlots 0 (Nat.succ_pos n)⟩

/- An index that is not stored is put on top. -/
theorem lifoInsert_spec
    (develhelp : Bool) {i : Nat} (hHolds : LifoHolds n array stack) (hi : i < n)
    (hNot : i ∉ stack) :
    ∃ array', lifoInsert develhelp array i = some array' ∧ LifoHolds n array' (i :: stack) := by
  have hLen := hHolds.length
  have hTop := hHolds.chain.top
  have hIdx : i + 1 < array.length := by omega
  have hRead : arrayGet array ((i : Int) + 1) = some array[i + 1] := by
    rw [show (i : Int) + 1 = ((i + 1 : Nat) : Int) from rfl,
      arrayGet_natCast, List.getElem?_eq_getElem hIdx]
  have hHead : arrayGet array 0 = some (lifoTop stack) := (arrayGet_natCast array 0).trans hTop
  have hStore :
      arraySet array ((i : Int) + 1) (lifoTop stack) = some (array.set (i + 1) (lifoTop stack)) :=
    arraySet_natCast (i := i + 1) _ hIdx
  have hStore' : arraySet (array.set (i + 1) (lifoTop stack)) 0 i =
        some ((array.set (i + 1) (lifoTop stack)).set 0 i) :=
    arraySet_natCast (i := 0) _ (by simp; omega)
  refine ⟨(array.set (i + 1) (lifoTop stack)).set 0 i, ?_, ?_⟩
  · cases develhelp with
    | false => simp [lifoInsert, hHead, hStore, hStore']
    | true => simp [lifoInsert, hHead, hRead, hStore, hStore']
  · refine ⟨by simpa using hLen, ?_, ?_, ?_⟩
    · intro j hj
      rcases List.mem_cons.mp hj with rfl | hIn
      · exact hi
      · exact hHolds.bound j hIn
    · exact List.nodup_cons.mpr ⟨hNot, hHolds.nodup⟩
    · -- the old top is now read in slot `i + 1`
      have hChain : LifoChain (array.set (i + 1) (lifoTop stack)) 0
            stack := by
        apply hHolds.chain.set (by omega)
        intro j hj hEq
        cases hEq
        exact hNot hj
      refine ⟨List.getElem?_set_self (by simp; omega), ?_⟩
      apply LifoChain.set _ (by omega) (by omega)
      apply hChain.move
      rw [List.getElem?_set_self hIdx, List.getElem?_set_ne (by omega), hTop]

/- The top index is taken, or -1 is returned. -/
theorem lifoGet_spec
    (develhelp : Bool) (hHolds : LifoHolds n array stack) :
    ∃ array',
      lifoGet develhelp array = some (array', lifoTop stack) ∧ LifoHolds n array' stack.tail := by
  have hLen := hHolds.length
  have hHead : arrayGet array 0 = some (lifoTop stack) :=
    (arrayGet_natCast array 0).trans hHolds.chain.top
  cases stack with
  | nil =>
    have hStore : arraySet array 0 (-1) = some (array.set 0 (-1)) :=
      arraySet_natCast (i := 0) _ (by omega)
    cases develhelp with
    | false =>
      refine ⟨array, ?_, hHolds⟩
      simp [lifoGet, hHead, lifoTop]
    | true =>
      refine ⟨array.set 0 (-1), ?_, ?_⟩
      · simp [lifoGet, hHead, hStore, lifoTop]
      · exact ⟨by simpa using hLen, by simp, .nil, List.getElem?_set_self (by omega)⟩
  | cons i stack =>
    have hi : i < n := hHolds.bound i (by simp)
    rcases hHolds.chain with ⟨_, hRest⟩
    rcases List.nodup_cons.mp hHolds.nodup with ⟨hNot, hNodup⟩
    have hRead : arrayGet array ((i : Int) + 1) = some (lifoTop stack) :=
      (arrayGet_natCast array (i + 1)).trans hRest.top
    have hStore : arraySet array 0 (lifoTop stack) = some (array.set 0 (lifoTop stack)) :=
      arraySet_natCast (i := 0) _ (by omega)
    have hClear : arraySet (array.set 0 (lifoTop stack)) ((i : Int) + 1)
            (-1) = some ((array.set 0 (lifoTop stack)).set (i + 1) (-1)) :=
      arraySet_natCast (i := i + 1) _ (by simp; omega)
    have hNe : (i : Int) ≠ -1 := by omega
    have hTop : lifoTop (i :: stack) = i := rfl
    -- the chain below the top now starts in slot 0
    have hChain : LifoChain (array.set 0 (lifoTop stack)) 0 stack := by
      apply (hRest.set (j := 0) (by omega) (by omega)).move
      rw [List.getElem?_set_self (by omega), List.getElem?_set_ne (by omega), hRest.top]
    have hBound : ∀ j ∈ stack, j < n := fun j hj => hHolds.bound j (by simp [hj])
    cases develhelp with
    | false =>
      refine ⟨array.set 0 (lifoTop stack), ?_, ?_⟩
      · simp [lifoGet, hHead, hTop, hRead, hStore, hNe]
      · exact ⟨by simpa using hLen, hBound, hNodup, hChain⟩
    | true =>
      refine ⟨(array.set 0 (lifoTop stack)).set (i + 1) (-1), ?_, ?_⟩
      · simp [lifoGet, hHead, hTop, hRead, hStore, hClear, hNe]
      · refine ⟨by simpa using hLen, hBound, hNodup, ?_⟩
        apply hChain.set (by omega)
        intro j hj hEq
        cases hEq
        exact hNot hj

----
-- Histories
----

variable {op : LifoOp} {ops : List LifoOp}

/- Each call answers like the abstract stack. -/
theorem lifoOp_refines
    (develhelp : Bool) (hHolds : LifoHolds n array stack)
    (hFresh : op.Fresh n stack) :
    ∃ array', op.run develhelp array = some (array', (op.apply stack).2) ∧
        LifoHolds n array' (op.apply stack).1 := by
  cases op with
  | insert i =>
    rcases lifoInsert_spec develhelp hHolds hFresh.1 hFresh.2 with ⟨array', hRun, hHolds'⟩
    refine ⟨array', ?_, hHolds'⟩
    simp only [LifoOp.run, hRun]
    rfl
  | get =>
    rcases lifoGet_spec develhelp hHolds with ⟨array', hRun, hHolds'⟩
    refine ⟨array', ?_, hHolds'⟩
    simp only [LifoOp.run, hRun]
    rfl
  | empty =>
    refine ⟨array, ?_, hHolds⟩
    have hHead : arrayGet array 0 = some (lifoTop stack) :=
      (arrayGet_natCast array 0).trans hHolds.chain.top
    have hEmpty : (lifoTop stack == -1) = stack.isEmpty := by
      cases stack with
      | nil => rfl
      | cons i stack =>
        have hNe : (i : Int) ≠ -1 := by omega
        simp [lifoTop, hNe]
    simp [LifoOp.run, LifoOp.apply, lifoEmpty, hHead, hEmpty]

/-
  After the initialisation of an array of `n + 1` slots, every
  history of calls runs inside the array and answers like the
  abstract stack.
-/
theorem lifo_refines
    (develhelp : Bool) (hLen : array.length = n + 1)
    (hAdmits : History.Admits LifoOp.apply (LifoOp.Fresh n) [] ops) :
    ∃ array₀ array', lifoInit array n = some array₀ ∧
        History.run (LifoOp.run develhelp) array₀ ops =
          some (array', (History.apply LifoOp.apply [] ops).2) ∧
        LifoHolds n array' (History.apply LifoOp.apply [] ops).1 := by
  rcases lifoInit_spec hLen with ⟨array₀, hInit, hHolds⟩
  have hStep :
      ∀ m array stack op, LifoHolds n array stack → m < ops.length → LifoOp.Fresh n stack op →
          ∃ array', LifoOp.run develhelp array op = some (array', (op.apply stack).2) ∧
              LifoHolds n array' (op.apply stack).1 :=
    fun _ _ _ _ hHolds _ hFresh =>
      lifoOp_refines develhelp hHolds hFresh
  rcases History.refines (n := 0) hStep hHolds hAdmits (by omega) with ⟨array', hRun, hHolds'⟩
  exact ⟨array₀, array', hInit, hRun, hHolds'⟩

/- Two indices in, one out, and the stack runs empty. -/
theorem lifo_refines_sample :
    ∃ array₀ array', lifoInit [7, 7, 7, 7] 3 = some array₀ ∧
        History.run (LifoOp.run true) array₀
            [.insert 2, .insert 0, .get, .get, .get, .empty] =
          some (array', [.done, .done, .index 0, .index 2, .index (-1), .answer true]) ∧
        LifoHolds 3 array' [] :=
  lifo_refines true rfl (by simp [History.Admits, LifoOp.Fresh, LifoOp.apply])

end Riot
