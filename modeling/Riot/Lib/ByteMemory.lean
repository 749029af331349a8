import Mathlib.Algebra.Order.Ring.Nat
import Mathlib.Data.List.GetD
import Mathlib.Tactic.Common

/-
  A memory of bytes, with reads and writes of byte strings.
-/

----
-- Bytes
----

/- A byte for each address. -/
structure ByteMem where
  byte : Nat → UInt8

namespace ByteMem

/- The `n` bytes from the address `a` on. -/
def read
    (m : ByteMem)
    (a : Nat) : Nat → List UInt8
| 0 => []
| n + 1 => m.byte a :: read m (a + 1) n

/- Write a byte string from the address `a` on. -/
def write
    (m : ByteMem) (a : Nat)
    (bs : List UInt8) : ByteMem where
  byte := fun x =>
    if a ≤ x ∧ x < a + bs.length then
      bs.getD (x - a) 0
    else
      m.byte x

variable {m m' : ByteMem} {a b n k x : Nat} {bs : List UInt8}

@[simp]
theorem length_read :
    (m.read a n).length = n := by
  induction n generalizing a with
  | zero => rfl
  | succ n ih => simp [read, ih]

/- Reads see only the bytes they read. -/
theorem read_congr
    (hSame : ∀ x, a ≤ x → x < a + n → m'.byte x = m.byte x) :
    m'.read a n = m.read a n := by
  induction n generalizing a with
  | zero => rfl
  | succ n ih =>
    have hHead : m'.byte a = m.byte a := hSame a (by omega) (by omega)
    have hTail : m'.read (a + 1) n = m.read (a + 1) n :=
      ih (fun x hGe hLt => hSame x (by omega) (by omega))
    simp [read, hHead, hTail]

/- The bytes of a read. -/
theorem getElem?_read
    (hLt : k < n) :
    (m.read a n)[k]? = some (m.byte (a + k)) := by
  induction n generalizing a k with
  | zero => omega
  | succ n ih =>
    cases k with
    | zero => rfl
    | succ k =>
      rw [read, List.getElem?_cons_succ, ih (Nat.lt_of_succ_lt_succ hLt), Nat.add_assoc,
        Nat.add_comm 1 k]

theorem byte_eq_of_read_eq
    (hRead : m'.read b n = m.read a n) (hLt : k < n) :
    m'.byte (b + k) = m.byte (a + k) := by
  have hByte : (m'.read b n)[k]? = some (m'.byte (b + k)) := getElem?_read hLt
  rw [hRead, getElem?_read hLt] at hByte
  exact (Option.some.inj hByte).symm

/- A write leaves the bytes outside as they are. -/
theorem write_of_not_mem
    (hOut : x < a ∨ a + bs.length ≤ x) :
    (m.write a bs).byte x = m.byte x := by
  exact if_neg (by omega)

theorem write_getElem
    (hIn : k < bs.length) :
    (m.write a bs).byte (a + k) = bs.get ⟨k, hIn⟩ := by
  have hPos : a ≤ a + k ∧ a + k < a + bs.length := by
    omega
  simp [write, hPos, hIn]

@[simp]
theorem write_nil :
    m.write a [] = m := by
  simp only [write, List.length_nil, Nat.add_zero]
  congr 1
  funext x
  rw [if_neg (by omega)]

/- A byte string written in two parts. -/
theorem write_write
    (m : ByteMem) (a : Nat) (bs cs : List UInt8) :
    (m.write a bs).write (a + bs.length) cs = m.write a (bs ++ cs) := by
  simp only [write, List.length_append, mk.injEq]
  funext x
  by_cases hRight : a + bs.length ≤ x
  · have hNot : ¬ (a ≤ x ∧ x < a + bs.length) := by omega
    have hSub : x - (a + bs.length) = x - a - bs.length := by
      omega
    by_cases hLt : x < a + bs.length + cs.length
    · rw [if_pos ⟨hRight, hLt⟩, if_pos (by omega), List.getD_append_right _ _ _ _ (by omega), hSub]
    · rw [if_neg (by omega), if_neg hNot, if_neg (by omega)]
  · rw [if_neg (by omega)]
    by_cases hLeft : a ≤ x
    · rw [if_pos (by omega), if_pos (by omega), List.getD_append _ _ _ _ (by omega)]
    · rw [if_neg (by omega), if_neg (by omega)]

/- Writes to different places can be exchanged. -/
theorem write_comm
    {cs : List UInt8} (hDisj : a + bs.length ≤ b ∨ b + cs.length ≤ a) :
    (m.write a bs).write b cs = (m.write b cs).write a bs := by
  simp only [write, mk.injEq]
  funext x
  by_cases hFirst : a ≤ x ∧ x < a + bs.length
  · have hSecond : ¬ (b ≤ x ∧ x < b + cs.length) := by omega
    rw [if_neg hSecond, if_pos hFirst, if_pos hFirst]
  · rw [if_neg hFirst, if_neg hFirst]

/- A write of as many bytes hides the one before. -/
theorem write_hide
    {cs : List UInt8} (hLen : bs.length ≤ cs.length) :
    (m.write a bs).write a cs = m.write a cs := by
  simp only [write, mk.injEq]
  funext x
  by_cases hIn : a ≤ x ∧ x < a + cs.length
  · rw [if_pos hIn, if_pos hIn]
  · rw [if_neg hIn, if_neg hIn, if_neg (by omega)]

/- Part of a byte string is written over. -/
theorem write_over
    {pre mid post : List UInt8} (hLen : mid.length = bs.length) :
    (m.write a (pre ++ (mid ++ post))).write (a + pre.length)
        bs = m.write a (pre ++ (bs ++ post)) := by
  rw [← write_write, ← write_write, ← write_write, ← write_write, write_comm (.inr (by omega)),
    write_hide hLen.le, hLen]

/- What has been written can be read. -/
theorem read_write_self :
    (m.write a bs).read a bs.length = bs := by
  suffices h : ∀ k cs, bs.drop k = cs → (m.write a bs).read (a + k) cs.length = cs by
    simpa using h 0 bs rfl
  intro k cs hDrop
  induction cs generalizing k with
  | nil => rfl
  | cons c cs ih =>
    have hLt : k < bs.length := by
      by_contra hGe
      rw [List.drop_eq_nil_of_le (by omega)] at hDrop
      cases hDrop
    have hCons := List.drop_eq_getElem_cons hLt
    rw [hDrop] at hCons
    have hHead : (m.write a bs).byte (a + k) = c := by
      rw [write_getElem hLt]
      exact (List.cons.inj hCons).1.symm
    have hTail := ih (k + 1) (List.cons.inj hCons).2.symm
    simpa [read, hHead, Nat.add_assoc] using hTail

end ByteMem

----
-- Stored Byte Strings
----

namespace ByteMem

/- The byte string is in the memory, from the address `a` on. -/
def Holds
    (m : ByteMem) (a : Nat) (bs : List UInt8) : Prop :=
  ∀ i b, bs[i]? = some b → m.byte (a + i) = b

variable {m m' : ByteMem} {a d : Nat} {bs cs : List UInt8}

theorem holds_append :
    m.Holds a (bs ++ cs) ↔ m.Holds a bs ∧ m.Holds (a + bs.length) cs := by
  constructor
  · intro hHolds
    refine ⟨?_, ?_⟩
    · intro i b hByte
      have hLt := (List.getElem?_eq_some_iff.mp hByte).1
      apply hHolds i b
      rw [List.getElem?_append_left hLt, hByte]
    · intro i b hByte
      rw [Nat.add_assoc]
      apply hHolds (bs.length + i) b
      rw [List.getElem?_append_right (Nat.le_add_right _ _), Nat.add_sub_cancel_left, hByte]
  · rintro ⟨hLeft, hRight⟩ i b hByte
    rcases Nat.lt_or_ge i bs.length with hLt | hGe
    · rw [List.getElem?_append_left hLt] at hByte
      exact hLeft i b hByte
    · rw [List.getElem?_append_right hGe] at hByte
      have hAt := hRight (i - bs.length) b hByte
      rwa [Nat.add_assoc, Nat.add_sub_cancel' hGe] at hAt

/- A stored string in two parts. -/
theorem Holds.split
    (hHolds : m.Holds a bs) (n : Nat) :
    m.Holds a (bs.take n) ∧ m.Holds (a + min n bs.length) (bs.drop n) := by
  rw [← List.length_take]
  apply holds_append.mp
  rw [List.take_append_drop]
  exact hHolds

theorem Holds.read_eq
    (hHolds : m.Holds a bs) :
    m.read a bs.length = bs := by
  apply List.ext_getElem?
  intro i
  rcases Nat.lt_or_ge i bs.length with hLt | hGe
  · rw [getElem?_read hLt, List.getElem?_eq_getElem hLt]
    congr 1
    exact hHolds i _ (List.getElem?_eq_getElem hLt)
  · rw [List.getElem?_eq_none (by rw [length_read]; exact hGe), List.getElem?_eq_none hGe]

theorem holds_of_read_eq
    (hRead : m.read a bs.length = bs) :
    m.Holds a bs := by
  intro i b hByte
  have hLt := (List.getElem?_eq_some_iff.mp hByte).1
  rw [← hRead, getElem?_read hLt] at hByte
  exact Option.some.inj hByte

/- Two strings of one length in the same place. -/
theorem Holds.unique
    (hLeft : m.Holds a bs) (hRight : m.Holds a cs) (hLen : bs.length = cs.length) :
    bs = cs := by
  rw [← hLeft.read_eq, ← hRight.read_eq, hLen]

/- A stored string seen from a memory that has its bytes. -/
theorem Holds.transport
    (hHolds : m.Holds a bs) {a' : Nat}
    (hSame : ∀ i < bs.length, m'.byte (a' + i) = m.byte (a + i)) :
    m'.Holds a' bs := by
  intro i b hByte
  have hLt := (List.getElem?_eq_some_iff.mp hByte).1
  rw [hSame i hLt]
  exact hHolds i b hByte

theorem holds_write_self :
    (m.write a bs).Holds a bs := by
  intro i b hByte
  rcases List.getElem?_eq_some_iff.mp hByte with ⟨hLt, rfl⟩
  exact write_getElem hLt

/- A write elsewhere. -/
theorem Holds.write
    (hHolds : m.Holds a bs) (hDisj : a + bs.length ≤ d ∨ d + cs.length ≤ a) :
    (m.write d cs).Holds a bs := by
  apply hHolds.transport
  intro i hLt
  exact write_of_not_mem (by omega)

theorem holds_cons
    {b : UInt8} :
    m.Holds a (b :: bs) ↔ m.byte a = b ∧ m.Holds (a + 1) bs := by
  have hSplit : m.Holds a ([b] ++ bs) ↔ m.Holds a [b] ∧ m.Holds (a + [b].length) bs := holds_append
  have hOne : m.Holds a [b] ↔ m.byte a = b := by
    constructor
    · intro hHolds
      exact hHolds 0 b rfl
    · intro hByte i c hAt
      cases i with
      | zero =>
        cases hAt
        exact hByte
      | succ i => cases hAt
  rw [hOne] at hSplit
  exact hSplit

end ByteMem
