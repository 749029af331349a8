import Mathlib.Algebra.Order.Ring.Nat
import Mathlib.Data.List.Basic
import Mathlib.Tactic.Common

/-
  The shared address containers of `universal_address.c`.

  A container holds the bytes of an address in use and the
  number of its users. Addresses are given with their size, as
  the list of their bytes.
-/

----
-- Containers
----

namespace Riot

structure UaContainer where
  useCount : Nat
  address : List UInt8
deriving DecidableEq, Repr

structure UaTable where
  containers : List UaContainer
  filled : Nat
deriving DecidableEq, Repr

def universalAddressFindEntry
    (t : UaTable) (addr : List UInt8) : Option Nat :=
  t.containers.findIdx? (fun c => c.address == addr)

def universalAddressGetNextUnusedEntry
    (t : UaTable) : Option Nat :=
  if t.filled < t.containers.length then
    t.containers.findIdx? (fun c => c.useCount == 0)
  else
    none

/- One more user of a container. -/
def UaTable.use
    (t : UaTable) (i : Nat) : UaTable :=
  match t.containers[i]? with
  | none => t
  | some c =>
    let useCount := (c.useCount + 1) % 2 ^ 8
    { containers :=
        t.containers.set i { c with useCount := useCount }
      filled :=
        if useCount = 1 then t.filled + 1 else t.filled }

def universalAddressAdd
    (t : UaTable) (addr : List UInt8) : UaTable × Option Nat :=
  match universalAddressFindEntry t addr with
  | some i => (t.use i, some i)
  | none =>
    match universalAddressGetNextUnusedEntry t with
    | none => (t, none)
    | some i => ({ t with containers := t.containers.set i ⟨0, addr⟩ }.use i, some i)

/- Nothing is deleted, the container is only left unused. -/
def universalAddressRem
    (t : UaTable) (entry : Option Nat) : UaTable :=
  match entry with
  | none => t
  | some i =>
    match t.containers[i]? with
    | none => t
    | some c =>
      if c.useCount = 0 then
        t
      else
        { containers :=
            t.containers.set i { c with useCount := c.useCount - 1 }
          filled :=
            if c.useCount - 1 = 0 then t.filled - 1
            else t.filled }

def universalAddressInit
    (t : UaTable) : UaTable :=
  { t with
    containers := t.containers.map (fun _ => ⟨0, []⟩) }

def universalAddressReset
    (t : UaTable) : UaTable where
  containers := t.containers.map (fun c => { c with useCount := 0 })
  filled := 0

/- The address, if it fits into the given size. -/
def universalAddressGetAddress
    (c : UaContainer) (addrSize : Nat) : Option (List UInt8) :=
  if c.address.length ≤ addrSize then
    some c.address
  else
    none

----
-- Comparison
----

inductive UaMatch where
  | enoent
  | equal
  | matchingPrefix
  | isAllZeroAddress
deriving DecidableEq, Repr

/-
  The loop over the bytes from index `i` on: the index of the
  first distinct byte, and whether the entry is all zero so far.
-/
def compareLoop :
    List UInt8 → List UInt8 → Nat → Option Nat → Bool → Option Nat × Bool
| [], _, _, idx, testAllZeros => (idx, testAllZeros)
| byte :: entry, addr, i, idx, testAllZeros =>
  let idx' :=
    if idx = none ∧ byte ≠ addr.headD 0 then some i else idx
  let testAllZeros' :=
    if testAllZeros then byte == 0 else testAllZeros
  if idx' ≠ none ∧ testAllZeros' = false then
    (idx', testAllZeros')
  else
    compareLoop entry addr.tail (i + 1) idx' testAllZeros'

/- The loop over the bits of a byte, from bit `j` down. -/
def countFrom
    (x : UInt8) : Nat → Nat
| 0 => 0
| j + 1 =>
  if x.toNat.testBit (j + 1) then j + 1 else countFrom x j

/-
  The result, and the size that is given in bits and replaced by
  the number of matching bits.
-/
def universalAddressCompare
    (c : UaContainer) (addr : List UInt8) (addrSizeInBits : Nat) : UaMatch × Nat :=
  if c.address.length * 8 ≠ addrSizeInBits then
    (.enoent, addrSizeInBits)
  else
    match compareLoop c.address addr 0 none true with
    | (_, true) => (.isAllZeroAddress, 0)
    | (none, false) => (.equal, addrSizeInBits)
    | (some idx, false) =>
      (.matchingPrefix, idx * 8 + countFrom (c.address.getD idx 0 ^^^ addr.getD idx 0) 7)

/- The last index below `i` with a byte that is not zero. -/
def lastNonzero
    (bytes : List UInt8) : Nat → Option Nat
| 0 => none
| i + 1 =>
  if bytes.getD i 0 ≠ 0 then some i else lastNonzero bytes i

/- The mask for the trailing zero bits, from bit `j` on. -/
def trailingMask
    (x : UInt8) : Nat → UInt8
| 0 => 0
| n + 1 =>
  if x.toNat.testBit (7 - n) then
    0xff <<< UInt8.ofNat (7 - n)
  else
    trailingMask x n

/- There is no result for a prefix that is all zero. -/
def universalAddressComparePrefix
    (c : UaContainer) (bytes : List UInt8) (sizeInBits : Nat) : Option UaMatch :=
  if c.address.length * 8 ≠ sizeInBits then
    some .enoent
  else
    match lastNonzero bytes c.address.length with
    | none => none
    | some i =>
      let byte := c.address.getD i 0
      let bitmask := trailingMask (bytes.getD i 0) 8
      if c.address.take i ≠ bytes.take i then
        some .enoent
      else if byte &&& bitmask ≠
          bytes.getD i 0 &&& bitmask then
        some .enoent
      else if byte ≠ bytes.getD i 0 ∨
          (c.address.drop (i + 1)).any (fun b => b != 0) then
        some .matchingPrefix
      else
        some .equal

----
-- What the Comparison Computes
----

/- The index of the first distinct byte. -/
def firstDiff : List UInt8 → List UInt8 → Option Nat
| byte :: entry, addr =>
  if byte ≠ addr.headD 0 then
    some 0
  else
    (firstDiff entry addr.tail).map (fun idx => idx + 1)
| [], _ => none

def allZero
    (addr : List UInt8) : Bool :=
  addr.all (fun b => b == 0)

/- The number of bits that the comparison counts as equal. -/
def matchCount
    (a dst : List UInt8) : Nat :=
  match firstDiff a dst with
  | some idx => idx * 8 + countFrom (a.getD idx 0 ^^^ dst.getD idx 0) 7
  | none => 0

/- The loop once the first distinct byte was found. -/
theorem compareLoop_found
    {entry addr : List UInt8} {i idx : Nat} {testAllZeros : Bool} :
    compareLoop entry addr i (some idx) testAllZeros =
      (some idx, testAllZeros && allZero entry) := by
  induction entry generalizing addr i testAllZeros with
  | nil => simp [compareLoop, allZero]
  | cons byte entry ih =>
    cases testAllZeros with
    | false => simp [compareLoop]
    | true =>
      by_cases hZero : byte = 0
      · simp [compareLoop, ih, allZero, hZero]
      · simp [compareLoop, allZero, hZero]

/- The loop while no distinct byte was found. -/
theorem compareLoop_spec
    {entry addr : List UInt8} {i : Nat} {testAllZeros : Bool} :
    compareLoop entry addr i none testAllZeros =
      ((firstDiff entry addr).map (fun idx => idx + i), testAllZeros && allZero entry) := by
  induction entry generalizing addr i testAllZeros with
  | nil => simp [compareLoop, firstDiff, allZero]
  | cons byte entry ih =>
    by_cases hDiff : byte = addr.head?.getD 0
    · have hNext : compareLoop (byte :: entry) addr i none
              testAllZeros =
            compareLoop entry addr.tail (i + 1) none (testAllZeros && byte == 0) := by
        cases testAllZeros with
        | false => simp [compareLoop, hDiff]
        | true => simp [compareLoop, hDiff]
      rw [hNext, ih]
      have hComp :
          ((fun idx => idx + i) ∘ fun idx => idx + 1) = fun idx : Nat => idx + (i + 1) := by
        funext idx
        simp only [Function.comp]
        omega
      simp [firstDiff, hDiff, allZero, hComp, Bool.and_assoc]
    · cases testAllZeros with
      | false => simp [compareLoop, firstDiff, hDiff]
      | true =>
        by_cases hZero : byte = 0
        · subst hZero
          simp [compareLoop, firstDiff, hDiff, compareLoop_found, allZero]
        · simp [compareLoop, firstDiff, hDiff, hZero, allZero]

theorem firstDiff_eq_none_iff
    {a b : List UInt8} (hLength : a.length = b.length) :
    firstDiff a b = none ↔ a = b := by
  induction a generalizing b with
  | nil =>
    have hNil := List.eq_nil_of_length_eq_zero hLength.symm
    simp [firstDiff, hNil]
  | cons x a ih =>
    cases b with
    | nil => simp at hLength
    | cons y b =>
      have hRest : a.length = b.length := by
        simpa using hLength
      by_cases hEq : x = y
      · simp [firstDiff, hEq, ih hRest]
      · simp [firstDiff, hEq]

/- The comparison of addresses of the same size. -/
theorem universalAddressCompare_eq
    {c : UaContainer} {addr : List UInt8}
    (hLength : c.address.length = addr.length) :
    universalAddressCompare c addr (addr.length * 8) = if allZero c.address = true then
        (.isAllZeroAddress, 0)
      else if c.address = addr then (.equal, addr.length * 8)
      else (.matchingPrefix, matchCount c.address addr) := by
  have hNone := firstDiff_eq_none_iff hLength
  unfold universalAddressCompare
  rw [if_neg (by rw [hLength]; exact fun h => h rfl), compareLoop_spec]
  cases hZero : allZero c.address with
  | true => simp
  | false =>
    cases hDiff : firstDiff c.address addr with
    | none => simp [hNone.mp hDiff]
    | some idx =>
      have hNe : c.address ≠ addr := by
        intro hEq
        rw [hNone.mpr hEq] at hDiff
        cases hDiff
      simp [hNe, matchCount, hDiff]

end Riot
