import Mathlib.Algebra.Ring.Nat
import Riot.Core.Bitarithm

/-
  Scaling by a fraction of two 32-bit integers, `frac.c`.
-/

----
-- Greatest Common Divisor
----

namespace Riot

/-
  The loops of `gcd32`.  Every turn drops a bit of a word, or
  makes the sum of two words smaller; no result is a loop that
  does not end.
-/
def removeTwos : Nat → Nat → Option Nat
| 0, _ => none
| turns + 1, v => if v &&& 1 = 0 then removeTwos turns (v >>> 1) else some v

def commonTwos : Nat → Nat → Nat → Nat → Option (Nat × Nat × Nat)
| 0, _, _, _ => none
| turns + 1, shift, u, v =>
  if (u ||| v) &&& 1 = 0 then
    commonTwos turns (shift + 1) (u >>> 1) (v >>> 1)
  else
    some (shift, u, v)

def gcdLoop : Nat → Nat → Nat → Option Nat
| 0, _, _ => none
| turns + 1, u, v => do
  let v ← removeTwos 32 v
  let (u, v) := if v < u then (v, u) else (u, v)
  if v - u = 0 then
    return u
  else
    gcdLoop turns u (v - u)

def gcd32
    (u v : Nat) : Option Nat :=
  if u = 0 then
    some v
  else if v = 0 then
    some u
  else do
    let (shift, u, v) ← commonTwos 32 0 u v
    let u ← removeTwos 32 u
    let u ← gcdLoop (u + v) u v
    return (u <<< shift) % 2 ^ 32

----
-- Long Division
----

structure LongDiv where
  q : Nat
  r : Nat
  numMask : Nat
  iBits : Int

def LongDiv.step
    (num den : Nat) (d : LongDiv) : LongDiv :=
  let r := (d.r <<< 1) % 2 ^ 64
  let q := (d.q <<< 1) % 2 ^ 32
  let r := if num &&& d.numMask ≠ 0 then r ||| 1 else r
  let qr := if den ≤ r then (q ||| 1, r - den) else (q, r)
  { q := qr.1,
    r := qr.2, numMask := d.numMask >>> 1,
    iBits := if qr.1 = 0 then d.iBits - 1 else d.iBits }

def LongDiv.loop
    (num den : Nat) : Nat → LongDiv → LongDiv
| 0, d => d
| turns + 1, d =>
  let d := d.step num den
  if d.q &&& 1 <<< 31 ≠ 0 ∨ d.r = 0 ∧ num = 0 then
    d
  else
    loop num den turns d

/- What the loop leaves, before the quotient is rounded up. -/
def longDivide
    (num den : Nat) : LongDiv :=
  let p := (bitarithmMsb (BitVec.ofNat 32 num)).getD 0
  LongDiv.loop num den (64 + p) { q := 0, r := 0, numMask := 1 <<< p, iBits := p + 1 }

/- The quotient, its number of integer bits, and the remainder. -/
def fracLongDivide
    (num den : Nat) : Nat × Int × Nat :=
  if num = 0 then
    (0, 0, 0)
  else
    let d := longDivide num den
    (if 0 < d.r then (d.q + 1) % 2 ^ 32 else d.q, d.iBits, d.r % 2 ^ 32)

structure Frac where
  frac : Nat
  shift : Nat
deriving DecidableEq

def fracInit
    (num den : Nat) : Option Frac := do
  let gcd ← gcd32 num den
  let (q, prec, _) := fracLongDivide (num / gcd) (den / gcd)
  return { frac := q, shift := ((32 - prec) % 256).toNat }

def fracScale
    (frac : Frac) (x : Nat) : Nat :=
  (frac.frac * x % 2 ^ 64) >>> frac.shift % 2 ^ 32

end Riot
