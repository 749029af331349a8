import Riot.Sys.Frac

/-
  Clocks of ztimer on top of a clock with another frequency,
  `convert_muldiv64.c` and `convert_frac.c`.

  The lower clock counts modulo 2^32; a clock has the largest
  interval that it can be set to.
-/

----
-- Multiplication and Division
----

namespace Riot

/- `mul` and `div` are 16-bit fields. -/
structure ConvertMuldiv64 where
  maxValue : Nat
  mul : Nat
  div : Nat

def integerDivCeil
    (x y : Nat) : Nat :=
  if x = 0 then 0 else 1 + (x - 1) / y

/- The interval that the lower clock is set to. -/
def ConvertMuldiv64.set
    (self : ConvertMuldiv64) (val : Nat) : Nat :=
  let res := if 1 < self.mul then val * self.mul % 2 ^ 64 else val
  let res := if 1 < self.div then integerDivCeil res self.div else res
  res % 2 ^ 32

/- The time at a time of the lower clock. -/
def ConvertMuldiv64.now
    (self : ConvertMuldiv64) (val : Nat) : Nat :=
  let res := if 1 < self.div then val * self.div % 2 ^ 64 else val
  let res := if 1 < self.mul then res / self.mul else res
  res % 2 ^ 32

def convertMuldiv64Init
    (div mul : Nat) : ConvertMuldiv64 where
  maxValue := if div < mul then (2 ^ 32 - 1) * div % 2 ^ 64 / mul % 2 ^ 32 else 2 ^ 32 - 1
  mul := mul % 2 ^ 16
  div := div % 2 ^ 16

----
-- Fractions
----

structure ConvertFrac where
  scaleNow : Frac
  scaleSet : Frac
  round : Nat
  maxValue : Nat

def convertFracInit
    (freqSelf freqLower : Nat) : Option ConvertFrac := do
  let scaleNow ← fracInit freqSelf freqLower
  let scaleSet ← fracInit freqLower freqSelf
  if freqSelf < freqLower then
    return {
      scaleNow, scaleSet, round := 0, maxValue := fracScale scaleNow (2 ^ 32 - 1) }
  else
    return { scaleNow, scaleSet, round := freqSelf / freqLower, maxValue := 2 ^ 32 - 1 }

/- The interval that the lower clock is set to. -/
def ConvertFrac.set
    (self : ConvertFrac) (val : Nat) : Nat :=
  fracScale self.scaleSet ((val + self.round) % 2 ^ 32)

end Riot
