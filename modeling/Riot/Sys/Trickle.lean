import Riot.Lib.System
import Mathlib.Algebra.Ring.Nat

/-
  The trickle timer, `trickle.c`, with 32-bit `unsigned long`.

  Times are in milliseconds; the message timer is set in
  microseconds.
-/

----
-- Operations
----

namespace Riot

/- With the calls of the callback function counted. -/
structure Trickle where
  k : Nat
  Imax : Nat
  c : Nat
  Imin : Nat
  I : Nat
  t : Nat
  msgTimer : Nat
  calls : Nat

/- A number of `[a, b)`; no result is an empty range. -/
def randomUint32Range
    (a b draw : Nat) : Option Nat :=
  if a < b then some (a + draw % (b - a)) else none

def Trickle.maxInterval
    (trickle : Trickle) : Nat :=
  (trickle.Imin <<< trickle.Imax) % 2 ^ 32

/- Half of the next interval, and the next interval. -/
def Trickle.next
    (trickle : Trickle) : Nat × Nat :=
  if trickle.maxInterval < trickle.I * 2 % 2 ^ 32 then
    (trickle.maxInterval / 2, trickle.maxInterval)
  else
    (trickle.I, trickle.I * 2 % 2 ^ 32)

/- No result is a failed assertion. -/
def trickleInterval
    (trickle : Trickle)
    (draw : Nat) : Option Trickle := do
  if trickle.I = 0 then
    none
  let diff := (trickle.I + 2 ^ 32 - trickle.t) % 2 ^ 32
  let t ← randomUint32Range trickle.next.1 trickle.next.2 draw
  return {
    trickle with
    I := trickle.next.2, c := 0, t, msgTimer := (t + diff) % 2 ^ 32 * 1000 % 2 ^ 32 }

def trickleCallback
    (trickle : Trickle) (draw : Nat) : Option Trickle :=
  if trickle.c < trickle.k ∨ trickle.k = 0 then
    trickleInterval { trickle with calls := trickle.calls + 1 } draw
  else
    trickleInterval trickle draw

def trickleResetTimer
    (trickle : Trickle) (draw : Nat) : Option Trickle :=
  if trickle.I ≤ trickle.Imin then
    none
  else
    trickleInterval { trickle with I := trickle.Imin, t := trickle.Imin } draw

def trickleStart
    (Imin Imax k draw draw' : Nat) : Option Trickle := do
  if Imin = 0 ∨ ¬ (Imin <<< Imax) % 2 ^ 32 < (2 ^ 32 - 1) / 2 then
    none
  let I ← randomUint32Range Imin (4 * Imin % 2 ^ 32) draw
  trickleInterval { k, Imax, c := 0, Imin, I, t := I, msgTimer := 0, calls := 0 } draw'

----
-- Runs
----

inductive TrickleEvent where
  | start (Imin Imax k draw draw' : Nat)
  | callback (draw : Nat)
  | interval (draw : Nat)
  | resetTimer (draw : Nat)

/- A timer is started once, as its assertions admit. -/
def TrickleEvent.Enabled : Option Trickle → TrickleEvent → Prop
| none, .start Imin Imax _ _ _ =>
  0 < Imin ∧ Imin < 2 ^ 32 ∧ (Imin <<< Imax) % 2 ^ 32 < (2 ^ 32 - 1) / 2
| some trickle, .resetTimer _ => trickle.Imin < trickle.I
| some _, .callback _ => True
| some _, .interval _ => True
| _, _ => False

def TrickleEvent.exec : Option Trickle → TrickleEvent → Option (Option Trickle)
| none, .start Imin Imax k draw draw' => (trickleStart Imin Imax k draw draw').map some
| some trickle, .callback draw => (trickleCallback trickle draw).map some
| some trickle, .interval draw => (trickleInterval trickle draw).map some
| some trickle, .resetTimer draw => (trickleResetTimer trickle draw).map some
| _, _ => none

def trickleSystem : System (Option Trickle) TrickleEvent where
  Start s := s = none
  Enabled := TrickleEvent.Enabled
  exec := TrickleEvent.exec

end Riot
