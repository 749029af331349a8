import Riot.Sys.Trickle

/-
  The intervals of the trickle timer over all runs.

  They are doubled up to the maximum and timed exactly, if the
  products and the first interval fit in 32 bits.
-/

----
-- Intervals
----

namespace Riot

variable {b s' : Trickle} {draw Imin Imax k draw' : Nat}

/- The time that is drawn in the next interval. -/
def Trickle.drawn
    (b : Trickle) (draw : Nat) : Nat :=
  b.next.1 + draw % (b.next.2 - b.next.1)

/-
  The maximum is not lost, the interval does not wrap to one
  below it, and the time until the message fits.
-/
def Trickle.Fits
    (b : Trickle) (draw : Nat) : Prop :=
  b.maxInterval ≠ 0 ∧ (b.I < 2 ^ 31 ∨ b.maxInterval < b.I * 2 % 2 ^ 32) ∧
    (b.drawn draw + (b.I - b.t)) * 1000 < 2 ^ 32

/- A timer whose interval started with `rest` still to pass. -/
structure Trickle.Timed
    (s : Trickle)
    (rest : Nat) : Prop where
  interval : s.I ≤ s.Imin * 2 ^ s.Imax
  half : s.I / 2 ≤ s.t
  inside : s.t < s.I
  msgTimer : s.msgTimer = (s.t + rest) * 1000

/- What all runs keep. -/
structure Trickle.Good
    (s : Trickle) : Prop where
  Imin : 0 < s.Imin
  maxInterval : s.maxInterval < 2 ^ 31
  pos : 0 < s.I
  le : s.I ≤ s.maxInterval
  inside : s.t ≤ s.I

/- The next interval is as long as it may be. -/
theorem trickleInterval_spec
    (hImin : 0 < b.Imin) (hMax : b.maxInterval < 2 ^ 31) (hPos : 0 < b.I)
    (hInside : b.t ≤ b.I) (hFits : b.Fits draw) :
    ∃ s', trickleInterval b draw = some s' ∧ s'.Good ∧ s'.Timed (b.I - b.t) := by
  rcases hFits with ⟨hLost, hWrap, hTime⟩
  have hRange : b.next.1 < b.next.2 ∧ b.next.2 ≤ b.maxInterval ∧ b.next.2 / 2 = b.next.1 := by
    unfold Trickle.next
    by_cases hCap : b.maxInterval < b.I * 2 % 2 ^ 32
    · rw [if_pos hCap]
      exact ⟨Nat.div_lt_self (by omega) (by omega), le_rfl, rfl⟩
    · rw [if_neg hCap]
      show b.I < b.I * 2 % 2 ^ 32 ∧ b.I * 2 % 2 ^ 32 ≤ b.maxInterval ∧ b.I * 2 % 2 ^ 32 / 2 = b.I
      omega
  have hDrawn : b.next.1 ≤ b.drawn draw ∧ b.drawn draw < b.next.2 := by
    have hDraw := Nat.mod_lt draw (Nat.sub_pos_of_lt hRange.1)
    unfold Trickle.drawn
    omega
  have hLe : b.maxInterval ≤ b.Imin * 2 ^ b.Imax := by
    rw [Trickle.maxInterval, Nat.shiftLeft_eq]
    exact Nat.mod_le ..
  have hMaxLt : b.maxInterval < 2 ^ 32 := Nat.mod_lt _ (by omega)
  have hTimer : (b.drawn draw + (b.I + 2 ^ 32 - b.t) % 2 ^ 32) % 2 ^ 32 * 1000 % 2 ^ 32 =
      (b.drawn draw + (b.I - b.t)) * 1000 := by
    have hDiff : (b.I + 2 ^ 32 - b.t) % 2 ^ 32 = b.I - b.t := by omega
    rw [hDiff]
    omega
  refine ⟨{
    b with
    I := b.next.2, c := 0, t := b.drawn draw, msgTimer := (b.drawn draw + (b.I - b.t)) * 1000 },
    ?_, ⟨hImin, hMax, ?_, hRange.2.1, hDrawn.2.le⟩, hRange.2.1.trans hLe, ?_, hDrawn.2, rfl⟩
  · unfold trickleInterval randomUint32Range
    rw [if_neg (by omega), if_pos hRange.1, ← hTimer]
    rfl
  · exact (Nat.zero_le _).trans_lt hRange.1
  · exact hRange.2.2.trans_le hDrawn.1

----
-- Runs
----

/- What the next interval of an event starts from. -/
def TrickleEvent.from : Option Trickle → TrickleEvent → Option Trickle
| none, .start Imin Imax k draw _ =>
  let I := Imin + draw % (4 * Imin % 2 ^ 32 - Imin)
  some { k, Imax, c := 0, Imin, I, t := I, msgTimer := 0, calls := 0 }
| some trickle, .resetTimer _ => some { trickle with I := trickle.Imin, t := trickle.Imin }
| s, _ => s

def TrickleEvent.outcome : TrickleEvent → Nat
| .start _ _ _ _ draw' => draw'
| .callback draw => draw
| .interval draw => draw
| .resetTimer draw => draw

/- The condition on a step: the next interval fits. -/
def TrickleEvent.Fits
    (s : Option Trickle) (e : TrickleEvent) : Prop :=
  (∀ b ∈ e.from s, b.Fits e.outcome) ∧
    match e with
    | .start Imin _ _ _ _ => Imin < 4 * Imin % 2 ^ 32
    | _ => True

/- A step from a good state is timed and leaves a good one. -/
theorem trickle_step
    {s : Option Trickle} {e : TrickleEvent} (hGood : ∀ trickle ∈ s, trickle.Good)
    (hFits : e.Fits s) (hEnabled : trickleSystem.Enabled s e) :
    ∃ s' b, trickleSystem.exec s e = some (some s') ∧ e.from s = some b ∧
      s'.Good ∧ s'.Timed (b.I - b.t) := by
  rcases hFits with ⟨hFits, hRange⟩
  cases s with
  | none =>
    cases e with
    | start Imin Imax k draw draw' =>
      rcases hEnabled with ⟨hPos, hLt, hAssert⟩
      have hNext := trickleInterval_spec hPos (show _ < 2 ^ 31 from hAssert.trans (by decide))
        (show 0 < Imin + _ from Nat.add_pos_left hPos _) le_rfl (hFits _ rfl)
      rcases hNext with ⟨s', hRun, hGood', hTimed⟩
      refine ⟨s', _, ?_, rfl, hGood', hTimed⟩
      show (trickleStart Imin Imax k draw draw').map some = _
      unfold trickleStart randomUint32Range
      rw [if_neg (by simp only [not_or, not_not]; exact ⟨hPos.ne', hAssert⟩), if_pos hRange]
      exact congrArg (Option.map some) hRun
    | callback draw => cases hEnabled
    | interval draw => cases hEnabled
    | resetTimer draw => cases hEnabled
  | some trickle =>
    have h := hGood trickle rfl
    have hRun : ∀ {b : Trickle} {draw : Nat}, 0 < b.Imin → b.maxInterval < 2 ^ 31 → 0 < b.I →
        b.t ≤ b.I → b.Fits draw →
          ∃ s', (trickleInterval b draw).map some = some (some s') ∧ s'.Good ∧
            s'.Timed (b.I - b.t) := by
      intro b draw hImin hMax hPos hInside hFits
      rcases trickleInterval_spec hImin hMax hPos hInside hFits with ⟨s', hRun, hRest⟩
      exact ⟨s', congrArg (Option.map some) hRun, hRest⟩
    cases e with
    | start Imin Imax k draw draw' => cases hEnabled
    | callback draw =>
      show ∃ s' b, (trickleCallback trickle draw).map some = _ ∧ _
      unfold trickleCallback
      by_cases hCall : trickle.c < trickle.k ∨ trickle.k = 0
      · rw [if_pos hCall]
        rcases hRun (b := { trickle with calls := trickle.calls + 1 }) h.Imin h.maxInterval h.pos
          h.inside (hFits trickle rfl) with ⟨s', hRun, hRest⟩
        exact ⟨s', trickle, hRun, rfl, hRest⟩
      · rw [if_neg hCall]
        rcases hRun h.Imin h.maxInterval h.pos h.inside (hFits trickle rfl) with ⟨s', hRun, hRest⟩
        exact ⟨s', trickle, hRun, rfl, hRest⟩
    | interval draw =>
      rcases hRun h.Imin h.maxInterval h.pos h.inside (hFits trickle rfl) with ⟨s', hRun, hRest⟩
      exact ⟨s', trickle, hRun, rfl, hRest⟩
    | resetTimer draw =>
      have hLess : trickle.Imin < trickle.I := hEnabled
      rcases hRun (b := { trickle with I := trickle.Imin, t := trickle.Imin }) h.Imin
        h.maxInterval h.Imin le_rfl (hFits _ rfl) with ⟨s', hRun, hRest⟩
      refine ⟨s', _, ?_, rfl, hRest⟩
      show (trickleResetTimer trickle draw).map some = _
      unfold trickleResetTimer
      rw [if_neg (by omega)]
      exact hRun

/-
  In every run whose steps fit, every further step that fits
  has its assertions met, and times the interval exactly.
-/
theorem trickle_timed
    (s : Option Trickle) (e : TrickleEvent)
    (hReach : trickleSystem.ReachableVia TrickleEvent.Fits s)
    (hEnabled : trickleSystem.Enabled s e) (hFits : e.Fits s) :
    ∃ s' b, trickleSystem.exec s e = some (some s') ∧ e.from s = some b ∧
      s'.Timed (b.I - b.t) := by
  have hGood : ∀ trickle ∈ s, trickle.Good := by
    refine hReach.invariant (I := fun s => ∀ trickle ∈ s, trickle.Good) ?_ ?_
    · rintro _ rfl trickle hTrickle
      cases hTrickle
    · intro s e s' hGood hFits hEnabled hExec
      rcases trickle_step hGood hFits hEnabled with ⟨t, _, hStep, _, hNext, _⟩
      cases hExec.symm.trans hStep
      rintro _ ⟨⟩
      exact hNext
  rcases trickle_step hGood hFits hEnabled with ⟨s', b, hStep, hFrom, _, hTimed⟩
  exact ⟨s', b, hStep, hFrom, hTimed⟩

/- The start of a timer with intervals of up to 8 ms. -/
theorem trickle_timed_start :
    ∃ s' b, trickleSystem.exec none (.start 8 0 1 0 0) = some (some s') ∧
      TrickleEvent.from none (.start 8 0 1 0 0) = some b ∧ s'.Timed (b.I - b.t) := by
  refine trickle_timed none (.start 8 0 1 0 0) (.start rfl) ⟨by decide, by decide, by decide⟩
    ⟨?_, by decide⟩
  rintro _ ⟨⟩
  exact ⟨by decide, .inl (by decide), by decide⟩

/- A message after 5000 s is sent after 705 s. -/
theorem not_trickle_timed :
    ¬ ∀ s e, trickleSystem.Reachable s → trickleSystem.Enabled s e →
      ∃ s' b, trickleSystem.exec s e = some (some s') ∧ e.from s = some b ∧
        s'.Timed (b.I - b.t) := by
  intro h
  have hSent : (trickleSystem.exec none (.start (2 ^ 23) 0 1 0 805696)).map
      (Option.map (fun s => (s.t, s.msgTimer))) = some (some (5000000, 705032704)) := by
    decide
  rcases h none (.start (2 ^ 23) 0 1 0 805696) (.start rfl) ⟨by decide, by decide, by decide⟩ with
    ⟨s', b, hExec, hFrom, hTimed⟩
  rw [hExec] at hSent
  simp only [Option.map_some, Option.some.injEq, Prod.mk.injEq] at hSent
  have hTimer := hTimed.msgTimer
  omega

end Riot
