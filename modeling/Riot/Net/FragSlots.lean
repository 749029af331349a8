import Riot.Net.FragCopyBounds

/-
  The slots of the intervals over whole runs.

  A slot whose interval ends at byte 0 looks free. No interval
  does so as long as no fragment consists of the first byte of
  a datagram alone, and then every slot that is handed out is
  in no chain.
-/

open LinkMem

----
-- The Invariant
----

namespace Riot

/- No slot of a chain looks free. -/
structure FragRb.Chains
    (cfg : FragRbConfig) (s : FragRb)
    (slots : Nat → List Nat) : Prop
    extends s.Slots cfg slots where
  apart : ∀ k, ((slots k).map (fun i => (s.rbufInt i).span)).Pairwise Span.Apart
  marked : ∀ k, s.Marked slots k

def FragRb.Kept
    (cfg : FragRbConfig) (s : FragRb) : Prop :=
  ∃ slots, s.Chains cfg slots

/-
  What is said of a state: each chain of intervals ends, the
  chains of two entries share no slot, the intervals of a chain
  are apart, and a slot that is handed out is in no chain.
-/
def IntervalsSeparate
    (cfg : FragRbConfig) (s : FragRb) : Prop :=
  ∃ slots : Nat → List Nat, (∀ k, IsList s.links k (slots k)) ∧
    (∀ k l, k ≠ l → ∀ i ∈ slots k, i ∉ slots l) ∧
    (∀ k, ((slots k).map (fun i => (s.rbufInt i).span)).Pairwise Span.Apart) ∧
    ∀ i, rbufIntGetFree cfg s = some i → ∀ k, i ∉ slots k

theorem FragRb.Kept.separate
    {cfg : FragRbConfig} {s : FragRb} (h : s.Kept cfg) :
    IntervalsSeparate cfg s := by
  rcases h with ⟨slots, hChains⟩
  refine ⟨slots, hChains.isList, hChains.disjoint, hChains.apart, ?_⟩
  intro i hFree k hIn
  have hLast : (s.rbufInt i).last = 0 := by
    simpa using List.find?_some hFree
  exact hChains.marked k i hIn hLast

theorem FragRb.kept_init
    (cfg : FragRbConfig) :
    FragRb.init.Kept cfg := by
  refine ⟨fun _ => [], ⟨?_, ?_, ?_⟩, ?_, ?_⟩
  · exact fun _ => IsList.nil_iff.mpr rfl
  · simp
  · simp
  · exact fun _ => List.Pairwise.nil
  · simp [FragRb.Marked]

section

variable {cfg : FragRbConfig} {env : FragRbEnv} {s s' : FragRb}

section

variable (h : s.Kept cfg)

include h

/- Only the links and the intervals matter. -/
theorem FragRb.Kept.congr
    (hLinks : s'.links = s.links) (hInts : s'.rbufInt = s.rbufInt) :
    s'.Kept cfg := by
  rcases h with ⟨slots, hChains⟩
  refine ⟨slots, hChains.toSlots.congr hLinks, ?_, ?_⟩
  · rw [hInts]
    exact hChains.apart
  · intro k
    unfold FragRb.Marked
    rw [hInts]
    exact hChains.marked k

----
-- Removing Entries
----

theorem FragRb.Kept.remove
    (k : Nat) :
    ∃ s', fragRbRemove cfg s k = some s' ∧ s'.Kept cfg := by
  rcases h with ⟨slots, hChains⟩
  rcases fragRbRemove_slots (k := k) hChains.toSlots with ⟨s', hRemove, hSlots, hInts, _⟩
  refine ⟨s', hRemove, Function.update slots k [], hSlots, ?_, ?_⟩
  · intro l
    by_cases hl : l = k
    · subst hl
      rw [Function.update_self]
      exact List.Pairwise.nil
    · rw [Function.update_of_ne hl,
        List.map_congr_left (fun i hi => congrArg FragRbInt.span (hInts l hl i hi))]
      exact hChains.apart l
  · intro l i hi
    by_cases hl : l = k
    · subst hl
      rw [Function.update_self] at hi
      cases hi
    · rw [Function.update_of_ne hl] at hi
      rw [hInts l hl i hi]
      exact hChains.marked l i hi

theorem FragRb.Kept.of_remove
    {k : Nat} (hRemove : fragRbRemove cfg s k = some s') :
    s'.Kept cfg := by
  rcases h.remove k with ⟨s₁, hRemove', hKept⟩
  cases hRemove.symm.trans hRemove'
  exact hKept

theorem FragRb.Kept.of_gcFrom
    {nowUsec : UInt32} {is : List Nat}
    (hGc : fragRbGcFrom cfg nowUsec is s = some s') :
    s'.Kept cfg := by
  induction is generalizing s with
  | nil =>
    cases hGc
    exact h
  | cons i is ih =>
    unfold fragRbGcFrom at hGc
    split at hGc
    · rcases Option.bind_eq_some_iff.mp hGc with ⟨s₁, hRemove, hGc⟩
      exact ih (h.of_remove hRemove) hGc
    · exact ih h hGc

theorem FragRb.Kept.of_rmByDatagram
    {src dst : List UInt8} {tag : Nat}
    (hRm : fragRbRmByDatagram cfg s src dst tag = some s') :
    s'.Kept cfg := by
  unfold fragRbRmByDatagram at hRm
  split at hRm
  · exact h.of_remove hRm
  · cases hRm
    exact h

theorem FragRb.Kept.take
    (env : FragRbEnv) (key : FragKey) (i : Nat) :
    (rbufTake env s key i).1.Kept cfg := by
  unfold rbufTake
  split
  · exact h.congr rfl rfl
  · exact h

theorem FragRb.Kept.of_get
    {key : FragKey} {res : Option Nat}
    (hGet : rbufGet cfg env s key = some (s', res)) :
    s'.Kept cfg := by
  have hTake : ∀ s₁ i, FragRb.Kept cfg s₁ → rbufTake env s₁ key i = (s', res) → s'.Kept cfg := by
    intro s₁ i hKept hEq
    have hNext := hKept.take env key i
    rwa [hEq] at hNext
  unfold rbufGet at hGet
  split at hGet
  · cases hGet
    exact h.congr rfl rfl
  · exact hTake _ _ h (Option.some.inj hGet)
  · cases hGet
  · split at hGet
    · cases hGet
    · split at hGet
      · rcases Option.bind_eq_some_iff.mp hGet with ⟨s₁, hRemove, hGet⟩
        exact hTake _ _ (h.of_remove hRemove) (Option.some.inj hGet)
      · cases hGet
        exact h

theorem FragRb.Kept.of_dispatch
    {netifHdrBuild : Bool} {k : Nat} {d : Option FragDatagram}
    (hDispatch : fragRbDispatchWhenComplete cfg netifHdrBuild s k = some (s', d)) :
    s'.Kept cfg := by
  unfold fragRbDispatchWhenComplete at hDispatch
  dsimp only at hDispatch
  by_cases hFull : (s.rbuf k).currentSize = (s.rbuf k).datagramSize
  · rw [if_pos hFull] at hDispatch
    rcases Option.bind_eq_some_iff.mp hDispatch with ⟨pkt, _, hDispatch⟩
    rcases Option.bind_eq_some_iff.mp hDispatch with ⟨s₁, hRemove, hDispatch⟩
    have hKept₁ := h.of_remove hRemove
    split at hDispatch
    · cases hDispatch
      exact hKept₁
    · cases hDispatch
      exact hKept₁
  · rw [if_neg hFull] at hDispatch
    cases hDispatch
    exact h

end

----
-- Adding an Interval
----

/- An interval that does not end at byte 0 is kept apart. -/
theorem FragRb.Chains.addInt
    {slots : Nat → List Nat} {k offset fragSize : Nat} (h : s.Chains cfg slots)
    (hLast : fragLast offset fragSize ≠ 0)
    (hApart : ∀ i ∈ slots k, (fragInt offset fragSize).span.Apart (s.rbufInt i).span)
    (hUpdate : rbufUpdateInts cfg s k offset fragSize = some s') :
    s'.Kept cfg := by
  rcases rbufUpdateInts_spec h.toSlots h.marked hUpdate with ⟨new, hNot, _, hNew, hOld, hSlots⟩
  have hSame : ∀ l, ∀ i ∈ slots l, s'.rbufInt i = s.rbufInt i := by
    intro l i hi
    apply hOld
    rintro rfl
    exact hNot l hi
  have hSpans : ∀ l, (slots l).map (fun i => (s'.rbufInt i).span) =
          (slots l).map (fun i => (s.rbufInt i).span) :=
    fun l => List.map_congr_left (fun i hi => congrArg FragRbInt.span (hSame l i hi))
  refine ⟨_, hSlots, ?_, ?_⟩
  · intro l
    by_cases hl : l = k
    · subst hl
      rw [Function.update_self, List.map_cons, hNew, hSpans]
      refine List.Pairwise.cons ?_ (h.apart l)
      intro r hr
      rcases List.mem_map.mp hr with ⟨i, hi, rfl⟩
      exact hApart i hi
    · rw [Function.update_of_ne hl, hSpans]
      exact h.apart l
  · intro l i hi
    by_cases hl : l = k
    · subst hl
      rw [Function.update_self] at hi
      rcases List.mem_cons.mp hi with rfl | hi
      · rw [hNew]
        exact hLast
      · rw [hSame l i hi]
        exact h.marked l i hi
    · rw [Function.update_of_ne hl] at hi
      rw [hSame l i hi]
      exact h.marked l i hi

end

----
-- Receiving a Fragment
----

/-
  The reception of IPHC leaves the intervals as they are, and
  on an error removes the entry.
-/
def FragRbConfig.IphcKeepsIntervals
    (cfg : FragRbConfig) : Prop :=
  ∀ recv, cfg.iphcRecv = some recv → ∀ frame k s s', recv frame k s = some s' → ∃ s₁,
        s₁.links = s.links ∧ s₁.rbufInt = s.rbufInt ∧
        (s' = s₁ ∨ fragRbRemove cfg s₁ k = some s')

namespace FragMem

/- The fragment is the first byte of a datagram alone. -/
def OnlyFirstByte
    (w : Nat) (m : FragMem) : Prop :=
  (m.offset + m.fragSize w) % 2 ^ w = 1 ∧ 0 < m.sixlowpanFragDatagramSize

instance
    (w : Nat) (m : FragMem) :
    Decidable (m.OnlyFirstByte w) :=
  inferInstanceAs (Decidable (_ ∧ _))

variable {w : Nat} {cfg : FragRbConfig} {env again : FragRbEnv} {s s' : FragRb}
variable {m : FragMem}

/- Only a fragment of the first byte ends at byte 0. -/
theorem fragLast_ne_zero
    {offset fragSize size : Nat} (hWidth : 16 ≤ w) (hSize : size < 2 ^ 11)
    (hFits : (offset + fragSize) % 2 ^ w ≤ size)
    (hMore : ¬ ((offset + fragSize) % 2 ^ w = 1 ∧ 0 < size)) :
    fragLast offset fragSize ≠ 0 := by
  have hMod : (offset + fragSize) % 2 ^ 16 = (offset + fragSize) % 2 ^ w % 2 ^ 16 :=
    (Nat.mod_mod_of_dvd _ (Nat.pow_dvd_pow 2 hWidth)).symm
  unfold fragLast
  omega

theorem rbufAddTo_kept
    {k offset fragSize pos : Nat} {action : FragAction} (hWidth : 16 ≤ w)
    (hKept : s.Kept cfg) (hSize : (s.rbuf k).datagramSize < 2 ^ 11)
    (hOffset : offset < 2 ^ 11)
    (hMore : ¬ ((offset + fragSize) % 2 ^ w = 1 ∧ 0 < (s.rbuf k).datagramSize))
    (hAdd : rbufAddTo w cfg s m k offset fragSize pos = some (s', action)) :
    s'.Kept cfg := by
  have hRemove : ∀ x : FragAction,
        ((fragRbRemove cfg s k).bind (fun s => some (s, x))) = some (s', action) →
        s'.Kept cfg := by
    intro x hEq
    rcases Option.bind_eq_some_iff.mp hEq with ⟨s₁, hRm, hEq⟩
    cases hEq
    exact hKept.of_remove hRm
  unfold rbufAddTo at hAdd
  split at hAdd
  · exact hRemove _ hAdd
  · rename_i hFits
    have hLast := fragLast_ne_zero hWidth hSize (Nat.le_of_not_lt hFits) hMore
    rcases hKept with ⟨slots, hChains⟩
    rcases checkFragments_spec (hChains.isList k).2
        (hChains.toSlots.length_lt k)
        (show offset < 2 ^ 16 by omega) with
      ⟨r, hCheck, hApart⟩
    rw [hCheck] at hAdd
    simp only [Option.bind_eq_bind, Option.bind_some] at hAdd
    cases r with
    | again => exact hRemove _ hAdd
    | duplicate =>
      cases hAdd
      exact ⟨slots, hChains⟩
    | success =>
      dsimp only at hAdd
      split at hAdd
      · rename_i s₁ hUpdate
        cases hAdd
        have hNext := hChains.addInt hLast (hApart rfl) hUpdate
        exact hNext.congr rfl rfl
      · exact hRemove _ hAdd

theorem rbufAdd_kept
    {action : FragAction} (hWidth : 16 ≤ w) (hKept : s.Kept cfg)
    (hMore : ¬ m.OnlyFirstByte w)
    (hAdd : rbufAdd w cfg env s m m.offset = some (s', action)) :
    s'.Kept cfg := by
  unfold rbufAdd at hAdd
  split at hAdd
  · rcases Option.bind_eq_some_iff.mp hAdd with ⟨s₁, hGc, hAdd⟩
    rcases Option.bind_eq_some_iff.mp hAdd with ⟨⟨s₂, res⟩, hGet, hAdd⟩
    have hKept₁ : s₁.Kept cfg := hKept.of_gcFrom hGc
    have hKept₂ := hKept₁.of_get hGet
    cases res with
    | none =>
      cases hAdd
      exact hKept₂
    | some k =>
      have hSize : (s₂.rbuf k).datagramSize = m.sixlowpanFragDatagramSize :=
        rbufGet_datagramSize hGet
      have hLt := datagramSize_lt (m := m)
      refine rbufAddTo_kept hWidth hKept₂ ?_ offset_lt ?_ hAdd
      · rw [hSize]
        exact hLt
      · rw [hSize]
        exact hMore
  · cases hAdd

theorem perform_kept
    {action : FragAction} {r : RbufAdd} (hIphc : cfg.IphcKeepsIntervals)
    (hKept : s.Kept cfg) (hPerform : perform cfg env s m action = some (s', r)) :
    s'.Kept cfg := by
  cases action with
  | error =>
    cases hPerform
    exact hKept
  | again =>
    cases hPerform
    exact hKept
  | duplicate k =>
    cases hPerform
    exact hKept
  | copy k c =>
    rcases Option.bind_eq_some_iff.mp hPerform with ⟨pkt, _, hPerform⟩
    rcases Option.bind_eq_some_iff.mp hPerform with ⟨pkt', _, hPerform⟩
    cases hPerform
    exact hKept.congr rfl rfl
  | iphc k =>
    rcases Option.bind_eq_some_iff.mp hPerform with ⟨recv, hRecv, hPerform⟩
    unfold rbufAddIphc at hPerform
    split at hPerform
    · rcases Option.bind_eq_some_iff.mp hPerform with ⟨s₁, hCall, hPerform⟩
      rcases hIphc recv hRecv _ _ _ _ hCall with ⟨s₂, hLinks, hInts, hEnd⟩
      have hKept₂ := hKept.congr hLinks hInts
      have hKept₁ : s₁.Kept cfg := by
        rcases hEnd with rfl | hRemove
        · exact hKept₂
        · exact hKept₂.of_remove hRemove
      split at hPerform
      · cases hPerform
        exact hKept₁
      · cases hPerform
        exact hKept₁
    · rcases Option.bind_eq_some_iff.mp hPerform with ⟨s₁, hRemove, hPerform⟩
      cases hPerform
      exact hKept.of_remove hRemove

section

variable (hWidth : 16 ≤ w) (hIphc : cfg.IphcKeepsIntervals) (hKept : s.Kept cfg)
variable (hMore : ¬ m.OnlyFirstByte w)

include hWidth hIphc hKept hMore

theorem rbufAddAll_kept
    {r : RbufAdd} (hAdd : rbufAddAll w cfg env s m m.offset = some (s', r)) :
    s'.Kept cfg := by
  rcases Option.bind_eq_some_iff.mp hAdd with ⟨⟨s₁, action⟩, hPlan, hPerform⟩
  exact perform_kept hIphc (rbufAdd_kept hWidth hKept hMore hPlan) hPerform

theorem fragRbAdd_kept
    {res : Option Nat}
    (hAdd : fragRbAdd w cfg env again s m m.offset = some (s', res)) :
    s'.Kept cfg := by
  rcases Option.bind_eq_some_iff.mp hAdd with ⟨⟨s₁, r⟩, hFirst, hAdd⟩
  have hKept₁ := rbufAddAll_kept hWidth hIphc hKept hMore hFirst
  cases r with
  | entry k =>
    cases hAdd
    exact hKept₁
  | error =>
    cases hAdd
    exact hKept₁
  | again =>
    rcases Option.bind_eq_some_iff.mp hAdd with ⟨⟨s₂, r⟩, hSecond, hAdd⟩
    have hKept₂ := rbufAddAll_kept hWidth hIphc hKept₁ hMore hSecond
    cases r with
    | entry k =>
      cases hAdd
      exact hKept₂
    | error =>
      cases hAdd
      exact hKept₂
    | again =>
      cases hAdd
      exact hKept₂

theorem gnrcSixlowpanFragRecv_kept
    {netifHdrBuild : Bool} {d : Option FragDatagram}
    (hRecv : gnrcSixlowpanFragRecv w cfg env again s m netifHdrBuild = some (s', d)) :
    s'.Kept cfg := by
  unfold gnrcSixlowpanFragRecv at hRecv
  split at hRecv
  · rcases Option.bind_eq_some_iff.mp hRecv with ⟨⟨s₁, res⟩, hAdd, hRecv⟩
    have hKept₁ := fragRbAdd_kept hWidth hIphc hKept hMore hAdd
    cases res with
    | none =>
      cases hRecv
      exact hKept₁
    | some k => exact hKept₁.of_dispatch hRecv
  · cases hRecv
    exact hKept

end

end FragMem

----
-- Runs
----

/- What happens to the reassembly buffer. -/
inductive FragEvent where
  | recv
      (env again : FragRbEnv)
      (netifHdrBuild : Bool)
      (m : FragMem)
  | timeout (nowUsec : UInt32)
  | rmByDatagram (src dst : List UInt8) (tag : Nat)
  | remove (k : Nat)

def fragExec
    (w : Nat) (cfg : FragRbConfig)
    (s : FragRb) : FragEvent → Option FragRb
| .recv env again netifHdrBuild m =>
  (m.gnrcSixlowpanFragRecv w cfg env again s netifHdrBuild).map Prod.fst
| .timeout nowUsec => fragRbGc cfg nowUsec s
| .rmByDatagram src dst tag => fragRbRmByDatagram cfg s src dst tag
| .remove k => fragRbRemove cfg s k

/- The size of a frame is a number of type `size_t`. -/
def FragEvent.Fits
    (w : Nat)
    (cfg : FragRbConfig) : FragEvent → Prop
| .recv _ _ _ m => m.size < 2 ^ w
| .remove k => k < cfg.rbufSize
| _ => True

instance
    (w : Nat) (cfg : FragRbConfig) (e : FragEvent) :
    Decidable (e.Fits w cfg) :=
  match e with
  | .recv _ _ _ m => inferInstanceAs (Decidable (m.size < 2 ^ w))
  | .remove k => inferInstanceAs (Decidable (k < cfg.rbufSize))
  | .timeout _ => inferInstanceAs (Decidable True)
  | .rmByDatagram _ _ _ => inferInstanceAs (Decidable True)

def fragSystem
    (w : Nat)
    (cfg : FragRbConfig) : System FragRb FragEvent where
  Start := fun s => s = FragRb.init
  Enabled := fun _ e => e.Fits w cfg
  exec := fragExec w cfg

/- No received fragment is the first byte alone. -/
def FragEvent.NotFirstByte
    (w : Nat) : FragEvent → Prop
| .recv _ _ _ m => ¬ m.OnlyFirstByte w
| _ => True

instance
    (w : Nat) (e : FragEvent) :
    Decidable (e.NotFirstByte w) :=
  match e with
  | .recv _ _ _ m => inferInstanceAs (Decidable (¬ m.OnlyFirstByte w))
  | .remove _ => inferInstanceAs (Decidable True)
  | .timeout _ => inferInstanceAs (Decidable True)
  | .rmByDatagram _ _ _ => inferInstanceAs (Decidable True)

instance
    (w : Nat) (cfg : FragRbConfig) (s : FragRb) (e : FragEvent) :
    Decidable ((fragSystem w cfg).Enabled s e) :=
  inferInstanceAs (Decidable (e.Fits w cfg))

/-
  In every run in which no fragment is the first byte of a
  datagram alone, the slots of the intervals stay separate.
-/
theorem intervalsSeparate_of_reachable
    (w : Nat) (cfg : FragRbConfig) (hWidth : 16 ≤ w)
    (hIphc : cfg.IphcKeepsIntervals) {s : FragRb}
    (hReach : (fragSystem w cfg).ReachableVia (fun _ e => e.NotFirstByte w) s) :
    IntervalsSeparate cfg s := by
  apply FragRb.Kept.separate
  refine hReach.invariant ?_ ?_
  · rintro s rfl
    exact FragRb.kept_init cfg
  · intro s e s' hKept hOk _ hExec
    cases e with
    | recv env again netifHdrBuild m =>
      rcases Option.map_eq_some_iff.mp hExec with ⟨⟨s₁, d⟩, hRecv, hFst⟩
      cases hFst
      exact m.gnrcSixlowpanFragRecv_kept hWidth hIphc hKept hOk hRecv
    | timeout nowUsec => exact hKept.of_gcFrom hExec
    | rmByDatagram src dst tag => exact hKept.of_rmByDatagram hExec
    | remove k => exact hKept.of_remove hExec

/- Reception of a fragment in the sample buffer. -/
def sampleFragRecv
    (data : List UInt8) : FragEvent :=
  .recv FragMem.roomyEnv FragMem.roomyEnv true (sampleFragMem data)

/- A first fragment, with what is behind the frame and without. -/
theorem gnrcSixlowpanFragRecv_firstFragment :
    (FragMem.gnrcSixlowpanFragRecv 32 sampleFragRb FragMem.roomyEnv FragMem.roomyEnv FragRb.init
        (sampleFragMem [0xc0, 16, 0, 7, 0x41, 1, 2, 3, 4]) true).isSome :=
  Option.isSome_of_eq_some (FragMem.gnrcSixlowpanFragRecv_of_frame (by decide)
    (Option.some_get (by decide : (gnrcSixlowpanFragRecv sampleFragRb _ _ true FragRb.init
      (sampleFragMem [0xc0, 16, 0, 7, 0x41, 1, 2, 3, 4]).frame).isSome)).symm)

/- Two datagrams take one slot each. -/
theorem intervalsSeparate_twoDatagrams :
    ∃ s : FragRb, s.links (.head 0) = .ref 0 ∧ s.links (.head 1) = .ref 1 ∧
      IntervalsSeparate sampleFragRb s := by
  have hRun :
      ((fragSystem 32 sampleFragRb).runVia
          (fun _ e => e.NotFirstByte 32) FragRb.init
          [sampleFragRecv [0xc0, 16, 0, 7, 0, 1, 2, 3, 4, 5, 6, 7],
            sampleFragRecv [0xe0, 16, 0, 8, 1, 1, 2, 3, 4, 5, 6, 7]]).any
        (fun s => decide (s.links (.head 0) = .ref 0 ∧ s.links (.head 1) = .ref 1)) = true := by
    decide
  rcases System.exists_reachableVia_of_runVia rfl hRun with ⟨s, _, hReach, hHead, hHead'⟩
  have hIphc : sampleFragRb.IphcKeepsIntervals := by
    intro recv hRecv
    cases hRecv
  exact ⟨s, hHead, hHead', intervalsSeparate_of_reachable 32 sampleFragRb (by decide) hIphc hReach⟩

/-
  After a first fragment of one byte, the next datagram is
  given the same slot.
-/
theorem not_intervalsSeparate_firstByte :
    ∃ s : FragRb, (fragSystem 32 sampleFragRb).Reachable s ∧
      ¬ IntervalsSeparate sampleFragRb s := by
  have hRun :
      ((fragSystem 32 sampleFragRb).runVia
          (fun _ _ => True) FragRb.init
          [sampleFragRecv [0xc0, 16, 0, 7, 0],
            sampleFragRecv [0xe0, 16, 0, 8, 1, 1, 2, 3, 4, 5, 6, 7]]).any
        (fun s => decide (s.links (.head 0) = .ref 0 ∧ s.links (.head 1) = .ref 0)) = true := by
    decide
  rcases System.exists_reachableVia_of_runVia rfl hRun with ⟨s, _, hReach, hHead, hHead'⟩
  refine ⟨s, hReach, ?_⟩
  rintro ⟨slots, hLists, hDisjoint, _⟩
  have hIn := (hLists 0).mem_of_head hHead
  have hIn' := (hLists 1).mem_of_head hHead'
  exact hDisjoint 0 1 (by decide) 0 hIn hIn'

end Riot
