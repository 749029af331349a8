import Riot.Net.ReassCopyBounds

/-
  The limits that an entry keeps, and the entry that a full
  table gives up for a new datagram.
-/

----
-- Overlapping Fragments
----

namespace Riot

theorem FragLimits.overlap_comm
    (a b : FragLimits) :
    a.overlap b = b.overlap a :=
  Bool.and_comm _ _

/- Ranges in order of which no two overlap. -/
def LimitsApart
    (limits : List FragLimits) : Prop :=
  limits.Pairwise (fun a b =>
    a.start ≤ b.start ∧ a.overlap b = false)

theorem LimitsApart.sort
    {limits : List FragLimits} {new : FragLimits} (hApart : LimitsApart limits)
    (hNew : ∀ cur ∈ limits, cur.overlap new = false) :
    LimitsApart (sortLimits (limits ++ [new])) := by
  let r : FragLimits → FragLimits → Prop := fun a b => a.start ≤ b.start
  have hTotal : Std.Total r := ⟨fun a b => Nat.le_total a.start b.start⟩
  have hTrans : IsTrans FragLimits r := ⟨fun _ _ _ hab hbc => Nat.le_trans hab hbc⟩
  have hSorted : (sortLimits (limits ++ [new])).Pairwise r := List.pairwise_insertionSort r _
  have hDisjoint : (limits ++ [new]).Pairwise (fun a b =>
        a.overlap b = false) := by
    rw [List.pairwise_append]
    refine ⟨hApart.imp And.right, List.pairwise_singleton _ _, ?_⟩
    intro cur hCur l hl
    rw [List.mem_singleton.mp hl]
    exact hNew cur hCur
  have hPerm : (sortLimits (limits ++ [new])).Perm (limits ++ [new]) := List.perm_insertionSort _ _
  have hKept : (sortLimits (limits ++ [new])).Pairwise (fun a b =>
        a.overlap b = false) := by
    refine (hPerm.pairwise_iff ?_).mpr hDisjoint
    intro a b hab
    rw [FragLimits.overlap_comm, hab]
  exact hSorted.and hKept

namespace ExtReass

variable {cfg : ExtReassConfig} {env : ReassEnv} {s : ExtReass}

/-
  A fragment that meets another without being the same is
  reported, and the limits of a new one are added.
-/
structure OverlapsRejected
    (cfg : ExtReassConfig) (s : ExtReass)
    (i offset len : Nat) : Prop where
  rejected :
    (∃ cur ∈ (s.rbuf i).limits,
      cur.overlap (fragLimits cfg offset len) = true ∧ cur ≠ fragLimits cfg offset len) →
    (s.overlaps cfg i offset len).2 = .limitsOverlap
  kept :
    (s.overlaps cfg i offset len).2 = .limitsNew → LimitsApart (s.rbuf i).limits →
    let s' := (s.overlaps cfg i offset len).1
    LimitsApart (s'.rbuf i).limits ∧ fragLimits cfg offset len ∈ (s'.rbuf i).limits

/- No fragment is ever reported as overlapping. -/
theorem overlaps_ne_limitsOverlap
    (cfg : ExtReassConfig) (s : ExtReass) (i offset len : Nat) :
    (s.overlaps cfg i offset len).2 ≠ .limitsOverlap := by
  rcases overlaps_cases cfg s i offset len with hRes | hRes | ⟨hRes, _⟩ | ⟨hRes, _⟩ <;>
  · rw [hRes]
    intro hSame
    cases hSame

theorem overlapsRejected_iff
    (cfg : ExtReassConfig) (s : ExtReass) (i offset len : Nat) :
    s.OverlapsRejected cfg i offset len ↔ ∀ cur ∈ (s.rbuf i).limits,
        cur.overlap (fragLimits cfg offset len) = true → cur = fragLimits cfg offset len := by
  constructor
  · intro h cur hCur hMeets
    by_contra hOther
    exact overlaps_ne_limitsOverlap cfg s i offset len (h.rejected ⟨cur, hCur, hMeets, hOther⟩)
  · intro hOnly
    refine ⟨?_, ?_⟩
    · rintro ⟨cur, hCur, hMeets, hOther⟩
      exact absurd (hOnly cur hCur hMeets) hOther
    · intro hNew hApart
      rcases overlaps_cases cfg s i offset len with
        hRes | hRes | ⟨hRes, cur, hCur, hMeets⟩ | ⟨hRes, hFree⟩
      · rw [hRes] at hNew
        cases hNew
      · rw [hRes] at hNew
        cases hNew
      · -- the first that is met is the same
        have hFind :
            ∃ l, (s.rbuf i).limits.find? (fun cur =>
                cur.overlap (fragLimits cfg offset len)) = some l :=
          Option.isSome_iff_exists.mp (List.find?_isSome.mpr ⟨cur, hCur, hMeets⟩)
        rcases hFind with ⟨l, hFind⟩
        have hMeets : l.overlap (fragLimits cfg offset len) = true := by
          simpa using List.find?_some hFind
        have hSame : l = fragLimits cfg offset len :=
          hOnly l (List.mem_of_find?_eq_some hFind) hMeets
        simp only [overlaps, hFind, if_pos hSame] at hNew
        cases hNew
      · rw [hRes]
        dsimp only
        rw [addLimits_rbuf, Function.update_self]
        exact ⟨hApart.sort hFree, mem_sortLimits.mpr
          (List.mem_append_right _ (List.mem_singleton.mpr rfl))⟩

/-
  The second and third eight bytes arrive after the first and
  second ones.
-/
theorem not_overlapsRejected :
    ¬ OverlapsRejected sampleReassConfig
      ((ExtReass.init sampleReassConfig).addLimits 0 ⟨0, 2⟩)
      0 8 16 := by
  intro h
  have hRes :
      (((ExtReass.init sampleReassConfig).addLimits 0
        ⟨0, 2⟩).overlaps sampleReassConfig 0 8 16).2 = .limitsNew := by
    decide
  have hRejected := h.rejected ⟨⟨0, 2⟩, by decide, by decide, by decide⟩
  cases hRes.symm.trans hRejected

----
-- The Entry That Is Given Up
----

section

variable {t : UInt32} {oldest : Option Nat} {is : List Nat}

/- How long after `t` a fragment of an entry arrived. -/
def age
    (s : ExtReass) (t : UInt32) (i : Nat) : Nat :=
  ((s.rbuf i).arrival - t).toNat

/- The arrivals in half the range of the clock, from `t` on. -/
def ArrivalsWithin
    (cfg : ExtReassConfig) (s : ExtReass) (t : UInt32) : Prop :=
  ∀ i < cfg.rbufSize, s.age t i ≤ 2 ^ 31 - 1

/- An entry that arrived later is taken for an older one. -/
theorem olderRbuf_some
    {o i : Nat} (hOld : s.age t o ≤ 2 ^ 31 - 1) (hAge : s.age t i ≤ 2 ^ 31 - 1) :
    s.olderRbuf (some o) i = if s.age t o ≤ s.age t i ∧ s.age t i < s.age t o + (2 ^ 31 - 1) then
        some i
      else some o := by
  have hGap : (s.rbuf i).arrival - (s.rbuf o).arrival < 0x7fffffff ↔
        s.age t o ≤ s.age t i ∧ s.age t i < s.age t o + (2 ^ 31 - 1) := by
    have hO := (s.rbuf o).arrival.toNat_lt
    have hMax : (0x7fffffff : UInt32).toNat = 2 ^ 31 - 1 := by
      decide
    unfold age at *
    simp only [UInt32.lt_iff_toNat_lt, UInt32.toNat_sub, hMax] at *
    omega
  simp only [olderRbuf, hGap]

/- The scan ends at an entry that arrived no earlier. -/
theorem foldl_olderRbuf
    {o : Nat} (hOld : s.age t o ≤ 2 ^ 31 - 1)
    (hAges : ∀ i ∈ is, s.age t i ≤ 2 ^ 31 - 1) :
    ∃ o', is.foldl s.olderRbuf (some o) = some o' ∧ o' ∈ o :: is ∧ s.age t o ≤ s.age t o' ∧
      ∀ i ∈ is, s.age t i ≤ s.age t o' ∨ s.age t o + (2 ^ 31 - 1) ≤ s.age t i := by
  induction is generalizing o with
  | nil => exact ⟨o, rfl, by simp, Nat.le_refl _, by simp⟩
  | cons i is ih =>
    have hI := hAges i (by simp)
    have hIs : ∀ j ∈ is, s.age t j ≤ 2 ^ 31 - 1 := fun j hj => hAges j (List.mem_cons_of_mem i hj)
    rw [List.foldl_cons, olderRbuf_some hOld hI]
    by_cases hTaken : s.age t o ≤ s.age t i ∧ s.age t i < s.age t o + (2 ^ 31 - 1)
    · rw [if_pos hTaken]
      rcases ih hI hIs with ⟨o', hFold, hMem, hLe, hRest⟩
      refine ⟨o', hFold, List.mem_cons_of_mem o hMem, by omega, ?_⟩
      intro j hj
      rcases List.mem_cons.mp hj with rfl | hj
      · exact Or.inl hLe
      · have := hRest j hj
        omega
    · rw [if_neg hTaken]
      rcases ih hOld hIs with ⟨o', hFold, hMem, hLe, hRest⟩
      refine ⟨o', hFold, ?_, hLe, ?_⟩
      · rcases List.mem_cons.mp hMem with rfl | hMem
        · simp
        · simp [hMem]
      · intro j hj
        rcases List.mem_cons.mp hj with rfl | hj
        · omega
        · exact hRest j hj

/- Entries too far behind the first one are passed over. -/
theorem foldl_olderRbuf_of_far
    {o o' : Nat} (hOld : s.age t o ≤ 2 ^ 31 - 1)
    (hAges : ∀ i ∈ is, s.age t i ≤ 2 ^ 31 - 1)
    (hFar : ∀ i ∈ is, s.age t i = s.age t o ∨ s.age t o + (2 ^ 31 - 1) ≤ s.age t i)
    (hFold : is.foldl s.olderRbuf (some o) = some o') :
    s.age t o' = s.age t o := by
  induction is generalizing o with
  | nil =>
    cases hFold
    rfl
  | cons i is ih =>
    have hI := hAges i (by simp)
    have hIs : ∀ j ∈ is, s.age t j ≤ 2 ^ 31 - 1 := fun j hj => hAges j (List.mem_cons_of_mem i hj)
    rw [List.foldl_cons, olderRbuf_some hOld hI] at hFold
    rcases hFar i (by simp) with hSame | hBehind
    · rw [if_pos (by omega)] at hFold
      rw [← hSame]
      apply ih hI hIs _ hFold
      intro j hj
      rw [hSame]
      exact hFar j (List.mem_cons_of_mem i hj)
    · rw [if_neg (by omega)] at hFold
      exact ih hOld hIs (fun j hj => hFar j (List.mem_cons_of_mem i hj)) hFold

end

section

variable {t id : UInt32} {ipv6 : Nat}

/-
  An entry with the earliest arrival is given to the datagram,
  and nothing else changes but what it held.
-/
def EvictsOldest
    (cfg : ExtReassConfig) (env : ReassEnv) (s : ExtReass) (t : UInt32) (ipv6 : Nat)
    (id : UInt32) : Prop :=
  ∃ o < cfg.rbufSize, ∃ s' : ExtReass,
    s.gnrcIpv6ExtFragRbufGet cfg env ipv6 id = some (s', some o) ∧
    (∀ i < cfg.rbufSize, s.age t o ≤ s.age t i) ∧
    s'.rbuf o = { ExtFragRbuf.init with
      ipv6 := some ipv6
      id := id
      arrival := (s.rbuf o).arrival } ∧ (∀ i ≠ o, s'.rbuf i = s.rbuf i) ∧
    ∀ a ∉ (s.rbuf o).pkt, s'.heap a = s.heap a

/- Every entry is in use for another datagram. -/
def FullTable
    (cfg : ExtReassConfig) (env : ReassEnv) (s : ExtReass) (ipv6 : Nat) (id : UInt32) : Prop :=
  0 < cfg.rbufSize ∧
    ∀ i < cfg.rbufSize, (s.rbuf i).ipv6 ≠ none ∧ s.rbufMatches env ipv6 id i = false

/- What a full table does is decided by the first entry. -/
theorem gnrcIpv6ExtFragRbufGet_full
    (hFull : FullTable cfg env s ipv6 id) (hOverride : cfg.doNotOverride = false)
    (hWithin : ArrivalsWithin cfg s t) :
    ∃ o < cfg.rbufSize, s.gnrcIpv6ExtFragRbufGet cfg env ipv6 id =
        some ((s.gnrcIpv6ExtFragRbufDel o).initRbuf o ipv6 id, some o) ∧ s.age t 0 ≤ s.age t o ∧
      (∀ i < cfg.rbufSize, s.age t i ≤ s.age t o ∨ s.age t 0 + (2 ^ 31 - 1) ≤ s.age t i) ∧
      ((∀ i < cfg.rbufSize, s.age t i = s.age t 0 ∨ s.age t 0 + (2 ^ 31 - 1) ≤ s.age t i) →
        s.age t o = s.age t 0) := by
  rcases hFull with ⟨hSize, hUsed⟩
  have hAges : ∀ i ∈ List.range cfg.rbufSize, s.age t i ≤ 2 ^ 31 - 1 :=
    fun i hi => hWithin i (List.mem_range.mp hi)
  have hZero := hWithin 0 hSize
  rcases foldl_olderRbuf hZero hAges with ⟨o, hFold, hMem, hLe, hRest⟩
  have hBound : o < cfg.rbufSize := by
    rcases List.mem_cons.mp hMem with rfl | hMem
    · exact hSize
    · exact List.mem_range.mp hMem
  have hStops : (List.range cfg.rbufSize).find? (scanStops env s ipv6 id) = none := by
    rw [List.find?_eq_none]
    intro i hi
    rcases hUsed i (List.mem_range.mp hi) with ⟨hSome, hOther⟩
    simp [scanStops, hSome, hOther]
  -- the first entry is taken twice
  have hFirst : (List.range cfg.rbufSize).foldl s.olderRbuf none = some o := by
    rcases Nat.exists_eq_succ_of_ne_zero (Nat.ne_of_gt hSize) with ⟨n, hn⟩
    rw [hn, List.range_succ_eq_map, List.foldl_cons,
      olderRbuf_some hZero hZero, if_pos (by omega)] at hFold
    rw [hn, List.range_succ_eq_map, List.foldl_cons]
    exact hFold
  refine ⟨o, hBound, ?_, hLe, ?_, ?_⟩
  · unfold gnrcIpv6ExtFragRbufGet
    rw [rbufScan_full hStops, hFirst]
    simp [hOverride]
  · exact fun i hi => hRest i (List.mem_range.mpr hi)
  · exact fun hFar => foldl_olderRbuf_of_far hZero hAges
      (fun i hi => hFar i (List.mem_range.mp hi)) hFold

/- As far behind the first entry as possible. -/
theorem age_far_iff
    {i j : Nat} (hI : s.age t i ≤ 2 ^ 31 - 1) (hJ : s.age t j ≤ 2 ^ 31 - 1) :
    s.age t i = s.age t j ∨ s.age t j + (2 ^ 31 - 1) ≤ s.age t i ↔
      (s.rbuf i).arrival = (s.rbuf j).arrival ∨ (s.rbuf i).arrival - (s.rbuf j).arrival =
          0x7fffffff := by
  have hMax : (0x7fffffff : UInt32).toNat = 2 ^ 31 - 1 := by
    decide
  have hLtI := (s.rbuf i).arrival.toNat_lt
  have hLtJ := (s.rbuf j).arrival.toNat_lt
  unfold age at *
  rw [← UInt32.toNat_inj, ← UInt32.toNat_inj, hMax]
  simp only [UInt32.toNat_sub] at *
  omega

theorem gnrcIpv6ExtFragRbufGet_evictsOldest_iff
    (hFull : FullTable cfg env s ipv6 id) (hOverride : cfg.doNotOverride = false)
    (hWithin : ArrivalsWithin cfg s t) :
    EvictsOldest cfg env s t ipv6 id ↔ ∀ i < cfg.rbufSize,
        (s.rbuf i).arrival = (s.rbuf 0).arrival ∨ (s.rbuf i).arrival - (s.rbuf 0).arrival =
            0x7fffffff := by
  have hZero := hWithin 0 hFull.1
  rcases gnrcIpv6ExtFragRbufGet_full hFull hOverride hWithin
    with ⟨o, hBound, hGet, hLe, hRest, hFar⟩
  constructor
  · rintro ⟨o', _, s', hGet', hFirst, _⟩
    rw [hGet] at hGet'
    cases hGet'
    have hSame : s.age t o = s.age t 0 := Nat.le_antisymm (hFirst 0 hFull.1) hLe
    intro i hi
    rw [← age_far_iff (hWithin i hi) hZero]
    have hBetween := hFirst i hi
    rcases hRest i hi with hEarly | hBehind
    · left
      omega
    · exact Or.inr hBehind
  · intro hCond
    have hCond' :
        ∀ i < cfg.rbufSize, s.age t i = s.age t 0 ∨ s.age t 0 + (2 ^ 31 - 1) ≤ s.age t i :=
      fun i hi =>
        (age_far_iff (hWithin i hi) hZero).mpr (hCond i hi)
    refine ⟨o, hBound, _, hGet, ?_, ?_, ?_, ?_⟩
    · intro i hi
      have := hCond' i hi
      rw [hFar hCond']
      omega
    · simp [initRbuf, setRbuf, ExtFragRbuf.init]
    · intro i hi
      simp [initRbuf, setRbuf, hi]
    · intro a ha
      rw [initRbuf_heap, rbufDel_heap]
      exact pktbufRelease_heap_of_notMem ha

/- A full table of two entries. -/
def sampleTable
    (first second : UInt32) : ExtReass where
  heap := fun _ => none
  rbuf i :=
    { ExtFragRbuf.init with
      ipv6 := some 1
      id := 1
      arrival := if i = 0 then first else second }
  freeLimits := 0
  copies := []

theorem gnrcIpv6ExtFragRbufGet_evictsOldest_sample :
    EvictsOldest ⟨2, 2, false, 10000000, 32⟩ (sampleReassEnv 0) (sampleTable 5 5) 5 1 7 := by
  refine (gnrcIpv6ExtFragRbufGet_evictsOldest_iff ⟨by decide, ?_⟩ rfl ?_).mpr ?_
  · decide
  · unfold ArrivalsWithin
    decide
  · decide

/- The second entry arrived later, and is given up. -/
theorem not_gnrcIpv6ExtFragRbufGet_evictsOldest :
    ¬ ∀ cfg env s t ipv6 id, FullTable cfg env s ipv6 id → cfg.doNotOverride = false →
      ArrivalsWithin cfg s t → EvictsOldest cfg env s t ipv6 id := by
  intro hAll
  let cfg : ExtReassConfig := ⟨2, 2, false, 10000000, 32⟩
  have hWithin : ArrivalsWithin cfg (sampleTable 5 6) 5 := by
    unfold ArrivalsWithin
    decide
  have hFull : FullTable cfg (sampleReassEnv 0) (sampleTable 5 6) 1 7 := ⟨by decide, by decide⟩
  rcases hAll cfg (sampleReassEnv 0) (sampleTable 5 6) 5 1 7
    hFull rfl hWithin with ⟨o, _, s', hGet, hFirst, _⟩
  have hRes :
      ((sampleTable 5 6).gnrcIpv6ExtFragRbufGet
        cfg (sampleReassEnv 0) 1 7).map Prod.snd = some (some 1) := by
    decide
  rw [hGet] at hRes
  cases hRes
  have hLate := hFirst 0 (by decide)
  revert hLate
  decide

end

end ExtReass

end Riot
