import Riot.Lib.System
import Riot.Sys.UniversalAddress

/-
  Runs of the universal address table.

  The counter is the number of containers in use as long as the
  table is initialized only while none is, and no container with
  255 users gets another one.
-/

----
-- What the Operations Change
----

namespace Riot

/- The number of containers in use. -/
def UaTable.inUse
    (t : UaTable) : Nat :=
  t.containers.countP (fun c => c.useCount != 0)

/-
  An address is added to its own container, the first one with
  it, or else to an unused one.
-/
inductive UaPlace
    (t : UaTable) (addr : List UInt8) (k : Nat)
    (c : UaContainer) : Prop
| found
    (hAddr : c.address = addr)
    (hFirst : ∀ j < k, ∀ c', t.containers[j]? = some c' → c'.address ≠ addr)
| unused
    (hUnused : c.useCount = 0)
    (hRoom : t.filled < t.containers.length)
    (hNew : ∀ c' ∈ t.containers, c'.address ≠ addr)

section

variable {t : UaTable} {addr : List UInt8}

theorem findIdx?_spec
    {p : UaContainer → Bool} {k : Nat} (hFind : t.containers.findIdx? p = some k) :
    ∃ c, t.containers[k]? = some c ∧ p c = true ∧
      ∀ j < k, ∀ c', t.containers[j]? = some c' → p c' = false := by
  rcases List.findIdx?_eq_some_iff_getElem.mp hFind with ⟨hLt, hTrue, hFirst⟩
  refine ⟨_, List.getElem?_eq_getElem hLt, hTrue, ?_⟩
  intro j hj c' hGet
  rcases List.getElem?_eq_some_iff.mp hGet with ⟨_, rfl⟩
  simpa using hFirst j hj

/- One more user, of a container that may get an address. -/
theorem UaTable.use_eq
    {k : Nat} {c : UaContainer} (hGet : t.containers[k]? = some c) :
    t.use k = ⟨t.containers.set k { c with useCount := (c.useCount + 1) % 2 ^ 8 },
        if (c.useCount + 1) % 2 ^ 8 = 1 then t.filled + 1
        else t.filled⟩ := by
  unfold UaTable.use
  rw [hGet]

theorem universalAddressAdd_cases
    (t : UaTable) (addr : List UInt8) :
    (universalAddressAdd t addr = (t, none) ∧ (∀ c ∈ t.containers, c.address ≠ addr) ∧
      (t.filled < t.containers.length → ∀ c ∈ t.containers, c.useCount ≠ 0)) ∨
    ∃ k c, t.containers[k]? = some c ∧ UaPlace t addr k c ∧ universalAddressAdd t addr =
        (⟨t.containers.set k ⟨(c.useCount + 1) % 2 ^ 8, addr⟩,
          if (c.useCount + 1) % 2 ^ 8 = 1 then t.filled + 1
          else t.filled⟩, some k) := by
  unfold universalAddressAdd universalAddressFindEntry
  cases hFind : t.containers.findIdx? (fun c => c.address == addr) with
  | some k =>
    rcases findIdx?_spec hFind with ⟨c, hGet, hAddr, hFirst⟩
    have hSame : c.address = addr := by
      simpa using hAddr
    right
    refine ⟨k, c, hGet, .found hSame ?_, ?_⟩
    · intro j hj c' hGet'
      simpa using hFirst j hj c' hGet'
    · dsimp only
      rw [UaTable.use_eq hGet, ← hSame]
  | none =>
    have hNew : ∀ c ∈ t.containers, c.address ≠ addr := by
      simpa using hFind
    unfold universalAddressGetNextUnusedEntry
    by_cases hRoom : t.filled < t.containers.length
    · rw [if_pos hRoom]
      cases hUnused : t.containers.findIdx? (fun c => c.useCount == 0) with
      | none =>
        left
        refine ⟨rfl, hNew, fun _ => ?_⟩
        simpa using hUnused
      | some k =>
        rcases findIdx?_spec hUnused with ⟨c, hGet, hZero, _⟩
        have hZero : c.useCount = 0 := by
          simpa using hZero
        rcases List.getElem?_eq_some_iff.mp hGet with ⟨hLt, _⟩
        right
        refine ⟨k, c, hGet, .unused hZero hRoom hNew, ?_⟩
        dsimp only
        rw [UaTable.use_eq (List.getElem?_set_self hLt)]
        simp [hZero]
    · rw [if_neg hRoom]
      exact Or.inl ⟨rfl, hNew, fun h => absurd h hRoom⟩

theorem universalAddressRem_cases
    (t : UaTable) (entry : Option Nat) :
    (universalAddressRem t entry = t ∧
      ∀ k c, entry = some k → t.containers[k]? = some c → c.useCount = 0) ∨
      ∃ k c, entry = some k ∧ t.containers[k]? = some c ∧ c.useCount ≠ 0 ∧
        universalAddressRem t entry = ⟨t.containers.set k { c with useCount := c.useCount - 1 },
            if c.useCount - 1 = 0 then t.filled - 1
            else t.filled⟩ := by
  cases entry with
  | none => exact Or.inl ⟨rfl, fun _ _ hEq => by cases hEq⟩
  | some k =>
    unfold universalAddressRem
    cases hGet : t.containers[k]? with
    | none =>
      left
      refine ⟨by simp [hGet], fun j c hEq hSome => ?_⟩
      rw [← Option.some.inj hEq, hGet] at hSome
      cases hSome
    | some c =>
      by_cases hZero : c.useCount = 0
      · left
        refine ⟨by simp [hGet, hZero], fun j c hEq hSome => ?_⟩
        rw [← Option.some.inj hEq, hGet] at hSome
        exact Option.some.inj hSome ▸ hZero
      · refine Or.inr ⟨k, c, rfl, hGet, hZero, ?_⟩
        simp [hGet, hZero]

/- The containers in use, after one container has changed. -/
theorem inUse_set
    {k filled : Nat} {c c' : UaContainer} (hGet : t.containers[k]? = some c) :
    UaTable.inUse ⟨t.containers.set k c', filled⟩ + (if c.useCount = 0 then 0 else 1) =
      t.inUse + (if c'.useCount = 0 then 0 else 1) := by
  rcases List.getElem?_eq_some_iff.mp hGet with ⟨hLt, rfl⟩
  have hMem := List.getElem_mem hLt
  have hCount := List.countP_set
    (p := fun c : UaContainer => c.useCount != 0)
    (a := c') hLt
  have hSome : t.containers[k].useCount ≠ 0 → 0 < t.inUse := by
    intro hUsed
    exact List.countP_pos_iff.mpr ⟨_, hMem, by simpa using hUsed⟩
  unfold UaTable.inUse at *
  rw [hCount]
  by_cases hUsed : t.containers[k].useCount = 0
  · simp [hUsed]
  · have := hSome hUsed
    simp [hUsed]
    omega

/- The counter never falls behind the containers in use. -/
theorem universalAddressAdd_inUse_le
    (hCount : t.inUse ≤ t.filled) :
    (universalAddressAdd t addr).1.inUse ≤ (universalAddressAdd t addr).1.filled := by
  rcases universalAddressAdd_cases t addr with ⟨hAdd, _⟩ | ⟨k, c, hGet, _, hAdd⟩
  · rw [hAdd]
    exact hCount
  · have hSet := @inUse_set t k
      (if (c.useCount + 1) % 2 ^ 8 = 1 then t.filled + 1
        else t.filled) c ⟨(c.useCount + 1) % 2 ^ 8, addr⟩ hGet
    rw [hAdd]
    dsimp only at hSet ⊢
    split_ifs at hSet ⊢ <;> omega

theorem universalAddressRem_inUse_le
    {entry : Option Nat} (hCount : t.inUse ≤ t.filled) :
    (universalAddressRem t entry).inUse ≤ (universalAddressRem t entry).filled := by
  rcases universalAddressRem_cases t entry with ⟨hRem, _⟩ | ⟨k, c, _, hGet, hUsed, hRem⟩
  · rw [hRem]
    exact hCount
  · have hSet := @inUse_set t k
      (if c.useCount - 1 = 0 then t.filled - 1 else t.filled) c
      { c with useCount := c.useCount - 1 } hGet
    rw [hRem]
    dsimp only at hSet ⊢
    rw [if_neg hUsed] at hSet
    split_ifs at hSet ⊢ <;> omega

end

----
-- Counted Tables
----

inductive UaEvent where
  | add
      (addr : List UInt8)
  | rem
      (entry : Option Nat)
  | init
  | reset
deriving DecidableEq, Repr

def UaTable.exec
    (t : UaTable) : UaEvent → Option UaTable
| .add addr => some (universalAddressAdd t addr).1
| .rem entry => some (universalAddressRem t entry)
| .init => some (universalAddressInit t)
| .reset => some (universalAddressReset t)

def uaSystem : System UaTable UaEvent where
  Start := fun t => ∃ n, t = ⟨List.replicate n ⟨0, []⟩, 0⟩
  Enabled := fun _ _ => True
  exec := UaTable.exec

/-
  The counter is right, and no two containers in use have the
  same address.
-/
structure UaTable.Counted
    (t : UaTable) : Prop where
  filled : t.filled = t.inUse
  distinct :
    ∀ (i j : Nat) (c c' : UaContainer), t.containers[i]? = some c → t.containers[j]? = some c' →
      c.useCount ≠ 0 → c'.useCount ≠ 0 → c.address = c'.address → i = j

/- What is in use before and after keeps its address. -/
def UaTable.KeepsContent
    (t t' : UaTable) : Prop :=
  ∀ (k : Nat) (c c' : UaContainer), t.containers[k]? = some c → t'.containers[k]? = some c' →
    c.useCount ≠ 0 → c'.useCount ≠ 0 → c'.address = c.address

/- The counter and the use counts are not thrown off. -/
def UaEvent.KeepsCount
    (t : UaTable) : UaEvent → Prop
| .add addr => ∀ c ∈ t.containers, c.address = addr → c.useCount < 255
| .init => t.filled = 0
| _ => True

/- Of containers with one address only the first is in use. -/
def UaTable.FirstUsed
    (t : UaTable) : Prop :=
  ∀ (i j : Nat) (c c' : UaContainer), i < j → t.containers[i]? = some c →
    t.containers[j]? = some c' → c.address = c'.address → c'.useCount = 0

section

variable {t t' : UaTable}

theorem UaTable.FirstUsed.distinct
    (h : t.FirstUsed) {i j : Nat} {c c' : UaContainer}
    (hI : t.containers[i]? = some c) (hJ : t.containers[j]? = some c')
    (hUsedI : c.useCount ≠ 0) (hUsedJ : c'.useCount ≠ 0)
    (hSame : c.address = c'.address) :
    i = j := by
  rcases Nat.lt_trichotomy i j with hLt | hEq | hGt
  · exact absurd (h i j c c' hLt hI hJ hSame) hUsedJ
  · exact hEq
  · exact absurd (h j i c' c hGt hJ hI hSame.symm) hUsedI

theorem firstUsed_of_unused
    (hUnused : ∀ c ∈ t.containers, c.useCount = 0) :
    t.FirstUsed :=
  fun _ _ _ _ _ _ hJ _ =>
    hUnused _ (List.mem_of_getElem? hJ)

/- What is read after one container has changed. -/
theorem getElem?_set_cases
    {containers : List UaContainer} {j k : Nat} {new d : UaContainer}
    (hGet : (containers.set k new)[j]? = some d) :
    j = k ∧ d = new ∨ j ≠ k ∧ containers[j]? = some d := by
  rw [List.getElem?_set] at hGet
  by_cases hEq : k = j
  · rw [if_pos hEq] at hGet
    split at hGet
    · cases hGet
      exact Or.inl ⟨hEq.symm, rfl⟩
    · cases hGet
  · rw [if_neg hEq] at hGet
    exact Or.inr ⟨fun h => hEq h.symm, hGet⟩

/- A container loses users, or gets one in its place. -/
theorem UaTable.FirstUsed.set
    {k filled : Nat} {c new : UaContainer} (h : t.FirstUsed)
    (hGet : t.containers[k]? = some c)
    (hPlace :
      new.address = c.address ∧ (c.useCount = 0 → new.useCount = 0) ∨ UaPlace t new.address k c) :
    UaTable.FirstUsed ⟨t.containers.set k new, filled⟩ := by
  intro i j d d' hij hI hJ hSame
  replace hI := getElem?_set_cases hI
  replace hJ := getElem?_set_cases hJ
  rcases hI with ⟨rfl, rfl⟩ | ⟨_, hI⟩ <;>
  rcases hJ with ⟨rfl, rfl⟩ | ⟨_, hJ⟩
  · exact absurd hij (Nat.lt_irrefl _)
  · rcases hPlace with ⟨hAddr, _⟩ | hFound | ⟨_, _, hNew⟩
    · exact h _ _ c d' hij hGet hJ (hAddr.symm.trans hSame)
    · exact h _ _ c d' hij hGet hJ (by rw [hFound, hSame])
    · exact absurd hSame.symm (hNew d' (List.mem_of_getElem? hJ))
  · rcases hPlace with ⟨hAddr, hZero⟩ | ⟨_, hFirst⟩ | ⟨_, _, hNew⟩
    · exact hZero (h _ _ d c hij hI hGet (hSame.trans hAddr))
    · exact absurd hSame (hFirst i hij d hI)
    · exact absurd hSame (hNew d (List.mem_of_getElem? hI))
  · exact h i j d d' hij hI hJ hSame

theorem keepsContent_set
    {k filled : Nat} {c new : UaContainer} (hGet : t.containers[k]? = some c)
    (hKept : c.useCount ≠ 0 → new.address = c.address) :
    t.KeepsContent ⟨t.containers.set k new, filled⟩ := by
  intro j d d' hOld hNew hUsed _
  rcases getElem?_set_cases hNew with ⟨rfl, rfl⟩ | ⟨_, hSame⟩
  · rw [hGet] at hOld
    cases hOld
    exact hKept hUsed
  · rw [hOld] at hSame
    cases hSame
    rfl

theorem UaTable.exec_keepsContent
    {e : UaEvent} (hExec : t.exec e = some t') :
    t.KeepsContent t' := by
  have hRefl : t.KeepsContent t := by
    intro k c c' hGet hGet' _ _
    rw [hGet] at hGet'
    cases hGet'
    rfl
  cases e with
  | add addr =>
    cases hExec
    rcases universalAddressAdd_cases t addr with ⟨hAdd, _⟩ | ⟨k, c, hGet, hPlace, hAdd⟩
    · rw [hAdd]
      exact hRefl
    · rw [hAdd]
      apply keepsContent_set hGet
      intro hUsed
      rcases hPlace with ⟨hAddr, _⟩ | ⟨hUnused, _, _⟩
      · exact hAddr.symm
      · exact absurd hUnused hUsed
  | rem entry =>
    cases hExec
    rcases universalAddressRem_cases t entry with ⟨hRem, _⟩ | ⟨k, c, _, hGet, _, hRem⟩
    · rw [hRem]
      exact hRefl
    · rw [hRem]
      exact keepsContent_set hGet (fun _ => rfl)
  | init =>
    cases hExec
    intro k c c' _ hGet' _ hUsed
    simp only [universalAddressInit, List.getElem?_map, Option.map_eq_some_iff] at hGet'
    rcases hGet' with ⟨_, _, rfl⟩
    exact absurd rfl hUsed
  | reset =>
    cases hExec
    intro k c c' _ hGet' _ hUsed
    simp only [universalAddressReset, List.getElem?_map, Option.map_eq_some_iff] at hGet'
    rcases hGet' with ⟨_, _, rfl⟩
    exact absurd rfl hUsed

theorem inUse_of_unused
    (hUnused : ∀ c ∈ t.containers, c.useCount = 0) :
    t.inUse = 0 := by
  apply List.countP_eq_zero.mpr
  intro c hc
  simp [hUnused c hc]

theorem UaTable.exec_counted
    {e : UaEvent} (hFilled : t.filled = t.inUse) (hFirst : t.FirstUsed)
    (hKeeps : e.KeepsCount t) (hExec : t.exec e = some t') :
    t'.filled = t'.inUse ∧ t'.FirstUsed := by
  cases e with
  | add addr =>
    cases hExec
    rcases universalAddressAdd_cases t addr with ⟨hAdd, _⟩ | ⟨k, c, hGet, hPlace, hAdd⟩
    · rw [hAdd]
      exact ⟨hFilled, hFirst⟩
    · have hFits : c.useCount < 255 := by
        rcases hPlace with ⟨hAddr, _⟩ | ⟨hUnused, _, _⟩
        · exact hKeeps c (List.mem_of_getElem? hGet) hAddr
        · omega
      have hCount := @inUse_set t k
        (if c.useCount + 1 = 1 then t.filled + 1 else t.filled) c ⟨c.useCount + 1, addr⟩ hGet
      rw [hAdd, Nat.mod_eq_of_lt (by omega)]
      refine ⟨?_, hFirst.set hGet (Or.inr hPlace)⟩
      dsimp only at hCount ⊢
      by_cases hZero : c.useCount = 0
      · simp [hZero] at hCount ⊢
        omega
      · simp [hZero] at hCount ⊢
        omega
  | rem entry =>
    cases hExec
    rcases universalAddressRem_cases t entry with ⟨hRem, _⟩ | ⟨k, c, _, hGet, hUsed, hRem⟩
    · rw [hRem]
      exact ⟨hFilled, hFirst⟩
    · have hCount := @inUse_set t k
        (if c.useCount - 1 = 0 then t.filled - 1 else t.filled) c
        { c with useCount := c.useCount - 1 } hGet
      rw [hRem]
      refine ⟨?_, hFirst.set hGet (Or.inl ⟨rfl, ?_⟩)⟩
      · dsimp only at hCount ⊢
        rw [if_neg hUsed] at hCount
        split at hCount
        · rename_i hZero
          rw [if_pos hZero] at *
          omega
        · rename_i hZero
          rw [if_neg hZero] at *
          omega
      · exact fun hZero => absurd hZero hUsed
  | init =>
    cases hExec
    have hUnused : ∀ c ∈ (universalAddressInit t).containers, c.useCount = 0 := by
      simp [universalAddressInit]
    rw [inUse_of_unused hUnused]
    exact ⟨hKeeps, firstUsed_of_unused hUnused⟩
  | reset =>
    cases hExec
    have hUnused : ∀ c ∈ (universalAddressReset t).containers, c.useCount = 0 := by
      simp [universalAddressReset]
    rw [inUse_of_unused hUnused]
    exact ⟨rfl, firstUsed_of_unused hUnused⟩

/- Tables stay counted, and every call keeps the content. -/
theorem uaCounted_of_reachable
    (hReach : uaSystem.ReachableVia (fun t e => e.KeepsCount t) t) :
    t.Counted ∧ ∀ e t', t.exec e = some t' → t.KeepsContent t' := by
  have hInv : t.filled = t.inUse ∧ t.FirstUsed := by
    apply hReach.invariant (I := fun t => t.filled = t.inUse ∧ t.FirstUsed)
    · rintro t ⟨n, rfl⟩
      have hUnused : ∀ c ∈ List.replicate n (UaContainer.mk 0 []), c.useCount = 0 := by
        intro c hc
        rw [List.eq_of_mem_replicate hc]
      exact ⟨(inUse_of_unused hUnused).symm, firstUsed_of_unused hUnused⟩
    · intro t e t' h hKeeps _ hExec
      exact t.exec_counted h.1 h.2 hKeeps hExec
  refine ⟨⟨hInv.1, ?_⟩, fun e t' => t.exec_keepsContent⟩
  intro i j c c' hI hJ hUsedI hUsedJ hSame
  exact hInv.2.distinct hI hJ hUsedI hUsedJ hSame

end

----
-- A Table of Two Containers
----

instance
    (t : UaTable) (e : UaEvent) :
    Decidable (e.KeepsCount t) := by
  cases e <;> unfold UaEvent.KeepsCount <;> infer_instance

instance
    (t : UaTable) (e : UaEvent) :
    Decidable (uaSystem.Enabled t e) :=
  inferInstanceAs (Decidable True)

theorem uaSystem_start
    (n : Nat) :
    uaSystem.Start ⟨List.replicate n ⟨0, []⟩, 0⟩ :=
  ⟨n, rfl⟩

/- One address is shared, and another is replaced. -/
theorem uaCounted_shared :
    ∃ t : UaTable, t.containers = [⟨1, [7]⟩, ⟨1, [9]⟩] ∧ t.Counted := by
  have hRun :
      (uaSystem.runVia (fun t e => e.KeepsCount t)
          ⟨List.replicate 2 ⟨0, []⟩, 0⟩
          [.add [7], .add [7], .add [8], .rem (some 1), .rem (some 0), .add [9]]).any
        (fun t => decide (t.containers = [⟨1, [7]⟩, ⟨1, [9]⟩])) = true := by
    decide +kernel
  rcases System.exists_reachableVia_of_runVia (uaSystem_start 2) hRun with ⟨t, _, hReach, hTable⟩
  exact ⟨t, hTable, (uaCounted_of_reachable hReach).1⟩

/- The table is initialized while an address is in use. -/
theorem not_uaCounted_init :
    ∃ t, uaSystem.Reachable t ∧ ¬ t.Counted := by
  have hRun :
      (uaSystem.runVia (fun _ _ => True)
          ⟨List.replicate 1 ⟨0, []⟩, 0⟩
          [.add [7], .init]).any
        (fun t => decide (t.filled ≠ t.inUse)) = true := by
    decide +kernel
  rcases System.exists_reachableVia_of_runVia (uaSystem_start 1) hRun with ⟨t, _, hReach, hNot⟩
  exact ⟨t, hReach, fun h => hNot h.filled⟩

end Riot
