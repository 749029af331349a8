import Riot.Storage.VfsReferences

/-
  The mount that a path is given to.

  `_find_mount` selects the longest mount point that covers
  the path, whatever the order of the mounts is.
-/

----
-- Mount Points of a Path
----

namespace Riot

open Function
open Vfs
open Prog

/- A mount point covers itself and the paths below it. -/
def MountPoint.Covers
    (mp name : List Char) : Prop :=
  mp = ['/'] ∨ mp = name ∨ ∃ rest, name = mp ++ '/' :: rest

variable {M : Type} {conf : VfsConf M} {name : List Char} {it : M}
variable {mounts : List M} {found : Nat × Option M}

/- An absolute path of one character is the root. -/
theorem root_or_long
    {mp : List Char} (hAbs : mp.head? = some '/') :
    mp = ['/'] ∨ mp ≠ ['/'] ∧ 1 < mp.length := by
  rcases List.head?_eq_some_iff.mp hAbs with ⟨rest, rfl⟩
  cases rest with
  | nil => exact .inl rfl
  | cons c rest => exact .inr ⟨by simp, by simp⟩

/- The test of the search, without the length found so far. -/
theorem covers_iff
    {mp : List Char} (hAbs : mp.head? = some '/') (hName : name.head? = some '/') :
    MountPoint.Covers mp name ↔ mp.length ≤ name.length ∧
        ¬ (1 < mp.length ∧ name[mp.length]? ≠ some '/' ∧ mp.length ≠ name.length) ∧
          name.take mp.length = mp := by
  rcases List.head?_eq_some_iff.mp hName with ⟨tail, rfl⟩
  rcases root_or_long hAbs with rfl | ⟨hRoot, hLen⟩
  · simp [MountPoint.Covers]
  constructor
  · rintro (hEq | rfl | ⟨rest, hRest⟩)
    · exact absurd hEq hRoot
    · simp
    · rw [hRest]
      simp
  · rintro ⟨hLe, hNext, hTake⟩
    have hSplit : '/' :: tail = mp ++ ('/' :: tail).drop mp.length := by
      conv_lhs => rw [← List.take_append_drop mp.length ('/' :: tail), hTake]
    by_cases hSame : mp.length = ('/' :: tail).length
    · rw [hSame, List.take_length] at hTake
      exact .inr (.inl hTake.symm)
    · have hSlash : ('/' :: tail)[mp.length]? = some '/' := by
        by_contra hNot
        exact hNext ⟨hLen, hNot, hSame⟩
      rcases List.getElem?_eq_some_iff.mp hSlash with ⟨hLt, hGet⟩
      rw [List.drop_eq_getElem_cons hLt, hGet] at hSplit
      exact .inr (.inr ⟨_, hSplit⟩)

/- Mount points of one path with the same length are equal. -/
theorem covers_inj
    {mp mp' : List Char} (hAbs : mp.head? = some '/') (hAbs' : mp'.head? = some '/')
    (hName : name.head? = some '/') (hCovers : MountPoint.Covers mp name)
    (hCovers' : MountPoint.Covers mp' name) (hLen : mp.length = mp'.length) :
    mp = mp' := by
  have hTake := ((covers_iff hAbs hName).mp hCovers).2.2
  have hTake' := ((covers_iff hAbs' hName).mp hCovers').2.2
  rw [← hTake, hLen, hTake']

----
-- Search
----

/- The length that is tracked: 0 for the root. -/
def VfsConf.matchLen
    (conf : VfsConf M) (m : M) : Nat :=
  if conf.path m = ['/'] then 0 else (conf.path m).length

/- The lengths are compared as those of the mount points are. -/
theorem matchLen_le_iff
    {k : Nat} (hPos : 0 < k) :
    conf.matchLen it ≤ k ↔ (conf.path it).length ≤ k := by
  unfold VfsConf.matchLen
  by_cases hRoot : conf.path it = ['/']
  · simp [hRoot]
    omega
  · rw [if_neg hRoot]

/- What a search among some mounts should find. -/
def VfsConf.Longest
    (conf : VfsConf M) (name : List Char)
    (mounts : List M) : Option M → Prop
| none => ∀ m ∈ mounts, ¬ MountPoint.Covers (conf.path m) name
| some m =>
  m ∈ mounts ∧ MountPoint.Covers (conf.path m) name ∧
    ∀ m' ∈ mounts, MountPoint.Covers (conf.path m') name →
      m' ≠ m → (conf.path m').length < (conf.path m).length

/- A step takes a mount that covers and is not shorter. -/
theorem matchMount_step
    (hAbs : (conf.path it).head? = some '/') (hName : name.head? = some '/') :
    (found.1 ≤ (conf.path it).length ∧ MountPoint.Covers (conf.path it) name ∧
        matchMount conf name found it =
          (if conf.path it = ['/'] then found.1 else conf.matchLen it, some it)) ∨
      (¬ (found.1 ≤ (conf.path it).length ∧ MountPoint.Covers (conf.path it) name) ∧
        matchMount conf name found it = found) := by
  have hLen : 1 < (conf.path it).length ↔ conf.path it ≠ ['/'] := by
    rcases root_or_long hAbs with hRoot | ⟨hRoot, hLong⟩
    · simp [hRoot]
    · simp [hRoot, hLong]
  simp only [covers_iff hAbs hName, matchMount, VfsConf.matchLen]
  grind

/- The search finds what it should, with its length. -/
theorem searchMounts_longest
    (hAbs : ∀ m ∈ mounts, (conf.path m).head? = some '/')
    (hDistinct : ∀ a ∈ mounts, ∀ b ∈ mounts, conf.path a = conf.path b → a = b)
    (hName : name.head? = some '/') :
    conf.Longest name mounts (searchMounts conf name mounts).2 ∧
      (searchMounts conf name mounts).1 =
        ((searchMounts conf name mounts).2.map conf.matchLen).getD 0 := by
  induction mounts using List.reverseRecOn with
  | nil => simp [searchMounts, VfsConf.Longest]
  | append_singleton ms it ih =>
    simp only [List.mem_append, List.mem_singleton] at hAbs hDistinct
    rcases ih (fun m h => hAbs m (.inl h))
        (fun a ha b hb => hDistinct a (.inl ha) b (.inl hb)) with ⟨hLongest, hMatch⟩
    have hIt := hAbs it (.inr rfl)
    have hPos : 0 < (conf.path it).length := by
      rcases List.head?_eq_some_iff.mp hIt with ⟨rest, hRest⟩
      simp [hRest]
    have hStep : searchMounts conf name (ms ++ [it]) =
        matchMount conf name (searchMounts conf name ms) it := by
      simp [searchMounts]
    rw [hStep]
    generalize searchMounts conf name ms = found at hLongest hMatch
    rcases found with ⟨len, found⟩
    rcases (matchMount_step hIt hName : _ ∨ _ ∧ matchMount conf name (len, found) it = _) with
      ⟨hLe, hCovers, hEq⟩ | ⟨hNot, hEq⟩
    · rw [hEq]
      -- the mount found so far is shorter, or the same one
      have hShorter : ∀ m ∈ found, conf.matchLen m ≤ (conf.path it).length ∧
            (m ≠ it → (conf.path m).length < (conf.path it).length) := by
        rintro m ⟨⟩
        have hM := hAbs m (.inl hLongest.1)
        have hTracked : conf.matchLen m ≤ (conf.path it).length := by
          rw [← show len = conf.matchLen m from hMatch]
          exact hLe
        refine ⟨hTracked, fun hNe => ?_⟩
        refine lt_of_le_of_ne ((matchLen_le_iff hPos).mp hTracked) (fun hSame => hNe ?_)
        exact hDistinct m (.inl hLongest.1) it (.inr rfl)
          (covers_inj hM hIt hName hLongest.2.1 hCovers hSame)
      constructor
      · refine ⟨by simp, hCovers, fun m' hMem hCovers' hNe => ?_⟩
        have hMem' : m' ∈ ms := by simpa [hNe] using hMem
        cases found with
        | none => exact absurd hCovers' (hLongest m' hMem')
        | some m =>
          have hLast := hShorter m rfl
          by_cases hSame : m' = m
          · rw [hSame]
            exact hLast.2 (hSame ▸ hNe)
          · have hBefore := hLongest.2.2 m' hMem' hCovers' hSame
            have hM := hAbs m (.inl hLongest.1)
            exact hBefore.trans_le ((matchLen_le_iff hPos).mp hLast.1)
      · by_cases hRoot : conf.path it = ['/']
        · -- only the root is as short as the root
          simp only [if_pos hRoot, Option.map_some, Option.getD_some, VfsConf.matchLen]
          cases found with
          | none => exact hMatch
          | some m =>
            have hLast := (hShorter m rfl).1
            rcases root_or_long (hAbs m (.inl hLongest.1)) with hM | ⟨hM, hLong⟩
            · simpa [VfsConf.matchLen, hM] using hMatch
            · simp only [VfsConf.matchLen, if_neg hM, hRoot, List.length_singleton] at hLast
              omega
        · simp [if_neg hRoot]
    · rw [hEq]
      refine ⟨?_, hMatch⟩
      cases found with
      | none =>
        intro m hMem hCovers
        rcases List.mem_append.mp hMem with hMs | hLast
        · exact hLongest m hMs hCovers
        · cases List.mem_singleton.mp hLast
          have hLen : len = 0 := hMatch
          exact hNot ⟨by simp [hLen], hCovers⟩
      | some m =>
        refine ⟨List.mem_append_left _ hLongest.1, hLongest.2.1, fun m' hMem hCovers hNe => ?_⟩
        rcases List.mem_append.mp hMem with hMs | hLast
        · exact hLongest.2.2 m' hMs hCovers hNe
        · cases List.mem_singleton.mp hLast
          have hTracked : len = conf.matchLen m := hMatch
          have hM : conf.matchLen m ≤ _ ↔ _ := matchLen_le_iff hPos
          by_contra hLe
          simp only [hTracked, hCovers, and_true] at hNot
          omega

----
-- Dispatch
----

variable {H : Type} [DecidableEq M] [DecidableEq H] {n : Nat} {s : Vfs M H n}

/-
  What `_find_mount` should end with: the longest mount point,
  what remains of the path, and a reference on the mount.
-/
def Vfs.Dispatched
    (conf : VfsConf M) (s : Vfs M H n) (name : List Char) (res : Except Int (M × List Char))
    (s' : Vfs M H n) : Prop :=
  match res with
  | .error err =>
    err = -enoent ∧ conf.Longest name s.mounts none ∧
      s' = { s with locked := update s.locked .mount false }
  | .ok (m, relPath) =>
    conf.Longest name s.mounts (some m) ∧
      (if conf.path m = ['/'] then relPath = name else name = conf.path m ++ relPath) ∧ s' =
          { s with
            locked := update s.locked .mount false,
            openFiles := update s.openFiles m (s.openFiles m + 1) }

/-
  From any state whose mount mutex is free, a call ends, and
  every call ends with the longest mount point of the path.
-/
theorem findMount_longest
    (conf : VfsConf M) (s : Vfs M H n) (name : List Char)
    (hAbs : ∀ m ∈ s.mounts, (conf.path m).head? = some '/')
    (hDistinct : ∀ a ∈ s.mounts, ∀ b ∈ s.mounts, conf.path a = conf.path b → a = b)
    (hName : name.head? = some '/') :
    (s.locked .mount = false → ∃ es, ((findMount name).run (VfsOp.exec conf) es s).isSome) ∧
      ∀ es res s', (findMount name).run (VfsOp.exec conf) es s = some (res, s') →
        s.Dispatched conf name res s' := by
  rcases searchMounts_longest hAbs hDistinct hName with ⟨hLongest, hMatch⟩
  constructor
  · intro hFree
    cases hFound : (searchMounts conf name s.mounts).2 with
    | none =>
      refine ⟨[0, 0, 0], ?_⟩
      simp [findMount, vfsMutexLock, vfsMutexUnlock, vfsOp, perform, Prog.run, Bind.bind,
        Prog.bind, Pure.pure, StateT.bind, VfsOp.exec, hFree, hFound]
      rfl
    | some m =>
      refine ⟨[0, 0, 0, 0], ?_⟩
      simp [findMount, vfsMutexLock, vfsMutexUnlock, atomicFetchAdd, vfsOp, perform, Prog.run,
        Bind.bind, Prog.bind, Pure.pure, StateT.bind, VfsOp.exec, hFree, hFound]
      rfl
  · intro es res s' hRun
    refine Triple.run (fun t (hStart : t = s) => ?_) rfl hRun
    subst hStart
    simp only [findMount, meets_bind, vfsMutexLock, vfsOp, meets_perform]
    intro _ _ s₁ hLock
    simp only [VfsOp.exec, Option.ite_none_left_eq_some, Option.some.injEq, Prod.mk.injEq] at hLock
    rcases hLock with ⟨_, _, rfl⟩
    intro _ found s₂ hSearch
    cases hSearch
    cases hFound : (searchMounts conf name t.mounts).2 with
    | none =>
      rw [hFound] at hLongest
      intro _ _ s₃ hUnlock
      cases hUnlock
      exact ⟨rfl, hLongest, by simp⟩
    | some m =>
      rw [hFound] at hLongest hMatch
      intro _ _ s₃ hAdd
      cases hAdd
      intro _ _ s₄ hUnlock
      cases hUnlock
      refine ⟨hLongest, ?_, by simp⟩
      have hLen : (searchMounts conf name t.mounts).1 = conf.matchLen m := hMatch
      have hTake := ((covers_iff (hAbs m hLongest.1) hName).mp hLongest.2.1).2.2
      rw [hLen]
      unfold VfsConf.matchLen
      by_cases hRoot : conf.path m = ['/']
      · rw [if_pos hRoot, if_pos hRoot, List.drop_zero]
      · rw [if_neg hRoot, if_neg hRoot]
        conv_lhs => rw [← List.take_append_drop (conf.path m).length name, hTake]

/- The root, and a mount point below it. -/
def dispatchConf : VfsConf Bool where
  mount m := { fs := none, mountPoint := some (if m then ['/', 'a'] else ['/']) }

def dispatchVfs : Vfs Bool Unit 1 where
  mounts := [true, false]
  openFiles _ := 0
  locked _ := false
  files _ := { used := false, mp := none, fOp := none }
  dirs _ := { mp := none, dOp := none, isOpen := false }

theorem findMount_longest_nested :
    (∃ es, ((findMount ['/', 'a', '/', 'b']).run (VfsOp.exec dispatchConf) es
      dispatchVfs).isSome) ∧ ∀ es res s',
        (findMount ['/', 'a', '/', 'b']).run (VfsOp.exec dispatchConf) es dispatchVfs =
            some (res, s') →
          dispatchVfs.Dispatched dispatchConf ['/', 'a', '/', 'b'] res s' := by
  have hFound := findMount_longest dispatchConf dispatchVfs ['/', 'a', '/', 'b'] (by decide)
    (by decide) rfl
  exact ⟨hFound.1 rfl, hFound.2⟩

end Riot
