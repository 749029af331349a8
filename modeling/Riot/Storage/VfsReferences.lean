import Mathlib.Algebra.Ring.Int.Defs
import Riot.Sys.Vfs
import Mathlib.Algebra.Group.Pi.Basic

/-
  The references that the calls of the file system layer take
  and give back.

  The counter of a mount is the number of descriptors and
  handles that are open on it, and what calls in progress hold
  besides.  A call that is made alone gives back what it takes,
  but for `vfs_opendir` on a mount without directory
  operations.
-/

----
-- Accounts
----

namespace Riot

open Function
open Vfs
open Prog

variable {M H : Type} [DecidableEq M] [DecidableEq H] [Fintype H] {n : Nat}
variable {conf : VfsConf M} {s s' : Vfs M H n} {refs : M → Int} {m : M}

/- The descriptors and the handles that are open on a mount. -/
def Vfs.opened
    (s : Vfs M H n) (m : M) : Int :=
  tally (fun fd => (s.files fd).openOn) m + tally (fun h => (s.dirs h).openOn) m

/- The counters, if calls in progress hold references. -/
def Vfs.Accounted
    (s : Vfs M H n) (refs : M → Int) : Prop :=
  ∀ m, s.openFiles m = s.opened m + refs m

namespace Vfs.Accounted

omit [DecidableEq H] in
/- Only the counters, descriptors and handles matter. -/
theorem congr
    (h : s.Accounted refs) (hOpenFiles : s'.openFiles = s.openFiles)
    (hFiles : s'.files = s.files) (hDirs : s'.dirs = s.dirs) :
    s'.Accounted refs := by
  intro x
  have hAt := h x
  unfold Vfs.opened at hAt ⊢
  rw [hOpenFiles, hFiles, hDirs]
  exact hAt

omit [DecidableEq H] in
/- The counter of one mount changes by `k`. -/
theorem update_openFiles
    {k : Int} (h : s.Accounted refs) :
    { s with openFiles := update s.openFiles m (s.openFiles m + k) }.Accounted
      (fun x => refs x + k * single (some m) x) := by
  intro x
  have hAt := h x
  unfold Vfs.opened at hAt ⊢
  by_cases hSame : m = x
  · subst hSame
    dsimp only
    rw [update_self, single, if_pos rfl]
    omega
  · dsimp only
    rw [update_of_ne (Ne.symm hSame), single, if_neg hSame]
    omega

omit [DecidableEq H] in
theorem fetchAdd
    (h : s.Accounted refs) :
    { s with openFiles := update s.openFiles m (s.openFiles m + 1) }.Accounted
      (refs + single (some m)) := by
  intro x
  have hAt := h.update_openFiles (m := m) (k := 1) x
  dsimp only at hAt
  rw [one_mul] at hAt
  exact hAt

omit [DecidableEq H] in
theorem fetchSub
    (h : s.Accounted refs) :
    { s with openFiles := update s.openFiles m (s.openFiles m - 1) }.Accounted
      (refs - single (some m)) := by
  intro x
  have hAt := h.update_openFiles (m := m) (k := -1) x
  dsimp only at hAt
  rw [Int.neg_mul, one_mul] at hAt
  exact hAt

omit [DecidableEq H] in
/- A changed descriptor is counted as it is now. -/
theorem update_files
    (h : s.Accounted refs) (fd : Fin n) (f : FileEntry M) :
    { s with files := update s.files fd f }.Accounted
      (refs + single (s.files fd).openOn - single f.openOn) := by
  intro x
  have hAt := h x
  have hTally := sum_update (fun f : FileEntry M => single f.openOn x) s.files fd f
  unfold Vfs.opened tally at hAt ⊢
  rw [Pi.sub_apply, Pi.add_apply]
  dsimp only at hAt hTally ⊢
  omega

omit [DecidableEq H] in
/- A descriptor that is freed is no longer counted. -/
theorem freeFile
    {fd : Fin n} (h : s.Accounted refs) (hUsed : (s.files fd).used = true) :
    { s with files := update s.files fd { s.files fd with used := false } }.Accounted
      (refs + single (s.files fd).mp) := by
  have hFreed := h.update_files fd { s.files fd with used := false }
  have hOld : (s.files fd).openOn = (s.files fd).mp := by
    rw [FileEntry.openOn, if_pos hUsed]
  rw [hOld] at hFreed
  intro x
  have hAt := hFreed x
  rw [Pi.sub_apply] at hAt
  exact hAt.trans (congrArg _ (sub_zero _))

/- So is a changed handle. -/
theorem update_dirs
    (h : s.Accounted refs) (d : H) (e : DirEntry M) :
    { s with dirs := update s.dirs d e }.Accounted
      (refs + single (s.dirs d).openOn - single e.openOn) := by
  intro x
  have hAt := h x
  have hTally := sum_update (fun e : DirEntry M => single e.openOn x) s.dirs d e
  unfold Vfs.opened tally at hAt ⊢
  rw [Pi.sub_apply, Pi.add_apply]
  dsimp only at hAt hTally ⊢
  omega

end Vfs.Accounted

----
-- Operations
----

/- A program that keeps an account of counters and entries. -/
def VfsBalances
    (conf : VfsConf M) {α : Type} (refs : M → Int) (p : VfsProg M H n α)
    (refs' : α → M → Int) : Prop :=
  Triple (VfsOp.exec conf) (fun s => s.Accounted refs) p (fun a s => s.Accounted (refs' a))

theorem VfsBalances.bind
    {α β : Type} {p : VfsProg M H n α} {f : α → VfsProg M H n β} {mid : α → M → Int}
    {refs' : β → M → Int} (hFirst : VfsBalances conf refs p mid)
    (hNext : ∀ a, VfsBalances conf (mid a) (f a) refs') :
    VfsBalances conf refs (p >>= f) refs' :=
  Triple.bind hFirst hNext

theorem VfsBalances.pure
    {α : Type} {a : α} :
    VfsBalances conf refs (Pure.pure a : VfsProg M H n α) (fun _ => refs) :=
  Triple.pure (fun _ h => h)

theorem vfsMutexLock_balances
    {x : VfsMutex} :
    VfsBalances conf refs (vfsMutexLock x : VfsProg M H n Unit) (fun _ => refs) := by
  refine Triple.perform ?_
  intro s r _ s' hPre hExec
  simp only [VfsOp.exec, Option.ite_none_left_eq_some, Option.some.injEq, Prod.mk.injEq] at hExec
  rcases hExec with ⟨_, _, rfl⟩
  exact hPre.congr rfl rfl rfl

theorem vfsMutexUnlock_balances
    {x : VfsMutex} :
    VfsBalances conf refs (vfsMutexUnlock x : VfsProg M H n Unit) (fun _ => refs) := by
  refine Triple.perform ?_
  intro s r _ s' hPre hExec
  cases hExec
  exact hPre.congr rfl rfl rfl

theorem atomicFetchSub_balances :
    VfsBalances conf (refs + single (some m)) (atomicFetchSub m : VfsProg M H n Unit)
      (fun _ => refs) := by
  refine Triple.perform ?_
  intro s r _ s' hPre hExec
  cases hExec
  have hSub := hPre.fetchSub (m := m)
  rw [add_sub_cancel_right] at hSub
  exact hSub

theorem driver_balances
    {op : DriverOp} :
    VfsBalances conf refs (driver op : VfsProg M H n Int) (fun _ => refs) := by
  refine Triple.perform ?_
  intro s r _ s' hPre hExec
  cases hExec
  exact hPre

theorem deref_balances
    {α : Type} {ptr : Option α} :
    VfsBalances conf refs (deref ptr : VfsProg M H n α) (fun _ => refs) := by
  cases ptr with
  | some a => exact Triple.pure (fun _ h => h)
  | none =>
    intro s _ r x _ _
    exact nomatch x

----
-- Helpers
----

omit [Fintype H] in
/- What a search for a mount does to the state. -/
theorem findMount_triple
    {name : List Char} (start : Vfs M H n) :
    Triple (VfsOp.exec conf) (fun s => s = start) (findMount name) (fun res s =>
        s.files = start.files ∧ s.dirs = start.dirs ∧ match res with
          | .error _ => s.openFiles = start.openFiles
          | .ok found =>
            (searchMounts conf name start.mounts).2 = some found.1 ∧
              s.openFiles = update start.openFiles found.1 (start.openFiles found.1 + 1)) := by
  intro s hStart
  subst hStart
  simp only [findMount, meets_bind, vfsMutexLock, vfsOp, meets_perform]
  intro _ _ s₁ hLock
  simp only [VfsOp.exec, Option.ite_none_left_eq_some, Option.some.injEq, Prod.mk.injEq] at hLock
  rcases hLock with ⟨_, _, rfl⟩
  intro _ found s₂ hSearch
  cases hSearch
  cases hFound : (searchMounts conf name s.mounts).2 with
  | none =>
    intro _ _ s₃ hUnlock
    cases hUnlock
    exact ⟨rfl, rfl, rfl⟩
  | some m =>
    intro _ _ s₃ hAdd
    cases hAdd
    intro _ _ s₄ hUnlock
    cases hUnlock
    exact ⟨rfl, rfl, rfl, rfl⟩

/- The references that a search has taken. -/
def foundRefs
    (refs : M → Int) :
    Except Int (M × List Char) → M → Int
| .error _ => refs
| .ok found => refs + single (some found.1)

theorem findMount_balances
    {name : List Char} :
    VfsBalances conf refs (findMount name : VfsProg M H n _) (foundRefs refs) := by
  intro s hPre
  refine Triple.mono (findMount_triple s) (fun _ h => h) ?_ s rfl
  rintro (err | found) s' ⟨hFiles, hDirs, hFound⟩
  · exact hPre.congr hFound hFiles hDirs
  · exact hPre.fetchAdd.congr hFound.2 hFiles hDirs

/- A function gives back the reference that its search took. -/
theorem onMount_balances
    {has : FileSystemOps → Bool} {op : List Char → DriverOp} {name : Option (List Char)} :
    VfsBalances conf refs (onMount conf has op name : VfsProg M H n Int) (fun _ => refs) := by
  cases name with
  | none => exact VfsBalances.pure
  | some name =>
    refine VfsBalances.bind findMount_balances ?_
    rintro (err | found)
    · exact VfsBalances.pure
    · refine VfsBalances.bind deref_balances ?_
      intro fs
      refine Triple.ite ?_ ?_
      · intro _
        exact VfsBalances.bind atomicFetchSub_balances (fun _ => VfsBalances.pure)
      · intro _
        refine VfsBalances.bind driver_balances ?_
        intro res
        exact VfsBalances.bind atomicFetchSub_balances (fun _ => VfsBalances.pure)

/- Two references are given back one after the other. -/
theorem atomicFetchSub_both
    {m₁ m₂ : M} {res : Int} :
    VfsBalances conf (refs + single (some m₁) + single (some m₂)) (do
        atomicFetchSub m₁
        atomicFetchSub m₂
        return res : VfsProg M H n Int)
      (fun _ => refs) := by
  rw [add_right_comm]
  refine VfsBalances.bind atomicFetchSub_balances ?_
  intro _
  exact VfsBalances.bind atomicFetchSub_balances (fun _ => VfsBalances.pure)

theorem vfsRename_balances
    {fromPath toPath : Option (List Char)} :
    VfsBalances conf refs (vfsRename conf fromPath toPath : VfsProg M H n Int) (fun _ => refs) := by
  unfold vfsRename
  split
  · refine VfsBalances.bind findMount_balances ?_
    rintro (err | found)
    · exact VfsBalances.pure
    · refine VfsBalances.bind deref_balances ?_
      intro fs
      refine Triple.ite ?_ ?_
      · intro _
        exact VfsBalances.bind atomicFetchSub_balances (fun _ => VfsBalances.pure)
      · intro _
        refine VfsBalances.bind findMount_balances ?_
        rintro (err | foundTo)
        · exact VfsBalances.bind atomicFetchSub_balances (fun _ => VfsBalances.pure)
        · refine Triple.ite ?_ ?_
          · intro _
            exact atomicFetchSub_both
          · intro _
            refine VfsBalances.bind driver_balances ?_
            intro res
            exact atomicFetchSub_both
  · exact VfsBalances.pure

----
-- Mounts
----

theorem checkMount_balances
    {mountp : Option M} :
    VfsBalances conf refs (checkMount conf mountp : VfsProg M H n Int) (fun _ => refs) := by
  cases mountp with
  | none => exact VfsBalances.pure
  | some m =>
    refine Triple.ite (fun _ => VfsBalances.pure) ?_
    intro _
    refine Triple.ite (fun _ => VfsBalances.pure) ?_
    intro _
    refine VfsBalances.bind vfsMutexLock_balances ?_
    intro _
    have hFind :
        VfsBalances conf refs (vfsOp (.clistFind m) : VfsProg M H n Bool) (fun _ => refs) := by
      refine Triple.perform ?_
      intro s r _ s' hPre hExec
      cases hExec
      exact hPre
    refine VfsBalances.bind hFind ?_
    intro found
    refine Triple.ite ?_ ?_
    · intro _
      exact VfsBalances.bind vfsMutexUnlock_balances (fun _ => VfsBalances.pure)
    · intro _
      exact VfsBalances.pure

theorem vfsMount_balances
    {mountp : Option M} :
    VfsBalances conf refs (vfsMount conf mountp : VfsProg M H n Int) (fun _ => refs) := by
  refine VfsBalances.bind checkMount_balances ?_
  intro ret
  refine Triple.ite (fun _ => VfsBalances.pure) ?_
  intro _
  refine VfsBalances.bind deref_balances ?_
  intro m
  refine VfsBalances.bind deref_balances ?_
  intro fs
  have hPush : VfsBalances conf refs
        (do
          vfsOp (.clistRpush m)
          vfsMutexUnlock .mount
          return 0 : VfsProg M H n Int)
        (fun _ => refs) := by
    have hRpush :
        VfsBalances conf refs (vfsOp (.clistRpush m) : VfsProg M H n Unit) (fun _ => refs) := by
      refine Triple.perform ?_
      intro s r _ s' hPre hExec
      cases hExec
      exact hPre.congr rfl rfl rfl
    refine VfsBalances.bind hRpush ?_
    intro _
    exact VfsBalances.bind vfsMutexUnlock_balances (fun _ => VfsBalances.pure)
  refine Triple.ite ?_ (fun _ => hPush)
  intro _
  refine VfsBalances.bind driver_balances ?_
  intro res
  refine Triple.ite ?_ (fun _ => hPush)
  intro _
  exact VfsBalances.bind vfsMutexUnlock_balances (fun _ => VfsBalances.pure)

----
-- Descriptors
----

/- The descriptor is used and the counters are accounted. -/
def UsedFile
    (refs : M → Int) (fd : Fin n) (s : Vfs M H n) : Prop :=
  s.Accounted refs ∧ (s.files fd).used = true

/- A descriptor that is freed gives its reference back. -/
theorem freeFd_triple
    {fd : Fin n} :
    Triple (VfsOp.exec conf) (UsedFile refs fd) (freeFd fd : VfsProg M H n Unit)
      (fun _ s => s.Accounted refs) := by
  rintro s ⟨hPre, hUsed⟩
  simp only [freeFd, meets_bind, vfsOp, meets_perform]
  intro _ filp s₁ hRead
  cases hRead
  cases hMp : (s.files fd).mp with
  | none =>
    intro _ _ s₂ hFree
    cases hFree
    have hFreed := hPre.freeFile hUsed
    rw [hMp] at hFreed
    have hNone : single (none : Option M) = 0 := rfl
    rw [hNone, add_zero] at hFreed
    exact hFreed
  | some m =>
    intro _ _ s₂ hSub
    cases hSub
    intro _ _ s₃ hFree
    cases hFree
    have hFreed := (hPre.fetchSub (m := m)).freeFile hUsed
    have hRefs : refs - single (some m) + single (s.files fd).mp = refs := by
      rw [hMp, sub_add_cancel]
    dsimp only at hFreed
    rw [hRefs] at hFreed
    exact hFreed

theorem fdIsValid_triple
    {fd : Int} :
    Triple (VfsOp.exec conf) (fun s => s.Accounted refs)
      (fdIsValid fd : VfsProg M H n (Option (Fin n)))
      (fun res s =>
        match res with
        | none => s.Accounted refs
        | some fd => UsedFile refs fd s) := by
  intro s hPre
  unfold fdIsValid
  split
  · rename_i hRange
    simp only [meets_bind, vfsOp, meets_perform]
    intro _ filp s₁ hRead
    cases hRead
    split
    · rename_i hValid
      exact ⟨hPre, (Bool.and_eq_true _ _ ▸ hValid).1⟩
    · exact hPre
  · exact hPre

omit [Fintype H] in
theorem vfsOp_readFile_triple
    {P : Vfs M H n → Prop} {fd : Fin n} :
    Triple (VfsOp.exec conf) P (vfsOp (.readFile fd) : VfsProg M H n (FileEntry M))
      (fun _ => P) := by
  refine Triple.perform ?_
  intro s r _ s' hPre hExec
  cases hExec
  exact hPre

omit [Fintype H] in
theorem driver_triple
    {P : Vfs M H n → Prop} {op : DriverOp} :
    Triple (VfsOp.exec conf) P (driver op : VfsProg M H n Int) (fun _ => P) := by
  refine Triple.perform ?_
  intro s r _ s' hPre hExec
  cases hExec
  exact hPre

omit [Fintype H] in
theorem deref_triple
    {P : Vfs M H n → Prop} {α : Type} {ptr : Option α} :
    Triple (VfsOp.exec conf) P (deref ptr : VfsProg M H n α) (fun a s => ptr = some a ∧ P s) := by
  cases ptr with
  | some a => exact Triple.pure (fun _ h => ⟨rfl, h⟩)
  | none =>
    intro s _ r x _ _
    exact nomatch x

theorem vfsClose_balances
    {fd : Int} :
    VfsBalances conf refs (vfsClose fd : VfsProg M H n Int) (fun _ => refs) := by
  refine Triple.bind fdIsValid_triple ?_
  rintro (_ | fd)
  · exact VfsBalances.pure
  · refine Triple.bind vfsOp_readFile_triple ?_
    intro filp
    refine Triple.bind deref_triple ?_
    intro fOp
    refine Triple.ite ?_ ?_
    · intro _
      refine Triple.bind driver_triple ?_
      intro res
      refine Triple.bind ?_ (fun _ => VfsBalances.pure)
      exact freeFd_triple.mono (fun _ h => h.2) (fun _ _ h => h)
    · intro _
      refine Triple.bind ?_ (fun _ => VfsBalances.pure)
      exact freeFd_triple.mono (fun _ h => h.2) (fun _ _ h => h)

----
-- Handles
----

/- The handle is not open and the counters are accounted. -/
def ClosedDir
    (refs : M → Int) (d : H) (s : Vfs M H n) : Prop :=
  s.Accounted refs ∧ (s.dirs d).isOpen = false

/- A handle that is written is counted as it is now. -/
theorem writeDir_triple
    {d : H} {e : DirEntry M} {mp : Option M} (hOn : e.openOn = mp) :
    Triple (VfsOp.exec conf) (ClosedDir (refs + single mp) d)
      (vfsOp (.writeDir d e) : VfsProg M H n Unit)
      (fun _ s =>
        s.Accounted refs ∧ (s.dirs d).isOpen = e.isOpen) := by
  refine Triple.perform ?_
  rintro s r _ s' ⟨hPre, hClosed⟩ hExec
  cases hExec
  have hWritten := hPre.update_dirs d e
  have hOld : (s.dirs d).openOn = none := by
    rw [DirEntry.openOn, hClosed]
    rfl
  have hNone : single (none : Option M) = 0 := rfl
  rw [hOld, hNone, add_zero, hOn, add_sub_cancel_right] at hWritten
  have hEntry : update s.dirs d e d = e := update_self ..
  exact ⟨hWritten, congrArg _ hEntry⟩

/- The start of a call initializes the handle. -/
theorem initDir_triple
    {d : H} {dOp : Option DirOps} {mp : Option M} :
    Triple (VfsOp.exec conf) (ClosedDir refs d) (vfsOp (.writeDir d
          { mp := mp, dOp := dOp, isOpen := false }) :
        VfsProg M H n Unit)
      (fun _ => ClosedDir refs d) := by
  have hRefs : refs + single (none : Option M) = refs := add_zero refs
  have hWrite : Triple (VfsOp.exec conf)
        (ClosedDir (refs + single none) d)
        (vfsOp (.writeDir d { mp := mp, dOp := dOp, isOpen := false }) :
          VfsProg M H n Unit)
        (fun _ s =>
          s.Accounted refs ∧ (s.dirs d).isOpen = false) :=
    writeDir_triple rfl
  rw [hRefs] at hWrite
  exact hWrite

/- The end of a successful call. -/
theorem openedDir_triple
    {d : H} {dOp : Option DirOps} :
    Triple (VfsOp.exec conf) (ClosedDir (refs + single (some m)) d) (do
        vfsOp (.writeDir d { mp := some m, dOp := dOp, isOpen := true })
        return 0 : VfsProg M H n Int)
      (fun _ s => s.Accounted refs) := by
  refine Triple.bind (writeDir_triple rfl) ?_
  intro _
  exact Triple.pure (fun _ h => h.1)

/-
  A handle that was closed is opened, on a mount with
  directory operations.
-/
theorem vfsOpendir_triple
    {dirp : Option H} {dirname : Option (List Char)} (start : Vfs M H n)
    (hPre : start.Accounted refs)
    (hClosed : ∀ d ∈ dirp, (start.dirs d).isOpen = false)
    (hDirOps : ∀ name ∈ dirname, ∀ m ∈ (searchMounts conf name start.mounts).2,
          ∀ fs ∈ (conf.mount m).fs, fs.dOp.isSome = true) :
    Triple (VfsOp.exec conf) (fun s => s = start) (vfsOpendir conf dirp dirname)
      (fun _ s => s.Accounted refs) := by
  have hQuiet : Triple (VfsOp.exec conf)
        (fun s => s = start)
        (Pure.pure (-einval) : VfsProg M H n Int)
        (fun _ s => s.Accounted refs) :=
    Triple.pure (fun _ h => h ▸ hPre)
  unfold vfsOpendir
  split
  · rename_i d name
    refine Triple.bind (findMount_triple start) ?_
    rintro (err | ⟨m, relPath⟩)
    · refine Triple.pure ?_
      rintro s ⟨hFiles, hDirs, hOpenFiles⟩
      exact hPre.congr hOpenFiles hFiles hDirs
    · have hFound : ∀ s : Vfs M H n, (s.files = start.files ∧ s.dirs = start.dirs ∧
              (searchMounts conf name start.mounts).2 = some m ∧
                s.openFiles = update start.openFiles m (start.openFiles m + 1)) →
              (searchMounts conf name start.mounts).2 = some m ∧
                ClosedDir (refs + single (some m)) d s := by
        rintro s ⟨hFiles, hDirs, hSearch, hOpenFiles⟩
        refine ⟨hSearch, hPre.fetchAdd.congr hOpenFiles hFiles hDirs, ?_⟩
        rw [hDirs]
        exact hClosed d rfl
      refine Triple.mono ?_ hFound (fun _ _ h => h)
      refine Triple.bind deref_triple ?_
      intro fs
      cases hOps : fs.dOp with
      | none =>
        refine Triple.pure ?_
        rintro s ⟨hFs, hSearch, _⟩
        have hSome := hDirOps name rfl m hSearch fs hFs
        rw [hOps] at hSome
        cases hSome
      | some dOp =>
        refine Triple.bind (initDir_triple.mono (fun _ h => h.2.2) (fun _ _ h => h)) ?_
        intro _
        refine Triple.ite ?_ (fun _ => openedDir_triple)
        intro _
        refine Triple.bind driver_triple ?_
        intro res
        refine Triple.ite ?_ (fun _ => openedDir_triple)
        intro _
        refine Triple.bind ?_ (fun _ => VfsBalances.pure)
        exact Triple.mono atomicFetchSub_balances (fun _ h => h.1) (fun _ _ h => h)
  · exact hQuiet

/- A handle that is open or was never opened is closed. -/
theorem vfsClosedir_triple
    {dirp : Option H} (start : Vfs M H n) (hPre : start.Accounted refs)
    (hOpen : ∀ d ∈ dirp, (start.dirs d).isOpen = true ∨ (start.dirs d).mp.isNone = true) :
    Triple (VfsOp.exec conf) (fun s => s = start) (vfsClosedir dirp)
      (fun _ s => s.Accounted refs) := by
  cases dirp with
  | none => exact Triple.pure (fun _ h => h ▸ hPre)
  | some d =>
    have hRead : Triple (VfsOp.exec conf)
          (fun s => s = start)
          (vfsOp (.readDir d) : VfsProg M H n (DirEntry M))
          (fun e s => e = start.dirs d ∧ s = start) := by
      refine Triple.perform ?_
      intro s r _ s' hStart hExec
      cases hExec
      exact ⟨by rw [hStart], hStart⟩
    refine Triple.bind hRead ?_
    intro e
    cases hMp : e.mp with
    | none => exact Triple.pure (fun _ h => h.2 ▸ hPre)
    | some m =>
      have hClear : Triple (VfsOp.exec conf)
            (fun s => e = start.dirs d ∧ s = start)
            (vfsOp (.writeDir d { mp := none, dOp := none, isOpen := false }) :
              VfsProg M H n Unit)
            (fun _ s =>
              s.Accounted (refs + single (some m))) := by
        refine Triple.perform ?_
        rintro s r _ s' ⟨rfl, rfl⟩ hExec
        cases hExec
        have hWritten := hPre.update_dirs d
            { mp := none, dOp := none, isOpen := false }
        have hOn : (s.dirs d).openOn = some m := by
          rcases hOpen d rfl with hTrue | hNone
          · rw [DirEntry.openOn, if_pos hTrue, hMp]
          · rw [hMp] at hNone
            cases hNone
        rw [hOn] at hWritten
        intro x
        have hAt := hWritten x
        rw [Pi.sub_apply] at hAt
        exact hAt.trans (congrArg _ (sub_zero _))
      have hRest : ∀ res, Triple (VfsOp.exec conf)
              (fun s => e = start.dirs d ∧ s = start)
              (do
                vfsOp
                  (.writeDir d { mp := none, dOp := none, isOpen := false })
                atomicFetchSub m
                return res : VfsProg M H n Int)
              (fun _ s => s.Accounted refs) := by
        intro res
        refine Triple.bind hClear ?_
        intro _
        exact VfsBalances.bind atomicFetchSub_balances (fun _ => VfsBalances.pure)
      refine Triple.ite ?_ (fun _ => hRest 0)
      intro _
      exact Triple.bind driver_triple hRest

----
-- Calls
----

/-
  A call of `vfs_opendir` is made on a handle that is not
  open, and the mount that it finds has directory operations.
  A call of `vfs_closedir` is made on a handle that is open, or
  that knows no mount.
-/
def VfsCall.Sound
    (conf : VfsConf M)
    (s : Vfs M H n) : VfsCall M H → Prop
| .opendir dirp dirname =>
  (∀ d ∈ dirp, (s.dirs d).isOpen = false) ∧ ∀ name ∈ dirname,
      ∀ m ∈ (searchMounts conf name s.mounts).2, ∀ fs ∈ (conf.mount m).fs, fs.dOp.isSome = true
| .closedir dirp => ∀ d ∈ dirp, (s.dirs d).isOpen = true ∨ (s.dirs d).mp.isNone = true
| _ => True

instance
    {s : Vfs M H n} {c : VfsCall M H} :
    Decidable (c.Sound conf s) := by
  cases c <;> unfold VfsCall.Sound <;> infer_instance

/- A sound call gives back the references that it takes. -/
theorem VfsCall.triple
    {c : VfsCall M H} (start : Vfs M H n) (hPre : start.Accounted refs)
    (hSound : c.Sound conf start) :
    Triple (VfsOp.exec conf) (fun s => s = start) (c.prog conf) (fun _ s => s.Accounted refs) := by
  have hStart : ∀ s, s = start → s.Accounted refs := fun s h => h ▸ hPre
  cases c with
  | mount mountp => exact vfsMount_balances.mono hStart (fun _ _ h => h)
  | close fd => exact vfsClose_balances.mono hStart (fun _ _ h => h)
  | opendir dirp dirname => exact vfsOpendir_triple start hPre hSound.1 hSound.2
  | closedir dirp => exact vfsClosedir_triple start hPre hSound
  | rename fromPath toPath => exact vfsRename_balances.mono hStart (fun _ _ h => h)
  | unlink name => exact onMount_balances.mono hStart (fun _ _ h => h)
  | mkdir name => exact onMount_balances.mono hStart (fun _ _ h => h)
  | rmdir name => exact onMount_balances.mono hStart (fun _ _ h => h)
  | stat path buf => exact onMount_balances.mono hStart (fun _ _ h => h)
  | statvfs path buf => exact onMount_balances.mono hStart (fun _ _ h => h)

end Riot
