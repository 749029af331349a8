import Riot.Storage.VfsReferences

/-
  What threads hold while they open files and unmount file
  systems at the same time.

  A thread holds a reference, a descriptor with its reference,
  or a descriptor whose reference it has given back; or it has
  seen the counter of a mount at zero and not yet removed the
  mount.  Each operation demands what the thread must hold.
-/

----
-- Holdings
----

namespace Riot

open Function
open Vfs
open Prog

variable {M H T : Type} [DecidableEq M] {n : Nat}

inductive VfsHolding (M : Type) (n : Nat) where
  | nothing
  | ref (m : M)
  | file (fd : Fin n) (m : M)
  | owed (fd : Fin n) (m : M)
  | tested (m : M)

namespace VfsHolding

/- The references beyond those of open files and handles. -/
def refs : VfsHolding M n → M → Int
| .ref m => single (some m)
| .owed _ m => - single (some m)
| _ => 0

/- The descriptor, and the mount it was opened on. -/
def entry : VfsHolding M n → Option (Fin n × M)
| .file fd m => some (fd, m)
| .owed fd m => some (fd, m)
| _ => none

/- The mount whose counter was seen at zero. -/
def testedMount : VfsHolding M n → Option M
| .tested m => some m
| _ => none

/- What a thread may hold when its call returns. -/
def Settled : VfsHolding M n → Prop
| .ref _ => False
| .owed _ _ => False
| _ => True

end VfsHolding

----
-- Demands
----

/-
  What the thread must hold to perform an operation, and what
  it holds then.  Calls that run alone are not covered.
-/
def vfsDemand :
    (o : VfsOp M H n) → (o.Ans → VfsHolding M n → Prop) → VfsHolding M n → Prop
| .fetchAdd m, post, h => h = .nothing ∧ post () (.ref m)
| .fetchSub m, post, h =>
  (h = .ref m ∧ post () .nothing) ∨ ∃ fd, h = .file fd m ∧ post () (.owed fd m)
| .initFd _ _ mp, post, h =>
  ∃ m, mp = some m ∧ h = .ref m ∧ (∀ err, post (.error err) h) ∧ ∀ fd, post (.ok fd) (.file fd m)
| .readFile fd, post, h => ∃ m, h = .file fd m ∧ ∀ f, f.mp = some m → post f h
| .freeFile fd, post, h => ∃ m, h = .owed fd m ∧ post () .nothing
| .load m, post, h => h = .nothing ∧ ∀ x, post x (if x ≤ 0 then .tested m else .nothing)
| .clistRemove m, post, h => h = .tested m ∧ ∀ x, post x .nothing
| .mutexLock _, post, h => post () h
| .mutexUnlock _, post, h => post () h
| .search _, post, h => ∀ x, post x h
| .clistFind _, post, h => ∀ x, post x h
| .driver _, post, h => ∀ x, post x h
| .crash, _, _ => True
| .clistRpush _, _, _ => False
| .readDir _, _, _ => False
| .writeDir _ _, _, _ => False

variable {conf : VfsConf M} {hold : VfsHolding M n}

/- The call ends with nothing left to give back. -/
abbrev VfsSettles
    (p : VfsProg M H n Int) (hold : VfsHolding M n) : Prop :=
  p.Meets vfsDemand (fun _ h => h.Settled) hold

omit [DecidableEq M] in
theorem deref_meets
    {α : Type} {ptr : Option α} {post : α → VfsHolding M n → Prop}
    (hPost : ∀ a, post a hold) :
    (deref ptr : VfsProg M H n α).Meets vfsDemand post hold := by
  cases ptr with
  | some a => exact hPost a
  | none => exact trivial

omit [DecidableEq M] in
theorem driver_meets
    {op : DriverOp} {post : Int → VfsHolding M n → Prop}
    (hPost : ∀ res, post res hold) :
    (driver op : VfsProg M H n Int).Meets vfsDemand post hold :=
  hPost

omit [DecidableEq M] in
/- A search takes a reference if it finds a mount. -/
theorem findMount_meets
    {name : List Char} {post : Except Int (M × List Char) → VfsHolding M n → Prop}
    (hError : ∀ err, post (.error err) .nothing)
    (hOk : ∀ found, post (.ok found) (.ref found.1)) :
    (findMount name : VfsProg M H n _).Meets vfsDemand post .nothing := by
  unfold findMount
  rw [meets_bind]
  rintro ⟨longestMatch, mountp⟩
  cases mountp with
  | none => exact hError _
  | some m => exact ⟨rfl, hOk _⟩

omit [DecidableEq M] in
theorem freeFd_meets
    {fd : Fin n} {m : M} {post : Unit → VfsHolding M n → Prop}
    (hPost : post () .nothing) :
    (freeFd fd : VfsProg M H n Unit).Meets vfsDemand post (.file fd m) := by
  unfold freeFd
  rw [meets_bind]
  refine ⟨m, rfl, ?_⟩
  intro filp hMp
  dsimp only [Prog.Meets]
  rw [hMp]
  exact .inr ⟨fd, rfl, m, rfl, hPost⟩

omit [DecidableEq M] in
theorem vfsOpen_meets
    (name : Option (List Char)) :
    VfsSettles (vfsOpen conf name : VfsProg M H n Int) .nothing := by
  cases name with
  | none => exact trivial
  | some name =>
    unfold vfsOpen VfsSettles
    dsimp only
    rw [meets_bind]
    refine findMount_meets (fun _ => trivial) ?_
    rintro ⟨mountp, relPath⟩
    dsimp only
    rw [meets_bind]
    refine deref_meets ?_
    intro fs
    refine ⟨mountp, rfl, rfl, ?_, ?_⟩
    · intro err
      exact .inl ⟨rfl, trivial⟩
    · intro fd
      refine ⟨mountp, rfl, ?_⟩
      intro filp hMp
      dsimp only [Prog.bind]
      rw [meets_bind]
      refine deref_meets ?_
      intro fOp
      split
      · rw [meets_bind]
        refine driver_meets ?_
        intro res
        split
        · rw [meets_bind]
          exact freeFd_meets trivial
        · exact trivial
      · exact trivial

omit [DecidableEq M] in
theorem checkMount_meets
    {mountp : Option M} {post : Int → VfsHolding M n → Prop}
    (hPost : ∀ ret, post ret .nothing) :
    (checkMount conf mountp : VfsProg M H n Int).Meets vfsDemand post .nothing := by
  cases mountp with
  | none => exact hPost _
  | some m =>
    unfold checkMount
    dsimp only
    split
    · exact hPost _
    · split
      · exact hPost _
      · intro found
        dsimp only [Prog.bind]
        split
        · exact hPost _
        · exact hPost _

omit [DecidableEq M] in
/- The end of a call that has seen the counter at zero. -/
theorem removeMount_meets
    {m : M} :
    VfsSettles (do
        let removed ← vfsOp (.clistRemove m)
        vfsMutexUnlock .mount
        if removed then return 0
        else return -einval : VfsProg M H n Int)
      (.tested m) := by
  refine ⟨rfl, ?_⟩
  intro removed
  cases removed with
  | true => exact trivial
  | false => exact trivial

omit [DecidableEq M] in
theorem vfsUmount_meets
    (mountp : Option M) :
    VfsSettles (vfsUmount conf mountp : VfsProg M H n Int) .nothing := by
  unfold vfsUmount VfsSettles
  rw [meets_bind]
  refine checkMount_meets ?_
  intro ret
  dsimp only
  split
  · exact trivial
  split
  · exact trivial
  rw [meets_bind]
  refine deref_meets ?_
  intro m
  refine ⟨rfl, ?_⟩
  intro openFiles
  dsimp only [Prog.bind]
  split
  · rename_i hBusy
    rw [if_neg (not_le.mpr hBusy)]
    exact trivial
  · rename_i hFree
    rw [if_pos (not_lt.mp hFree), meets_bind]
    refine deref_meets ?_
    intro fs
    split
    · rw [meets_bind]
      refine driver_meets ?_
      intro res
      split
      · exact trivial
      · exact removeMount_meets
    · exact removeMount_meets

----
-- The State
----

variable [Fintype H] [Fintype T] {s s' : Vfs M H n} {holds : T → VfsHolding M n}
variable {t : T} {h' : VfsHolding M n}

/-
  The counters are those of the open files and handles and of
  the references that threads hold; a descriptor that a thread
  holds is used and nobody else's; and a counter that was seen
  at zero has not become positive.
-/
structure VfsOwned
    (s : Vfs M H n)
    (holds : T → VfsHolding M n) : Prop where
  accounted : s.Accounted (fun x => ∑ u, (holds u).refs x)
  used : ∀ u e, (holds u).entry = some e → (s.files e.1).used = true ∧ (s.files e.1).mp = some e.2
  distinct : ∀ u v e e', (holds u).entry = some e → (holds v).entry = some e' → e.1 = e'.1 → u = v
  tested : ∀ u m, (holds u).testedMount = some m → s.openFiles m ≤ 0

namespace VfsOwned

/- Only the counters, descriptors and handles matter. -/
theorem congr
    (h : VfsOwned s holds) (hOpenFiles : s'.openFiles = s.openFiles)
    (hFiles : s'.files = s.files) (hDirs : s'.dirs = s.dirs) :
    VfsOwned s' holds := by
  refine ⟨h.accounted.congr hOpenFiles hFiles hDirs, ?_, h.distinct, ?_⟩
  · rw [hFiles]
    exact h.used
  · rw [hOpenFiles]
    exact h.tested

end VfsOwned

variable [DecidableEq T]

/- The references of all threads once one holds another. -/
theorem sum_refs_update
    (holds : T → VfsHolding M n) (t : T) (h' : VfsHolding M n) :
    (fun x => ∑ u, (update holds t h' u).refs x) =
      (fun x => ∑ u, (holds u).refs x) - (holds t).refs + h'.refs := by
  funext x
  exact sum_update (fun h => h.refs x) holds t h'

namespace VfsOwned

section

variable (h : VfsOwned s holds)

include h

/-
  A thread holds something else, but no other descriptor, and
  only counters have changed.
-/
theorem move
    (hAccounted : s'.Accounted ((fun x => ∑ u, (holds u).refs x) - (holds t).refs + h'.refs))
    (hFiles : s'.files = s.files)
    (hEntry : ∀ e, h'.entry = some e → (holds t).entry = some e)
    (hTested : ∀ m, h'.testedMount = some m → s'.openFiles m ≤ 0)
    (hOthers : ∀ u m, u ≠ t → (holds u).testedMount = some m → s'.openFiles m ≤ 0) :
    VfsOwned s' (update holds t h') := by
  have hAll : ∀ u e, (update holds t h' u).entry = some e → (holds u).entry = some e := by
    intro u e hHeld
    by_cases hSame : u = t
    · subst hSame
      rw [update_self] at hHeld
      exact hEntry e hHeld
    · rw [update_of_ne hSame] at hHeld
      exact hHeld
  refine ⟨?_, ?_, ?_, ?_⟩
  · rw [sum_refs_update]
    exact hAccounted
  · intro u e hHeld
    rw [hFiles]
    exact h.used u e (hAll u e hHeld)
  · intro u v e e' hu hv
    exact h.distinct u v e e' (hAll u e hu) (hAll v e' hv)
  · intro u m hHeld
    by_cases hSame : u = t
    · subst hSame
      rw [update_self] at hHeld
      exact hTested m hHeld
    · rw [update_of_ne hSame] at hHeld
      exact hOthers u m hSame hHeld

theorem fetchAdd
    {m : M} (hHolds : holds t = .nothing)
    (hOk : ∀ u, (holds u).testedMount ≠ some m) :
    VfsOwned { s with openFiles := update s.openFiles m (s.openFiles m + 1) }
      (update holds t (.ref m)) := by
  refine h.move ?_ rfl ?_ ?_ ?_
  · have hAdded := h.accounted.fetchAdd (m := m)
    have hRefs : (holds t).refs = 0 := by
      rw [hHolds]
      rfl
    rw [hRefs, sub_zero]
    exact hAdded
  · intro e hEntry
    cases hEntry
  · intro m' hTested
    cases hTested
  · intro u m' _ hTested
    have hNe : m' ≠ m := by
      rintro rfl
      exact hOk u hTested
    dsimp only
    rw [update_of_ne hNe]
    exact h.tested u m' hTested

/- A counter that is lowered stays at zero or below. -/
theorem fetchSub
    {m : M} (hRefs : h'.refs = (holds t).refs - single (some m))
    (hEntry : ∀ e, h'.entry = some e → (holds t).entry = some e)
    (hTested : h'.testedMount = none) :
    VfsOwned { s with openFiles := update s.openFiles m (s.openFiles m - 1) }
      (update holds t h') := by
  refine h.move ?_ rfl hEntry ?_ ?_
  · have hSubbed := h.accounted.fetchSub (m := m)
    rw [hRefs, sub_add_sub_cancel]
    exact hSubbed
  · intro m' hSome
    rw [hTested] at hSome
    cases hSome
  · intro u m' _ hSome
    have hLe := h.tested u m' hSome
    dsimp only
    by_cases hSame : m' = m
    · subst hSame
      rw [update_self]
      omega
    · rw [update_of_ne hSame]
      exact hLe

/- What other threads have seen stays true. -/
theorem tested_update
    (hNone : h'.testedMount = none) :
    ∀ u m, (update holds t h' u).testedMount = some m → s.openFiles m ≤ 0 := by
  intro u m hTested
  by_cases hSame : u = t
  · subst hSame
    rw [update_self, hNone] at hTested
    cases hTested
  · rw [update_of_ne hSame] at hTested
    exact h.tested u m hTested

theorem initFd
    {m : M} {fd : Fin n} {fOp : Option FileOps} (hHolds : holds t = .ref m)
    (hFree : (s.files fd).used = false) :
    VfsOwned { s with
        files := update s.files fd { used := true, mp := some m, fOp := fOp } }
      (update holds t (.file fd m)) := by
  have hOther : ∀ u e, (holds u).entry = some e → e.1 ≠ fd := by
    rintro u e hEntry rfl
    have hUsed := (h.used u e hEntry).1
    rw [hFree] at hUsed
    cases hUsed
  refine ⟨?_, ?_, ?_, ?_⟩
  · rw [sum_refs_update, hHolds]
    have hAdded := h.accounted.update_files fd
        { used := true, mp := some m, fOp := fOp }
    have hOld : (s.files fd).openOn = none := by
      rw [FileEntry.openOn, hFree]
      rfl
    have hNone : single (none : Option M) = 0 := rfl
    rw [hOld, hNone, add_zero] at hAdded
    intro x
    have hAt := hAdded x
    exact hAt.trans (congrArg _ (add_zero _).symm)
  · intro u e hEntry
    by_cases hSame : u = t
    · subst hSame
      rw [update_self] at hEntry
      cases hEntry
      dsimp only
      rw [update_self]
      exact ⟨rfl, rfl⟩
    · rw [update_of_ne hSame] at hEntry
      dsimp only
      rw [update_of_ne (hOther u e hEntry)]
      exact h.used u e hEntry
  · intro u v e e' hu hv hFd
    by_cases hSameU : u = t
    · by_cases hSameV : v = t
      · rw [hSameU, hSameV]
      · subst hSameU
        rw [update_self] at hu
        rw [update_of_ne hSameV] at hv
        cases hu
        exact absurd hFd.symm (hOther v e' hv)
    · rw [update_of_ne hSameU] at hu
      by_cases hSameV : v = t
      · subst hSameV
        rw [update_self] at hv
        cases hv
        exact absurd hFd (hOther u e hu)
      · rw [update_of_ne hSameV] at hv
        exact h.distinct u v e e' hu hv hFd
  · exact h.tested_update rfl

theorem freeFile
    {m : M} {fd : Fin n} (hHolds : holds t = .owed fd m) :
    VfsOwned { s with files := update s.files fd { s.files fd with used := false } }
      (update holds t .nothing) := by
  have hHeld : (holds t).entry = some (fd, m) := by
    rw [hHolds]
    rfl
  have hUsed := h.used t (fd, m) hHeld
  have hKept :
      ∀ u e, (update holds t .nothing u).entry = some e → u ≠ t ∧ (holds u).entry = some e := by
    intro u e hEntry
    by_cases hSame : u = t
    · subst hSame
      rw [update_self] at hEntry
      cases hEntry
    · rw [update_of_ne hSame] at hEntry
      exact ⟨hSame, hEntry⟩
  refine ⟨?_, ?_, ?_, ?_⟩
  · rw [sum_refs_update, hHolds]
    have hFreed := h.accounted.freeFile hUsed.1
    rw [hUsed.2] at hFreed
    intro x
    have hAt := hFreed x
    rw [Pi.add_apply] at hAt
    rw [Pi.add_apply, Pi.sub_apply]
    dsimp only [VfsHolding.refs]
    rw [Pi.neg_apply, sub_neg_eq_add]
    exact hAt.trans (congrArg _ (add_zero _).symm)
  · intro u e hEntry
    rcases hKept u e hEntry with ⟨hNe, hOld⟩
    have hFd : e.1 ≠ fd := by
      intro hFd
      exact hNe (h.distinct u t e (fd, m) hOld hHeld hFd)
    dsimp only
    rw [update_of_ne hFd]
    exact h.used u e hOld
  · intro u v e e' hu hv
    exact h.distinct u v e e' (hKept u e hu).2 (hKept v e' hv).2
  · exact h.tested_update rfl

/- A thread learns or forgets that a counter was at zero. -/
theorem note
    (hOld : (holds t).refs = 0) (hRefs : h'.refs = 0) (hEntry : h'.entry = none)
    (hTested : ∀ m, h'.testedMount = some m → s.openFiles m ≤ 0) :
    VfsOwned s (update holds t h') := by
  refine h.move ?_ rfl ?_ hTested ?_
  · rw [hOld, hRefs, sub_zero, add_zero]
    exact h.accounted
  · intro e hSome
    rw [hEntry] at hSome
    cases hSome
  · intro u m _ hSome
    exact h.tested u m hSome

end

end VfsOwned

----
-- Steps
----

omit [DecidableEq M] in
/- An allocated descriptor was free. -/
theorem allocateFd_free
    {files : Fin n → FileEntry M} {fd : Int} {i : Fin n}
    (hAlloc : allocateFd files fd = .ok i) :
    (files i).used = false := by
  unfold allocateFd at hAlloc
  split at hAlloc
  · split at hAlloc
    · rename_i j hFind
      cases hAlloc
      have hTest := List.find?_some hFind
      rw [Bool.and_eq_true, Bool.not_eq_true'] at hTest
      exact hTest.2
    · cases hAlloc
  · split at hAlloc
    · split at hAlloc
      · cases hAlloc
      · rename_i hFree
        cases hAlloc
        exact eq_false_of_ne_true hFree
    · cases hAlloc

/- What a thread has seen of a counter after an operation. -/
def VfsOp.note :
    (o : VfsOp M H n) → o.Ans → Option M → Option M
| .load m, x, _ => if x ≤ 0 then some m else none
| .clistRemove _, _, _ => none
| _, _, old => old

omit [DecidableEq T] in
/- A thread removes a mount only when its counter is at zero. -/
theorem VfsOwned.remove_le
    {m : M} {post : Bool → VfsHolding M n → Prop} (h : VfsOwned s holds)
    (hDemand : vfsDemand (.clistRemove m : VfsOp M H n) post (holds t)) :
    s.openFiles m ≤ 0 := by
  refine h.tested t m ?_
  rw [hDemand.1]
  rfl

variable [DecidableEq H]

/-
  An operation that is demanded rightly keeps the state owned,
  unless it takes a reference to a mount whose counter some
  thread has seen at zero.
-/
theorem VfsOwned.step
    {o : VfsOp M H n} {r : Int} {x : o.Ans} {post : o.Ans → VfsHolding M n → Prop}
    (h : VfsOwned s holds) (hDemand : vfsDemand o post (holds t))
    (hExec : o.exec conf r s = some (x, s'))
    (hOk : ∀ m, o = .fetchAdd m → ∀ u, (holds u).testedMount ≠ some m) :
    ∃ h', post x h' ∧ VfsOwned s' (update holds t h') ∧
        h'.testedMount = o.note x (holds t).testedMount := by
  have hKeep : s'.openFiles = s.openFiles → s'.files = s.files → s'.dirs = s.dirs →
        VfsOwned s' (update holds t (holds t)) := by
    intro hOpenFiles hFiles hDirs
    rw [update_eq_self]
    exact h.congr hOpenFiles hFiles hDirs
  cases o with
  | mutexLock y =>
    simp only [VfsOp.exec, Option.ite_none_left_eq_some, Option.some.injEq, Prod.mk.injEq] at hExec
    rcases hExec with ⟨_, _, rfl⟩
    exact ⟨holds t, hDemand, hKeep rfl rfl rfl, rfl⟩
  | mutexUnlock y =>
    cases hExec
    exact ⟨holds t, hDemand, hKeep rfl rfl rfl, rfl⟩
  | search name =>
    cases hExec
    exact ⟨holds t, hDemand _, hKeep rfl rfl rfl, rfl⟩
  | clistFind m =>
    cases hExec
    exact ⟨holds t, hDemand _, hKeep rfl rfl rfl, rfl⟩
  | driver op =>
    cases hExec
    exact ⟨holds t, hDemand _, hKeep rfl rfl rfl, rfl⟩
  | clistRpush m => exact hDemand.elim
  | readDir d => exact hDemand.elim
  | writeDir d e => exact hDemand.elim
  | crash => cases x
  | clistRemove m =>
    cases hExec
    rcases hDemand with ⟨hHolds, hPost⟩
    refine ⟨.nothing, hPost _, ?_, rfl⟩
    refine (h.note ?_ rfl rfl ?_).congr rfl rfl rfl
    · rw [hHolds]
      rfl
    · intro m' hTested
      cases hTested
  | fetchAdd m =>
    cases hExec
    rcases hDemand with ⟨hHolds, hPost⟩
    refine ⟨.ref m, hPost, h.fetchAdd hHolds (hOk m rfl), ?_⟩
    rw [hHolds]
    rfl
  | fetchSub m =>
    cases hExec
    rcases hDemand with ⟨hHolds, hPost⟩ | ⟨fd, hHolds, hPost⟩
    · refine ⟨.nothing, hPost, h.fetchSub ?_ ?_ rfl, ?_⟩
      · rw [hHolds]
        exact (sub_self _).symm
      · intro e hEntry
        cases hEntry
      · rw [hHolds]
        rfl
    · refine ⟨.owed fd m, hPost, h.fetchSub ?_ ?_ rfl, ?_⟩
      · rw [hHolds]
        exact (zero_sub _).symm
      · intro e hEntry
        rw [hHolds]
        exact hEntry
      · rw [hHolds]
        rfl
  | load m =>
    cases hExec
    rcases hDemand with ⟨hHolds, hPost⟩
    have hRefs : (holds t).refs = 0 := by
      rw [hHolds]
      rfl
    refine ⟨_, hPost _, ?_, ?_⟩
    · by_cases hZero : s.openFiles m ≤ 0
      · rw [if_pos hZero]
        refine h.note hRefs rfl rfl ?_
        intro m' hTested
        cases hTested
        exact hZero
      · rw [if_neg hZero]
        refine h.note hRefs rfl rfl ?_
        intro m' hTested
        cases hTested
    · exact apply_ite VfsHolding.testedMount _ _ _
  | initFd fd fOp mp =>
    rcases hDemand with ⟨m, rfl, hHolds, hError, hPost⟩
    simp only [VfsOp.exec] at hExec
    cases hAlloc : allocateFd s.files fd with
    | error err =>
      rw [hAlloc] at hExec
      cases hExec
      exact ⟨holds t, hError err, hKeep rfl rfl rfl, rfl⟩
    | ok i =>
      rw [hAlloc] at hExec
      cases hExec
      refine ⟨.file i m, hPost i, h.initFd hHolds (allocateFd_free hAlloc), ?_⟩
      rw [hHolds]
      rfl
  | readFile fd =>
    cases hExec
    rcases hDemand with ⟨m, hHolds, hPost⟩
    have hUsed := h.used t (fd, m) (by rw [hHolds]; rfl)
    exact ⟨holds t, hPost _ hUsed.2, hKeep rfl rfl rfl, rfl⟩
  | freeFile fd =>
    cases hExec
    rcases hDemand with ⟨m, hHolds, hPost⟩
    refine ⟨.nothing, hPost, h.freeFile hHolds, ?_⟩
    rw [hHolds]
    rfl

end Riot
