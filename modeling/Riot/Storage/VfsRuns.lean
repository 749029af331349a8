import Riot.Lib.System
import Riot.Storage.VfsOwnership

/-
  The counter of a mount, over all runs.

  Threads open files and unmount file systems at the same
  time, one operation after another; all other calls are made
  while no call is in progress.
-/

----
-- Runs
----

namespace Riot

open Function
open Prog

variable {M H T : Type} [DecidableEq M] [DecidableEq H] [Fintype H]
variable [DecidableEq T] [Fintype T] {n : Nat} (conf : VfsConf M)

/-
  The state, the calls in progress, the mount whose counter a
  call has seen at zero and may still remove, and the mounts
  that were removed with their counters at that time.
-/
structure VfsRun (M H T : Type) (n : Nat) where
  vfs : Vfs M H n
  progs : T → Option (VfsProg M H n Int)
  tested : T → Option M
  removed : List (M × Int)

inductive VfsEvent (M H T : Type) where
  | call (c : VfsCall M H) (answers : List Int)
  | start (t : T) (c : VfsSharedCall M)
  | step (t : T) (answer : Int)

/- No call is in progress. -/
def VfsRun.Quiet
    (r : VfsRun M H T n) : Prop :=
  ∀ t, (r.progs t).isNone = true

instance
    (r : VfsRun M H T n) :
    Decidable r.Quiet :=
  inferInstanceAs (Decidable (∀ _, _))

/- The record of removals after an operation. -/
def VfsOp.record
    (openFiles : M → Int) :
    (o : VfsOp M H n) → o.Ans → List (M × Int) → List (M × Int)
| .clistRemove m, true, removed => (m, openFiles m) :: removed
| _, _, removed => removed

/-
  A call in progress goes on with one operation, or returns.
-/
def VfsRun.step
    (r : VfsRun M H T n) (t : T) (answer : Int) :
    VfsProg M H n Int → Option (VfsRun M H T n)
| .done _ =>
  some
    { r with progs := update r.progs t none, tested := update r.tested t none }
| .call o rest => do
    let (x, vfs) ← o.exec conf answer r.vfs
    some
      { vfs := vfs,
        progs := update r.progs t (some (rest x)),
        tested := update r.tested t (o.note x (r.tested t)),
        removed := o.record r.vfs.openFiles x r.removed }

/- At the start, nothing is mounted and nothing is open. -/
structure VfsRun.Start
    (r : VfsRun M H T n) : Prop where
  mounts : r.vfs.mounts = []
  openFiles : ∀ m, r.vfs.openFiles m = 0
  locked : ∀ x, r.vfs.locked x = false
  files : ∀ fd, (r.vfs.files fd).openOn = none
  dirs : ∀ h, (r.vfs.dirs h).isOpen = false
  progs : ∀ t, r.progs t = none
  tested : ∀ t, r.tested t = none
  removed : r.removed = []

def vfsSystem :
    System (VfsRun M H T n) (VfsEvent M H T) where
  Start := VfsRun.Start
  Enabled r
    | .call _ _ => r.Quiet
    | .start t _ => (r.progs t).isNone = true
    | .step t _ => (r.progs t).isSome = true
  exec r
    | .call c answers => do
        let (_, vfs) ← (c.prog conf).run (VfsOp.exec conf) answers r.vfs
        some { r with vfs := vfs }
    | .start t c => some { r with progs := update r.progs t (some (c.prog conf)) }
    | .step t answer => do
        let p ← r.progs t
        r.step conf t answer p

----
-- The Property
----

/-
  After each call, the counter of a mount is the number of
  descriptors and handles that are open on it; and no mount
  was removed while its counter was positive.
-/
structure VfsCounted
    (r : VfsRun M H T n) : Prop where
  counted : r.Quiet → ∀ m, r.vfs.openFiles m = r.vfs.opened m
  removed : ∀ x ∈ r.removed, x.2 ≤ 0

/- The mount that an operation takes a reference to. -/
def VfsOp.takes : VfsOp M H n → Option M
| .fetchAdd m => some m
| _ => none

/-
  A call on its own is sound, and no reference to a mount is
  taken between the test of its counter and its removal.
-/
def VfsEvent.Sound
    (r : VfsRun M H T n) : VfsEvent M H T → Prop
| .call c _ => c.Sound conf r.vfs
| .start _ _ => True
| .step t _ => ∀ m ∈ ((r.progs t).bind Prog.next).bind VfsOp.takes, ∀ u, r.tested u ≠ some m

instance decidableEnabledVfs
    (r : VfsRun M H T n) (e : VfsEvent M H T) :
    Decidable ((vfsSystem conf).Enabled r e) := by
  cases e <;> unfold vfsSystem <;> infer_instance

instance decidableSoundVfs
    (r : VfsRun M H T n) (e : VfsEvent M H T) :
    Decidable (e.Sound conf r) := by
  cases e <;> unfold VfsEvent.Sound <;> infer_instance

----
-- The Invariant
----

/- What a call in progress holds is settled when it returns. -/
def VfsCallHolds :
    Option (VfsProg M H n Int) → VfsHolding M n → Prop
| none, h => h = .nothing
| some p, h => VfsSettles p h

def VfsInv
    (r : VfsRun M H T n) : Prop :=
  ∃ holds : T → VfsHolding M n, VfsOwned r.vfs holds ∧
      (∀ t, r.tested t = (holds t).testedMount) ∧ (∀ t, VfsCallHolds (r.progs t) (holds t)) ∧
      ∀ x ∈ r.removed, x.2 ≤ 0

variable {conf} {r r' : VfsRun M H T n} {t : T}

omit [DecidableEq H] [DecidableEq T] in
/- Between calls, only open files and handles are counted. -/
theorem vfsOwned_nothing
    {s : Vfs M H n} :
    VfsOwned s (fun _ : T => .nothing) ↔ s.Accounted 0 := by
  have hZero : (fun x => ∑ _u : T, (VfsHolding.nothing : VfsHolding M n).refs x) = 0 := by
    funext x
    exact Finset.sum_eq_zero (fun _ _ => rfl)
  constructor
  · intro h
    have hAccounted := h.accounted
    rw [hZero] at hAccounted
    exact hAccounted
  · intro h
    refine ⟨?_, ?_, ?_, ?_⟩
    · rw [hZero]
      exact h
    · intro u e hEntry
      cases hEntry
    · intro u v e e' hEntry
      cases hEntry
    · intro u m hTested
      cases hTested

namespace VfsInv

variable {holds : T → VfsHolding M n}

omit [DecidableEq M] [DecidableEq H] [Fintype H] [DecidableEq T]
  [Fintype T] in
/- Between calls, nobody holds anything. -/
theorem holds_nothing
    (hQuiet : r.Quiet) (hHolds : ∀ t, VfsCallHolds (r.progs t) (holds t)) :
    holds = fun _ => .nothing := by
  funext t
  have hAt := hHolds t
  rw [Option.isNone_iff_eq_none.mp (hQuiet t)] at hAt
  exact hAt

omit [DecidableEq H] [DecidableEq T] in
theorem quiet_accounted
    (h : VfsInv r) (hQuiet : r.Quiet) :
    r.vfs.Accounted 0 := by
  rcases h with ⟨holds, hOwned, _, hHolds, _⟩
  have hNothing := holds_nothing hQuiet hHolds
  rw [hNothing] at hOwned
  exact vfsOwned_nothing.mp hOwned

omit [DecidableEq H] [DecidableEq T] in
theorem counted
    (h : VfsInv r) :
    VfsCounted r := by
  refine ⟨?_, ?_⟩
  · intro hQuiet m
    exact (h.quiet_accounted hQuiet m).trans (add_zero _)
  · rcases h with ⟨_, _, _, _, hRemoved⟩
    exact hRemoved

omit [DecidableEq H] [DecidableEq T] in
theorem start
    (hStart : r.Start) :
    VfsInv r := by
  refine ⟨fun _ => .nothing, ?_, ?_, ?_, ?_⟩
  · rw [vfsOwned_nothing]
    intro m
    have hDirs : ∀ d, (r.vfs.dirs d).openOn = none := by
      intro d
      rw [DirEntry.openOn, hStart.dirs]
      rfl
    rw [hStart.openFiles, Vfs.opened, tally_eq_zero hStart.files, tally_eq_zero hDirs]
    rfl
  · exact hStart.tested
  · intro t
    rw [hStart.progs]
    exact rfl
  · intro x hMem
    rw [hStart.removed] at hMem
    cases hMem

omit [DecidableEq T] in
/- A sound call between others leaves the counters right. -/
theorem called
    {c : VfsCall M H} {answers : List Int} {res : Int} {vfs : Vfs M H n}
    (h : VfsInv r) (hQuiet : r.Quiet) (hSound : c.Sound conf r.vfs)
    (hRun : (c.prog conf).run (VfsOp.exec conf) answers r.vfs = some (res, vfs)) :
    VfsInv { r with vfs := vfs } := by
  have hBefore := h.quiet_accounted hQuiet
  have hAfter : vfs.Accounted 0 := (VfsCall.triple r.vfs hBefore hSound).run rfl hRun
  rcases h with ⟨holds, _, hTested, hHolds, hRemoved⟩
  have hNothing := holds_nothing hQuiet hHolds
  subst hNothing
  exact ⟨_, vfsOwned_nothing.mpr hAfter, hTested, hHolds, hRemoved⟩

omit [DecidableEq H] in
/- The calls that threads make at the same time settle. -/
theorem started
    {c : VfsSharedCall M} (h : VfsInv r) (hIdle : (r.progs t).isNone = true) :
    VfsInv { r with
        progs := update r.progs t (some (c.prog conf)) } := by
  rcases h with ⟨holds, hOwned, hTested, hHolds, hRemoved⟩
  refine ⟨holds, hOwned, hTested, ?_, hRemoved⟩
  intro u
  by_cases hSame : u = t
  · subst hSame
    have hNothing := hHolds u
    rw [Option.isNone_iff_eq_none.mp hIdle] at hNothing
    dsimp only
    rw [update_self, hNothing]
    cases c with
    | «open» name => exact vfsOpen_meets name
    | umount mountp => exact vfsUmount_meets mountp
  · dsimp only
    rw [update_of_ne hSame]
    exact hHolds u

omit [DecidableEq M] [DecidableEq H] [Fintype H] [Fintype T] in
/- What holds of a thread and of all others holds of all. -/
theorem holds_update
    {h' : VfsHolding M n} {p : Option (VfsProg M H n Int)}
    (hHolds : ∀ u, VfsCallHolds (r.progs u) (holds u)) (hAt : VfsCallHolds p h') :
    ∀ u, VfsCallHolds (update r.progs t p u) (update holds t h' u) := by
  intro u
  by_cases hSame : u = t
  · subst hSame
    rw [update_self, update_self]
    exact hAt
  · rw [update_of_ne hSame, update_of_ne hSame]
    exact hHolds u

omit [DecidableEq M] [DecidableEq H] [Fintype H] [Fintype T] in
theorem tested_update
    {h' : VfsHolding M n} {m : Option M}
    (hTested : ∀ u, r.tested u = (holds u).testedMount) (hAt : m = h'.testedMount) :
    ∀ u, update r.tested t m u = (update holds t h' u).testedMount := by
  intro u
  by_cases hSame : u = t
  · subst hSame
    rw [update_self, update_self]
    exact hAt
  · rw [update_of_ne hSame, update_of_ne hSame]
    exact hTested u

/- A settled holding counts for nothing. -/
theorem refs_settled
    {h : VfsHolding M n} (hSettled : h.Settled) :
    h.refs = 0 := by
  cases h with
  | ref m => exact hSettled.elim
  | owed fd m => exact hSettled.elim
  | nothing => rfl
  | file fd m => rfl
  | tested m => rfl

omit [DecidableEq H] [DecidableEq T] in
/- Mounts are removed with their counters at zero. -/
theorem record_le
    {s : Vfs M H n} {o : VfsOp M H n} {x : o.Ans} {post : o.Ans → VfsHolding M n → Prop}
    {removed : List (M × Int)} (hOwned : VfsOwned s holds)
    (hDemand : vfsDemand o post (holds t)) (hRemoved : ∀ y ∈ removed, y.2 ≤ 0) :
    ∀ y ∈ o.record s.openFiles x removed, y.2 ≤ 0 := by
  cases o with
  | clistRemove m =>
    cases x with
    | true => exact List.forall_mem_cons.mpr ⟨hOwned.remove_le hDemand, hRemoved⟩
    | false => exact hRemoved
  | _ => exact hRemoved

/- A thread returns, or performs an operation. -/
theorem stepped
    {answer : Int} {p : VfsProg M H n Int} (h : VfsInv r)
    (hProg : r.progs t = some p)
    (hSound : ∀ m ∈ p.next.bind VfsOp.takes, ∀ u, r.tested u ≠ some m)
    (hExec : r.step conf t answer p = some r') :
    VfsInv r' := by
  rcases h with ⟨holds, hOwned, hTested, hHolds, hRemoved⟩
  have hSettles := hHolds t
  rw [hProg] at hSettles
  cases p with
  | done res =>
    cases hExec
    refine
      ⟨update holds t .nothing, ?_, tested_update hTested rfl, holds_update hHolds rfl, hRemoved⟩
    refine hOwned.note (refs_settled hSettles) rfl rfl ?_
    intro m hSome
    cases hSome
  | call o rest =>
    rcases Option.bind_eq_some_iff.mp hExec with ⟨⟨x, vfs⟩, hOp, hNext⟩
    cases hNext
    have hOk : ∀ m, o = .fetchAdd m → ∀ u, (holds u).testedMount ≠ some m := by
      rintro m rfl u
      rw [← hTested u]
      exact hSound m rfl u
    rcases hOwned.step hSettles hOp hOk with ⟨h', hPost, hOwned', hNote⟩
    rw [← hTested t] at hNote
    exact
      ⟨update holds t h', hOwned', tested_update hTested hNote.symm, holds_update hHolds hPost,
        record_le hOwned hSettles hRemoved⟩

end VfsInv

----
-- All Runs
----

/-
  In every run whose steps are sound, the counters are right
  after each call, and no mount in use is removed.
-/
theorem vfsCounted_of_reachable
    (hReach : (vfsSystem conf).ReachableVia (VfsEvent.Sound conf) r) :
    VfsCounted r := by
  refine (hReach.invariant (I := VfsInv) (fun _ hStart => VfsInv.start hStart) ?_).counted
  intro r e r' hInv hSound hEnabled hExec
  cases e with
  | call c answers =>
    rcases Option.bind_eq_some_iff.mp hExec with ⟨⟨res, vfs⟩, hRun, hNext⟩
    cases hNext
    exact hInv.called hEnabled hSound hRun
  | start t c =>
    cases hExec
    exact hInv.started hEnabled
  | step t answer =>
    rcases Option.bind_eq_some_iff.mp hExec with ⟨p, hProg, hStep⟩
    refine hInv.stepped hProg ?_ hStep
    intro m hTakes
    refine hSound m ?_
    rw [hProg]
    exact hTakes

----
-- Two Mounts
----

/-
  A mount without directory operations, and one with all
  tables.
-/
def twoMounts : VfsConf (Fin 2) where
  mount m :=
    if m = 0 then
      { fs := some ⟨some ⟨false, false⟩, none, none⟩,
        mountPoint := some ['/'] }
    else
      { fs :=
          some
            ⟨some ⟨true, true⟩, some ⟨true, true⟩,
              some ⟨true, true, true, true, true, true, true, true⟩⟩,
        mountPoint := some ['/', 'd'] }

/- Two threads and one handle. -/
def twoMountsStart : VfsRun (Fin 2) (Fin 1) (Fin 2) 4 where
  vfs :=
    { mounts := [],
      openFiles := fun _ => 0, locked := fun _ => false, files := fun _ => ⟨false, none, none⟩,
      dirs := fun _ => ⟨none, none, false⟩ }
  progs _ := none
  tested _ := none
  removed := []

theorem twoMountsStart_start :
    (vfsSystem twoMounts).Start twoMountsStart :=
  ⟨rfl, fun _ => rfl, fun _ => rfl, fun _ => rfl, fun _ => rfl, fun _ => rfl, fun _ => rfl, rfl⟩

/-
  A directory is opened, and while a file is being opened on
  the same mount another thread tries to unmount it.
-/
theorem vfsCounted_twoMounts :
    ∃ r : VfsRun (Fin 2) (Fin 1) (Fin 2) 4, r.Quiet ∧ r.vfs.openFiles 1 = 2 ∧ VfsCounted r := by
  have hRun :
      ((vfsSystem twoMounts).runVia
          (VfsEvent.Sound twoMounts) twoMountsStart
          ([.call (.mount (some 1)) [0, 0, 0, 0, 0],
            .call (.opendir (some 0) (some ['/', 'd'])) [0, 0, 0, 0, 0, 0, 0],
            .start 0 (.open (some ['/', 'd', '/', 'f'])), .start 1 (.umount (some 1))] ++
            List.replicate 10 (.step 0 0) ++ List.replicate 6 (.step 1 0))).any
        (fun r => decide (r.Quiet ∧ r.vfs.openFiles 1 = 2)) = true := by
    decide +kernel
  rcases
    System.exists_reachableVia_of_runVia twoMountsStart_start hRun
    with ⟨r, _, hReach, hQuiet, hOpen⟩
  exact ⟨r, hQuiet, hOpen, vfsCounted_of_reachable hReach⟩

/-
  A directory that is opened on a mount without directory
  operations, and a file that is opened between the test of
  the counter and the removal of the mount.
-/
theorem not_vfsCounted :
    (∃ r : VfsRun (Fin 2) (Fin 1) (Fin 2) 4,
      (vfsSystem twoMounts).Reachable r ∧ r.Quiet ∧ ¬ ∀ m, r.vfs.openFiles m = r.vfs.opened m) ∧
      ∃ r : VfsRun (Fin 2) (Fin 1) (Fin 2) 4,
        (vfsSystem twoMounts).Reachable r ∧ ¬ ∀ x ∈ r.removed, x.2 ≤ 0 := by
  constructor
  · have hRun :
        ((vfsSystem twoMounts).runVia
            (fun _ _ => True) twoMountsStart
            [.call (.mount (some 0)) [0, 0, 0, 0],
              .call (.opendir (some 0) (some ['/', 'x'])) [0, 0, 0, 0]]).any
          (fun r =>
            decide (r.Quiet ∧ ¬ ∀ m, r.vfs.openFiles m = r.vfs.opened m)) = true := by
      decide +kernel
    rcases
      System.exists_reachableVia_of_runVia twoMountsStart_start hRun
      with ⟨r, _, hReach, hCounters⟩
    exact ⟨r, hReach, hCounters⟩
  · have hRun :
        ((vfsSystem twoMounts).runVia
            (fun _ _ => True) twoMountsStart
            ([.call (.mount (some 0)) [0, 0, 0, 0], .start 0 (.umount (some 0)),
              .start 1 (.open (some ['/', 'x']))] ++ List.replicate 4 (.step 0 0) ++
              List.replicate 3 (.step 1 0) ++ [.step 0 0])).any
          (fun r =>
            decide (¬ ∀ x ∈ r.removed, x.2 ≤ 0)) = true := by
      decide +kernel
    rcases
      System.exists_reachableVia_of_runVia twoMountsStart_start hRun
      with ⟨r, _, hReach, hRemoved⟩
    exact ⟨r, hReach, hRemoved⟩

end Riot
