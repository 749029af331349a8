import Riot.Core.Thread
import Riot.Lib.Programs
import Riot.Lib.Tally

/-
  The virtual file system layer, `vfs.c`.

  A call of the layer is a program over operations: the calls
  of the file system driver, the accesses to the counter of a
  mount, the mutexes, and accesses to the list of mounts, to
  the table of open files and to directory handles.  The
  driver's answers come with the operations.
-/

----
-- File Systems
----

namespace Riot

namespace Vfs

/- Error codes. -/
def eperm : Int := 1
def enoent : Int := 2
def ebadf : Int := 9
def ebusy : Int := 16
def eexist : Int := 17
def exdev : Int := 18
def enfile : Int := 23

/- The file descriptor that stands for any. -/
def anyFd : Int := -1

end Vfs

/- Which operations a driver implements. -/
structure FileOps where
  hasOpen : Bool
  hasClose : Bool

structure DirOps where
  hasOpendir : Bool
  hasClosedir : Bool

structure FileSystemOps where
  hasMount : Bool
  hasUmount : Bool
  hasRename : Bool
  hasUnlink : Bool
  hasMkdir : Bool
  hasRmdir : Bool
  hasStat : Bool
  hasStatvfs : Bool

/- The tables of a driver; `none` is a missing table. -/
structure FileSystem where
  fOp : Option FileOps
  dOp : Option DirOps
  fsOp : Option FileSystemOps

/- What a mount is made with; it does not change. -/
structure MountPoint where
  fs : Option FileSystem
  mountPoint : Option (List Char)

/- The mounts there are. -/
structure VfsConf (M : Type) where
  mount : M → MountPoint

/- The path of a mount. -/
def VfsConf.path
    {M : Type} (conf : VfsConf M) (m : M) : List Char :=
  (conf.mount m).mountPoint.getD []

----
-- State
----

/- An entry is used if its `pid` is not `KERNEL_PID_UNDEF`. -/
structure FileEntry (M : Type) where
  used : Bool
  mp : Option M
  fOp : Option FileOps

/-
  A directory handle, and whether the handle is open: whether
  its latest `vfs_opendir` that got past the mount returned 0
  and it was not closed.
-/
structure DirEntry (M : Type) where
  mp : Option M
  dOp : Option DirOps
  isOpen : Bool

/- The mount a descriptor or a handle is open on. -/
def FileEntry.openOn
    {M : Type} (f : FileEntry M) : Option M :=
  if f.used then f.mp else none

def DirEntry.openOn
    {M : Type} (d : DirEntry M) : Option M :=
  if d.isOpen then d.mp else none

/- The mutexes `_mount_mutex` and `_open_mutex`. -/
inductive VfsMutex where
  | mount
  | open
deriving DecidableEq

/-
  The mounts that are mounted, their counters `open_files`,
  the mutexes, the `VFS_MAX_OPEN_FILES` file descriptors, and
  the directory handles.
-/
structure Vfs (M H : Type) (n : Nat) where
  mounts : List M
  openFiles : M → Int
  locked : VfsMutex → Bool
  files : Fin n → FileEntry M
  dirs : H → DirEntry M

----
-- Operations
----

/- The functions of a driver, with the paths they get. -/
inductive DriverOp where
  | open (relPath name : List Char)
  | close
  | opendir (relPath dirname : List Char)
  | closedir
  | mount
  | umount
  | rename (relFrom relTo : List Char)
  | unlink (relPath : List Char)
  | mkdir (relPath : List Char)
  | rmdir (relPath : List Char)
  | stat (relPath : List Char)
  | statvfs (relPath : List Char)

inductive VfsOp (M H : Type) (n : Nat) where
  | mutexLock (x : VfsMutex)
  | mutexUnlock (x : VfsMutex)
  | search (name : List Char)
  | clistFind (m : M)
  | clistRpush (m : M)
  | clistRemove (m : M)
  | fetchAdd (m : M)
  | fetchSub (m : M)
  | load (m : M)
  | driver (op : DriverOp)
  | initFd (fd : Int) (fOp : Option FileOps) (mp : Option M)
  | readFile (fd : Fin n)
  | freeFile (fd : Fin n)
  | readDir (h : H)
  | writeDir (h : H) (d : DirEntry M)
  | crash

/- The answer to an operation. -/
abbrev VfsOp.Ans
    {M H : Type}
    {n : Nat} : VfsOp M H n → Type
| .search _ => Nat × Option M
| .clistFind _ => Bool
| .clistRemove _ => Bool
| .load _ => Int
| .driver _ => Int
| .initFd _ _ _ => Except Int (Fin n)
| .readFile _ => FileEntry M
| .readDir _ => DirEntry M
| .crash => Empty
| _ => Unit

section

open Function

variable {M H : Type} [DecidableEq M] [DecidableEq H] {n : Nat}

/-
  One step of the search for the mount of a path: the longest
  match so far, and the mount found so far.
-/
def matchMount
    (conf : VfsConf M) (name : List Char) (found : Nat × Option M) (it : M) : Nat × Option M :=
  let len := (conf.path it).length
  if len < found.1 then
    found
  else if name.length < len then
    found
  else if 1 < len ∧ name[len]? ≠ some '/' ∧ len ≠ name.length then
    found
  else if name.take len = conf.path it then
    (if 1 < len then len else found.1, some it)
  else
    found

def searchMounts
    (conf : VfsConf M) (name : List Char) (mounts : List M) : Nat × Option M :=
  mounts.foldl (matchMount conf name) (0, none)

/- Descriptors 0, 1 and 2 are not allocated unless asked for. -/
def allocateFd
    (files : Fin n → FileEntry M) (fd : Int) : Except Int (Fin n) :=
  if fd < 0 then
    match (List.finRange n).find?
        (fun i => 2 < i.val && !(files i).used) with
    | some i => .ok i
    | none => .error (-Vfs.enfile)
  else if h : fd.toNat < n then
    if (files ⟨fd.toNat, h⟩).used then
      .error (-Vfs.eexist)
    else
      .ok ⟨fd.toNat, h⟩
  else
    .error (-Vfs.enfile)

/-
  What an operation does, with the answer of the driver.  No
  result is a wait for a mutex, or an access through `NULL`.
-/
def VfsOp.exec
    (conf : VfsConf M) :
    (o : VfsOp M H n) → Int → StateT (Vfs M H n) Option o.Ans
| .mutexLock x, _ => fun s =>
  if s.locked x then
    none
  else
    some ((), { s with locked := update s.locked x true })
| .mutexUnlock x, _ => fun s => some ((), { s with locked := update s.locked x false })
| .search name, _ => fun s => some (searchMounts conf name s.mounts, s)
| .clistFind m, _ => fun s => some (decide (m ∈ s.mounts), s)
| .clistRpush m, _ => fun s => some ((), { s with mounts := s.mounts ++ [m] })
| .clistRemove m, _ => fun s =>
  some (decide (m ∈ s.mounts), { s with mounts := s.mounts.erase m })
| .fetchAdd m, _ => fun s =>
  some ((), { s with openFiles := update s.openFiles m (s.openFiles m + 1) })
| .fetchSub m, _ => fun s =>
  some ((), { s with openFiles := update s.openFiles m (s.openFiles m - 1) })
| .load m, _ => fun s => some (s.openFiles m, s)
| .driver _, res => fun s => some (res, s)
| .initFd fd fOp mp, _ => fun s =>
  match allocateFd s.files fd with
  | .error err => some (.error err, s)
  | .ok i =>
    some
      (.ok i,
        { s with
          files :=
            update s.files i
              { used := true, mp := mp, fOp := fOp } })
| .readFile fd, _ => fun s => some (s.files fd, s)
| .freeFile fd, _ => fun s =>
  some
    ((),
      { s with files := update s.files fd { s.files fd with used := false } })
| .readDir h, _ => fun s => some (s.dirs h, s)
| .writeDir h d, _ => fun s => some ((), { s with dirs := update s.dirs h d })
| .crash, _ => fun _ => none

end

----
-- Helpers
----

section

open Vfs

variable {M H : Type} {n : Nat}

abbrev VfsProg (M H : Type) (n : Nat) :=
  Prog (@VfsOp.Ans M H n)

def vfsOp
    (o : VfsOp M H n) : VfsProg M H n o.Ans :=
  .perform o

variable (conf : VfsConf M)

/- An access through a pointer. -/
def deref
    {α : Type} : Option α → VfsProg M H n α
| some a => pure a
| none => .call .crash (fun x => nomatch x)

def vfsMutexLock
    (x : VfsMutex) : VfsProg M H n Unit :=
  vfsOp (.mutexLock x)

def vfsMutexUnlock
    (x : VfsMutex) : VfsProg M H n Unit :=
  vfsOp (.mutexUnlock x)

def atomicFetchAdd
    (m : M) : VfsProg M H n Unit :=
  vfsOp (.fetchAdd m)

def atomicFetchSub
    (m : M) : VfsProg M H n Unit :=
  vfsOp (.fetchSub m)

def driver
    (op : DriverOp) : VfsProg M H n Int :=
  vfsOp (.driver op)

/- The driver of a mount. -/
def mountFs
    (m : M) : VfsProg M H n FileSystem :=
  deref (conf.mount m).fs

/- The mount of a path, and the path relative to it. -/
def findMount
    (name : List Char) :
    VfsProg M H n (Except Int (M × List Char)) := do
  vfsMutexLock .mount
  let found ← vfsOp (.search name)
  match found.2 with
  | none =>
    vfsMutexUnlock .mount
    return .error (-enoent)
  | some mountp =>
    atomicFetchAdd mountp
    vfsMutexUnlock .mount
    return .ok (mountp, name.drop found.1)

/- The entry of a descriptor, if it is valid. -/
def fdIsValid
    (fd : Int) : VfsProg M H n (Option (Fin n)) := do
  if h : 0 ≤ fd ∧ fd.toNat < n then
    let filp ← vfsOp (.readFile ⟨fd.toNat, h.2⟩)
    if filp.used && filp.fOp.isSome then
      return some ⟨fd.toNat, h.2⟩
    else
      return none
  else
    return none

def freeFd
    (fd : Fin n) : VfsProg M H n Unit := do
  let filp ← vfsOp (.readFile fd)
  match filp.mp with
  | some m => atomicFetchSub m
  | none => pure ()
  vfsOp (.freeFile fd)

/-
  The mount mutex stays locked if the mount is valid and not
  mounted.
-/
def checkMount
    (mountp : Option M) : VfsProg M H n Int := do
  match mountp with
  | none => return -einval
  | some m =>
    if (conf.mount m).fs.isNone ||
        (conf.mount m).mountPoint.isNone then
      return -einval
    if (conf.path m).head? ≠ some '/' then
      return -einval
    vfsMutexLock .mount
    let found ← vfsOp (.clistFind m)
    if found then
      vfsMutexUnlock .mount
      return -ebusy
    return 0

----
-- Files and Directories
----

def vfsOpen
    (name : Option (List Char)) : VfsProg M H n Int := do
  match name with
  | none => return -einval
  | some name =>
    match ← findMount name with
    | .error res => return res
    | .ok (mountp, relPath) =>
      let fs ← mountFs conf mountp
      vfsMutexLock .open
      let fd ← vfsOp (.initFd anyFd fs.fOp (some mountp))
      vfsMutexUnlock .open
      match fd with
      | .error err =>
        atomicFetchSub mountp
        return err
      | .ok fd =>
        let filp ← vfsOp (.readFile fd)
        let fOp ← deref filp.fOp
        if fOp.hasOpen then
          let res ← driver (.open relPath name)
          if res < 0 then
            freeFd fd
            return res
        return fd.val

def vfsClose
    (fd : Int) : VfsProg M H n Int := do
  match ← fdIsValid fd with
  | none => return -ebadf
  | some fd =>
    let filp ← vfsOp (.readFile fd)
    let fOp ← deref filp.fOp
    if fOp.hasClose then
      let res ← driver .close
      freeFd fd
      return res
    else
      freeFd fd
      return 0

def vfsOpendir
    (dirp : Option H) (dirname : Option (List Char)) :
    VfsProg M H n Int := do
  match dirp, dirname with
  | some dirp, some dirname =>
    match ← findMount dirname with
    | .error res => return res
    | .ok (mountp, relPath) =>
      let relPath :=
        if relPath.isEmpty then ['/'] else relPath
      let fs ← mountFs conf mountp
      match fs.dOp with
      | none => return -einval
      | some dOp =>
        vfsOp
          (.writeDir dirp
            { mp := some mountp,
              dOp := some dOp, isOpen := false })
        if dOp.hasOpendir then
          let res ← driver (.opendir relPath dirname)
          if res < 0 then
            atomicFetchSub mountp
            return res
        -- the handle is open from here on
        vfsOp
          (.writeDir dirp
            { mp := some mountp,
              dOp := some dOp, isOpen := true })
        return 0
  | _, _ => return -einval

def vfsClosedir
    (dirp : Option H) : VfsProg M H n Int := do
  match dirp with
  | none => return -einval
  | some dirp =>
    let d ← vfsOp (.readDir dirp)
    match d.mp with
    | none => return -ebadf
    | some mountp =>
      let res ←
        if d.dOp.any (·.hasClosedir) then
          driver .closedir
        else
          pure 0
      vfsOp
        (.writeDir dirp
          { mp := none, dOp := none, isOpen := false })
      atomicFetchSub mountp
      return res

----
-- Mounts
----

def vfsMount
    (mountp : Option M) : VfsProg M H n Int := do
  let ret ← checkMount conf mountp
  if ret < 0 then
    return ret
  let m ← deref mountp
  let fs ← mountFs conf m
  if fs.fsOp.any (·.hasMount) then
    let res ← driver .mount
    if res < 0 then
      vfsMutexUnlock .mount
      return res
  vfsOp (.clistRpush m)
  vfsMutexUnlock .mount
  return 0

def vfsUmount
    (mountp : Option M) : VfsProg M H n Int := do
  let ret ← checkMount conf mountp
  if ret = 0 then
    vfsMutexUnlock .mount
    return -einval
  if ret ≠ -ebusy then
    return -einval
  let m ← deref mountp
  -- the mount mutex is not held here
  let openFiles ← vfsOp (.load m)
  if 0 < openFiles then
    vfsMutexUnlock .mount
    return -ebusy
  let fs ← mountFs conf m
  if fs.fsOp.any (·.hasUmount) then
    let res ← driver .umount
    if res < 0 then
      vfsMutexUnlock .mount
      return res
  let removed ← vfsOp (.clistRemove m)
  vfsMutexUnlock .mount
  if removed then
    return 0
  else
    return -einval

----
-- Paths
----

section

variable [DecidableEq M]

def vfsRename
    (fromPath toPath : Option (List Char)) :
    VfsProg M H n Int := do
  match fromPath, toPath with
  | some fromPath, some toPath =>
    match ← findMount fromPath with
    | .error res => return res
    | .ok (mountp, relFrom) =>
      let fs ← mountFs conf mountp
      if !fs.fsOp.any (·.hasRename) then
        atomicFetchSub mountp
        return -eperm
      match ← findMount toPath with
      | .error res =>
        atomicFetchSub mountp
        return res
      | .ok (mountpTo, relTo) =>
        if mountpTo ≠ mountp then
          atomicFetchSub mountp
          atomicFetchSub mountpTo
          return -exdev
        let res ← driver (.rename relFrom relTo)
        atomicFetchSub mountp
        atomicFetchSub mountpTo
        return res
  | _, _ => return -einval

end

/-
  A function that passes a path on to the driver, if the
  driver implements it.
-/
def onMount
    (has : FileSystemOps → Bool) (op : List Char → DriverOp)
    (name : Option (List Char)) : VfsProg M H n Int := do
  match name with
  | none => return -einval
  | some name =>
    match ← findMount name with
    | .error res => return res
    | .ok (mountp, relPath) =>
      let fs ← mountFs conf mountp
      if !fs.fsOp.any has then
        atomicFetchSub mountp
        return -eperm
      let res ← driver (op relPath)
      atomicFetchSub mountp
      return res

def vfsUnlink
    (name : Option (List Char)) : VfsProg M H n Int :=
  onMount conf (·.hasUnlink) .unlink name

def vfsMkdir
    (name : Option (List Char)) : VfsProg M H n Int :=
  onMount conf (·.hasMkdir) .mkdir name

def vfsRmdir
    (name : Option (List Char)) : VfsProg M H n Int :=
  onMount conf (·.hasRmdir) .rmdir name

/- A buffer of `NULL` is answered like a path of `NULL`. -/
def vfsStat
    (path : Option (List Char)) (buf : Bool) : VfsProg M H n Int :=
  onMount conf (·.hasStat) .stat (if buf then path else none)

def vfsStatvfs
    (path : Option (List Char)) (buf : Bool) : VfsProg M H n Int :=
  onMount conf (·.hasStatvfs) .statvfs (if buf then path else none)

end

----
-- Calls
----

/- The calls that are made while no other is in progress. -/
inductive VfsCall (M H : Type) where
  | mount (mountp : Option M)
  | close (fd : Int)
  | opendir (dirp : Option H) (dirname : Option (List Char))
  | closedir (dirp : Option H)
  | rename (fromPath toPath : Option (List Char))
  | unlink (name : Option (List Char))
  | mkdir (name : Option (List Char))
  | rmdir (name : Option (List Char))
  | stat (path : Option (List Char)) (buf : Bool)
  | statvfs (path : Option (List Char)) (buf : Bool)

/- The calls that threads make at the same time. -/
inductive VfsSharedCall (M : Type) where
  | open (name : Option (List Char))
  | umount (mountp : Option M)

def VfsCall.prog
    {M H : Type}
    [DecidableEq M]
    {n : Nat} (conf : VfsConf M) :
    VfsCall M H → VfsProg M H n Int
| .mount mountp => vfsMount conf mountp
| .close fd => vfsClose fd
| .opendir dirp dirname => vfsOpendir conf dirp dirname
| .closedir dirp => vfsClosedir dirp
| .rename fromPath toPath => vfsRename conf fromPath toPath
| .unlink name => vfsUnlink conf name
| .mkdir name => vfsMkdir conf name
| .rmdir name => vfsRmdir conf name
| .stat path buf => vfsStat conf path buf
| .statvfs path buf => vfsStatvfs conf path buf

def VfsSharedCall.prog
    {M H : Type} {n : Nat} (conf : VfsConf M) :
    VfsSharedCall M → VfsProg M H n Int
| .open name => vfsOpen conf name
| .umount mountp => vfsUmount conf mountp

end Riot
