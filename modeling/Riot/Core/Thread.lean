import Riot.Core.Sched
import Mathlib.Data.List.Sort

/-
  Thread operations of `thread.c`, and `kernel_init`.

  Operations that change a thread's status take the status
  function as a parameter: `schedSetStatus` in the kernel,
  and a plain store where a protocol is studied apart from
  the scheduler.
-/

----
-- Status Functions
----

namespace Riot

/- The type of `sched_set_status`. -/
abbrev StatusFn (N : Nat) :=
  Kernel N → Fin N → ThreadStatus → Option (Kernel N)

/- A status function that stores the status only. -/
def storeStatus {N : Nat} : StatusFn N :=
  fun k process status => some (k.setStatus process status)

----
-- Sleeping and Yielding
----

variable {N : Nat}

/- Put the active thread to sleep. -/
def threadSleep
    (setStatus : StatusFn N) (inIrq : Bool) (k : Kernel N) : Option (Kernel N) :=
  if inIrq then
    some k
  else do
    let active ← k.schedActiveThread
    let k' ← setStatus k active .sleeping
    some (threadYieldHigher k')

/-
  Wake up a sleeping thread; the result is 1, or the value
  of `STATUS_NOT_FOUND`.
-/
def threadWakeup
    (setStatus : StatusFn N) (inIrq : Bool) (k : Kernel N)
    (pid : Int) : Option (Kernel N × Int) :=
  match k.threadGet pid with
  | none => some (k, -1)
  | some thread =>
    if (k.thread thread).status = .sleeping then do
      let k₁ ← setStatus k thread .running
      let k₂ ← schedSwitch inIrq k₁ (k₁.thread thread).priority
      some (k₂, 1)
    else
      some (k, -1)

/- Move the active thread to the end of its queue. -/
def threadYield
    (k : Kernel N) : Option (Kernel N) := do
  let me ← k.schedActiveThread
  if (k.thread me).status.onRunqueue then
    let mem ← clistLpoprpush k.next (.runqueue (k.thread me).priority)
    some (threadYieldHigher { k with next := mem })
  else
    some (threadYieldHigher k)

----
-- Wait Lists
----

/-
  The insertion loop, standing at list object `list`: the
  new node goes before the first entry of a numerically
  larger priority.
-/
def threadAddToListFrom
    (priority : Fin N → Nat) (thread : Fin N) :
    Nat → LinkMem (ListHead N) (Fin N) → Cell (ListHead N) (Fin N) →
      Option (LinkMem (ListHead N) (Fin N))
| 0, _, _ => none
| fuel + 1, mem, list =>
  match mem list with
  | .null => some ((mem.set (.entry thread) (mem list)).set list (.ref thread))
  | .mark => none
  | .ref entry =>
    if priority entry > priority thread then
      some ((mem.set (.entry thread) (mem list)).set list (.ref thread))
    else
      threadAddToListFrom priority thread fuel mem (.entry entry)

/- Insert a thread that does not run into a wait list. -/
def threadAddToList
    (k : Kernel N) (list : WaitHead N) (thread : Fin N) : Option (Kernel N) :=
  if (k.thread thread).status.onRunqueue then
    none
  else do
    let mem ←
      threadAddToListFrom (fun t => (k.thread t).priority)
        thread (N + 1) k.next (.head (.waiting list))
    some { k with next := mem }

/- Only links change. -/
theorem threadAddToList_some
    {k k' : Kernel N} {list : WaitHead N} {thread : Fin N}
    (hAdd : threadAddToList k list thread = some k') :
    ∃ mem, k' = { k with next := mem } := by
  unfold threadAddToList at hAdd
  split at hAdd
  · cases hAdd
  · rcases Option.bind_eq_some_iff.mp hAdd with ⟨mem, _, hLast⟩
    cases hLast
    exact ⟨mem, rfl⟩

----
-- Wait-List Insertion
----

open LinkMem

variable {mem : LinkMem (ListHead N) (Fin N)} (priority : Fin N → Nat)
variable {thread : Fin N}

/-
  The order of a wait list: a thread goes after all entries
  whose priority value is not larger than its own.
-/
def insertByPriority
    (priority : Fin N → Nat) (thread : Fin N) (l : List (Fin N)) : List (Fin N) :=
  l.orderedInsert (fun a b => priority a < priority b) thread

/-
  Insertion from any list object `list` whose field starts
  the rest `l` of a null-terminated list.
-/
theorem threadAddToListFrom_spec
    {fuel : Nat} {list : Cell (ListHead N) (Fin N)} {l : List (Fin N)}
    (hSeg : Seg mem (mem list) l .null) (hNot : thread ∉ l)
    (hList : list ≠ .entry thread) (hOutside : ∀ e ∈ l, list ≠ .entry e)
    (hNodup : l.Nodup) (hFuel : l.length < fuel) :
    ∃ mem', threadAddToListFrom priority thread fuel mem list = some mem' ∧
        Seg mem' (mem' list) (insertByPriority priority thread l) .null ∧
        (∀ c, c ≠ list → c ≠ .entry thread → (∀ e ∈ l, c ≠ .entry e) → mem' c = mem c) := by
  induction l generalizing fuel list with
  | nil =>
    have hNull : mem list = .null := hSeg
    cases fuel with
    | zero => simp at hFuel
    | succ fuel =>
      refine ⟨(mem.set (.entry thread) (mem list)).set list (.ref thread), ?_, ?_, ?_⟩
      · simp [threadAddToListFrom, hNull]
      · rw [set_same]
        refine ⟨rfl, ?_⟩
        rw [set_of_ne _ _ (Ne.symm hList), set_same]
        exact hNull
      · intro c hNe hNeThread _
        rw [set_of_ne _ _ hNe, set_of_ne _ _ hNeThread]
  | cons e l ih =>
    rcases hSeg with ⟨hRef, hRest⟩
    rcases List.ne_and_not_mem_of_not_mem_cons hNot with ⟨hNe, hNotRest⟩
    rcases List.nodup_cons.mp hNodup with ⟨hNotMem, hNodupRest⟩
    cases fuel with
    | zero => simp at hFuel
    | succ fuel =>
      by_cases hPrio : priority thread < priority e
      · refine ⟨(mem.set (.entry thread) (mem list)).set list (.ref thread), ?_, ?_, ?_⟩
        · simp [threadAddToListFrom, hRef, hPrio]
        · have hInsert : insertByPriority priority thread (e :: l) = thread :: e :: l := by
            simp [insertByPriority, hPrio]
          rw [hInsert, set_same]
          refine ⟨rfl, ?_⟩
          rw [set_of_ne _ _ (Ne.symm hList), set_same]
          have hOld : Seg mem (mem list) (e :: l) .null := ⟨hRef, hRest⟩
          apply hOld.congr
          intro x hx
          rw [set_of_ne _ _ (Ne.symm (hOutside x hx)), set_of_ne]
          intro hEq
          cases hEq
          exact hNot hx
        · intro c hNeList hNeThread _
          rw [set_of_ne _ _ hNeList, set_of_ne _ _ hNeThread]
      · rcases @ih fuel (.entry e) hRest hNotRest (by simpa using Ne.symm hNe) (by
              intro x hx hEq
              cases hEq
              exact hNotMem hx)
            hNodupRest (by simpa using hFuel) with
          ⟨mem', hAdd, hSeg', hSame⟩
        have hListSame : mem' list = mem list := hSame list (hOutside e (by simp)) hList
            (fun x hx =>
              hOutside x (List.mem_cons_of_mem _ hx))
        refine ⟨mem', ?_, ?_, ?_⟩
        · simp only [threadAddToListFrom, hRef]
          rw [if_neg (by omega)]
          exact hAdd
        · have hInsert : insertByPriority priority thread (e :: l) =
                e :: insertByPriority priority thread l := by
            simp [insertByPriority, hPrio]
          rw [hInsert, hListSame, hRef]
          exact ⟨rfl, hSeg'⟩
        · intro c hNeList hNeThread hAll
          exact hSame c (hAll e (by simp)) hNeThread
            (fun x hx =>
              hAll x (List.mem_cons_of_mem _ hx))

/- Insertion stays inside a confined region. -/
theorem threadAddToListFrom_within
    {r : Region (ListHead N) (Fin N)} {mem' : LinkMem (ListHead N) (Fin N)} {fuel : Nat}
    {list : Cell (ListHead N) (Fin N)} (hConf : r.Confined mem)
    (hList : r.cells list) (hNew : r.members thread)
    (hAdd : threadAddToListFrom priority thread fuel mem list = some mem') :
    r.Within mem mem' ∧ ∀ h, .head h ≠ list → mem' (.head h) = mem (.head h) := by
  have hStore : ∀ list, r.cells list → r.Within mem
            ((mem.set (.entry thread) (mem list)).set list (.ref thread)) ∧
          ∀ h, .head h ≠ list → (mem.set (.entry thread) (mem list)).set list
              (.ref thread) (.head h) = mem (.head h) := by
    intro list hList
    constructor
    · apply Region.Within.set
      · apply (Region.Within.refl hConf).set (r.entry_cells thread hNew)
        exact fun e he => hConf list hList e he
      · exact hList
      · intro e he
        cases he
        exact hNew
    · intro h hNe
      rw [set_of_ne _ _ hNe, set_entry_head]
  induction fuel generalizing list with
  | zero => cases hAdd
  | succ fuel ih =>
    unfold threadAddToListFrom at hAdd
    split at hAdd
    · cases hAdd
      exact hStore list hList
    · cases hAdd
    · rename_i e hRef
      split at hAdd
      · cases hAdd
        exact hStore list hList
      · have hEntry := r.entry_cells e (hConf list hList e hRef)
        rcases ih hEntry hAdd with ⟨hWithin, hHeads⟩
        exact ⟨hWithin, fun h _ => hHeads h (by simp)⟩

/- Insertion adds one member. -/
theorem insertByPriority_perm
    (l : List (Fin N)) :
    (insertByPriority priority thread l).Perm (thread :: l) :=
  List.perm_orderedInsert _ _ _

----
-- Creation
----

variable {N : Nat}

def threadCreateSleeping : Nat := 1

def threadCreateWoutYield : Nat := 4

def threadCreateStacktest : Nat := 8

def einval : Int := 22

def eoverflow : Int := 75

/- The first pid without a thread. -/
def freePid
    (k : Kernel N) : Option Int :=
  ((List.range maxthreads.toNat).map
    (fun i : Nat => kernelPidFirst + (i : Int))).find?
    (fun pid => (k.schedThreads pid).isNone)

/-
  Fill in the control block of a new thread.  The pid alone
  decides the priority: 15 for pid 1, and 1 otherwise.
-/
def initThread
    (k : Kernel N) (tcb : Fin N) (pid : Int) (sTime : Int) : Kernel N :=
  { k with
    schedThreads := Function.update k.schedThreads pid (some tcb)
    schedNumThreads := k.schedNumThreads + 1
    next := (k.next.set (.entry tcb) .null).set (.head (.waiting (.msgWaiters tcb))) .null
    thread :=
      Function.update k.thread tcb
        { status := .stopped
          priority := if pid = 1 then 15 else 1
          pid := pid
          sTime := sTime
          waitData := none
          msgQueue := ⟨0#32, 0#32, 0#32 - 1#32⟩
          msgArray := none } }

/-
  Create a thread whose control block is `tcb`.  The result
  is its pid or a negated error number.
-/
def threadCreate
    (setStatus : StatusFn N) (inIrq : Bool) (k : Kernel N) (tcb : Fin N) (priority flags : Nat)
    (sTime : Int) : Option (Kernel N × Int) :=
  if schedPrioLevels ≤ priority then
    some (k, -einval)
  else
    match freePid k with
    | none => some (k, -eoverflow)
    | some pid =>
      let k₁ := initThread k tcb pid sTime
      if flags &&& threadCreateSleeping ≠ 0 then do
        let k₂ ← setStatus k₁ tcb .sleeping
        some (k₂, pid)
      else do
        let k₂ ← setStatus k₁ tcb .pending
        if flags &&& threadCreateWoutYield = 0 then
          let k₃ ← schedSwitch inIrq k₂ priority
          some (k₃, pid)
        else
          some (k₂, pid)

/- The flags of the two threads that `kernel_init` creates. -/
def initFlags : Nat :=
  threadCreateWoutYield ||| threadCreateStacktest

/- Create the idle thread, if configured. -/
def createIdleThread
    (cfg : Config N) (k : Kernel N) : Option (Kernel N) :=
  if cfg.coreIdleThread then
    (threadCreate (schedSetStatus cfg) true k
      cfg.idleStack threadPriorityIdle initFlags 0).map Prod.fst
  else
    some k

/-
  Create the idle thread and the main thread, and leave for
  the scheduler.
-/
def kernelInit
    (cfg : Config N) : Option (Kernel N) := do
  let k₁ ← createIdleThread cfg (Kernel.zero N)
  let (k₂, _) ←
    threadCreate (schedSetStatus cfg) true k₁ cfg.mainStack threadPriorityMain initFlags 0
  some (threadYieldHigher k₂)

end Riot
