import Riot.Lib.Histories
import Riot.Lib.LinkMemory
import Riot.Lib.StableOrder

/-
  The priority queue of `priority_queue.c`, over whole
  histories of calls.

  The functions treat the root as a node, so a walk stands
  at a pointer field, of the root or of a node. A failed
  assertion is a fault (`none`), and so is a walk that does
  not end.
-/

----
-- Operations
----

namespace Riot

variable {H E : Type} [DecidableEq H] [DecidableEq E]

/- The loop of `priority_queue_remove`, standing at `root`. -/
def priorityQueueRemoveFrom
    (node : E) :
    Nat → LinkMem H E → Cell H E → Option (LinkMem H E)
  | 0, _, _ => none
  | fuel + 1, mem, root =>
    match mem root with
    | .null => some mem
    | .mark => none
    | .ref next =>
      if next = node then
        some ((mem.set root (mem (.entry node))).set (.entry node) .null)
      else
        priorityQueueRemoveFrom node fuel mem (.entry next)

/- Remove a node. -/
def priorityQueueRemove
    (fuel : Nat) (mem : LinkMem H E) (root : H) (node : E) : Option (LinkMem H E) :=
  priorityQueueRemoveFrom node fuel mem (.head root)

/- Remove and return the first node. -/
def priorityQueueRemoveHead
    (mem : LinkMem H E) (root : H) :
    Option (LinkMem H E × Option E) :=
  match mem (.head root) with
  | .null => some (mem, none)
  | .mark => none
  | .ref head => some (mem.set (.head root) (mem (.entry head)), some head)

/- The loop of `priority_queue_add`, standing at `node`. -/
def priorityQueueAddFrom
    (priority : E → BitVec 32) (newObj : E) :
    Nat → LinkMem H E → Cell H E → Option (LinkMem H E)
  | 0, _, _ => none
  | fuel + 1, mem, node =>
    match mem node with
    | .null => some ((mem.set node (.ref newObj)).set (.entry newObj) .null)
    | .mark => none
    | .ref next =>
      -- the assertion that no node is added twice
      if next = newObj then
        none
      else if
          (priority newObj).toNat <
            (priority next).toNat then
        some ((mem.set (.entry newObj) (mem node)).set node (.ref newObj))
      else
        priorityQueueAddFrom priority newObj fuel mem (.entry next)

/- Insert a node behind the nodes of its priority. -/
def priorityQueueAdd
    (priority : E → BitVec 32) (fuel : Nat) (mem : LinkMem H E) (root : H)
    (newObj : E) : Option (LinkMem H E) :=
  priorityQueueAddFrom priority newObj fuel mem (.head root)

/- The pointers of a queue, and the priorities of the nodes. -/
structure PriorityQueueMem (H E : Type) where
  mem : LinkMem H E
  priority : E → BitVec 32

/-
  What the users of one queue do. They choose the priority
  of a node themselves.
-/
inductive PriorityQueueOp (E : Type) where
  | setPriority (node : E) (priority : BitVec 32)
  | add (newObj : E)
  | remove (node : E)
  | removeHead
deriving DecidableEq

/- Perform an operation on the queue at `root`. -/
def PriorityQueueOp.run
    (fuel : Nat) (root : H) (s : PriorityQueueMem H E) :
    PriorityQueueOp E → Option (PriorityQueueMem H E × Option E)
  | .setPriority node priority =>
    some ({ s with priority := Function.update s.priority node priority }, none)
  | .add newObj =>
    (priorityQueueAdd s.priority fuel s.mem root newObj).map
      (fun mem => ({ s with mem := mem }, none))
  | .remove node =>
    (priorityQueueRemove fuel s.mem root node).map (fun mem => ({ s with mem := mem }, none))
  | .removeHead =>
    (priorityQueueRemoveHead s.mem root).map (fun r => ({ s with mem := r.1 }, r.2))

----
-- The Abstract Queue
----

variable {E : Type} [DecidableEq E]

/- The nodes of a queue in the order they were added. -/
structure PriorityBag (E : Type) where
  live : List E
  priority : E → BitVec 32

/- The priority of a node, as a number. -/
def PriorityBag.rank
    (b : PriorityBag E) (node : E) : Nat :=
  (b.priority node).toNat

/- The first added node among those of smallest priority. -/
def PriorityBag.least
    (b : PriorityBag E) : Option E :=
  b.live.find? (fun node => ∀ other ∈ b.live, b.rank node ≤ b.rank other)

/- What an operation makes of the nodes, and returns. -/
def PriorityQueueOp.apply
    (b : PriorityBag E) :
    PriorityQueueOp E → PriorityBag E × Option E
  | .setPriority node priority =>
    ({ b with priority := Function.update b.priority node priority }, none)
  | .add newObj => ({ b with live := b.live ++ [newObj] }, none)
  | .remove node => ({ b with live := b.live.erase node }, none)
  | .removeHead =>
    match b.least with
    | none => (b, none)
    | some node => ({ b with live := b.live.erase node }, some node)

/-
  A node is not added twice, and its priority stays as it is
  while it is in the queue.
-/
def PriorityQueueOp.Fresh
    (b : PriorityBag E) : PriorityQueueOp E → Prop
  | .setPriority node _ => node ∉ b.live
  | .add newObj => newObj ∉ b.live
  | _ => True

/-
  The queue at `root` holds the nodes of the bag, sorted by
  priority, with equal priorities in the order of insertion.
-/
def HoldsBag
    {H : Type} (root : H) (s : PriorityQueueMem H E) (b : PriorityBag E) : Prop :=
  s.priority = b.priority ∧ ∃ l, LinkMem.IsList s.mem root l ∧ StableOrder b.rank l b.live

----
-- Walks
----

open LinkMem

variable {H E : Type} [DecidableEq H] [DecidableEq E] {mem : LinkMem H E}
variable {c : Cell H E} {l : List E} {e : E}

/-
  From a field `c` that leads through `l` to null, a new node
  is linked in behind the nodes it is not smaller than. Only
  the fields on the way and its own one change.
-/
theorem priorityQueueAddFrom_spec
    (priority : E → BitVec 32) {fuel : Nat} (hSeg : Seg mem (mem c) l .null)
    (hNodup : l.Nodup) (hNot : e ∉ l) (hc : ∀ x ∈ e :: l, c ≠ .entry x)
    (hFuel : l.length < fuel) :
    ∃ mem', priorityQueueAddFrom priority e fuel mem c = some mem' ∧ Seg mem' (mem' c)
          (l.orderedInsert (fun a b =>
              (priority a).toNat < (priority b).toNat) e)
          .null ∧ ∀ d, d ≠ c → (∀ x ∈ e :: l, d ≠ .entry x) → mem' d = mem d := by
  induction l generalizing c fuel with
  | nil =>
    have hNull : mem c = .null := hSeg
    have hce : c ≠ .entry e := hc e (by simp)
    cases fuel with
    | zero => simp at hFuel
    | succ fuel =>
      refine ⟨_, by rw [priorityQueueAddFrom, hNull], ?_, ?_⟩
      · simp only [List.orderedInsert_nil, Seg]
        rw [set_of_ne _ _ hce, set_same, set_same]
        exact ⟨rfl, rfl⟩
      · intro d hd hde
        rw [set_of_ne _ _ (hde e (by simp)), set_of_ne _ _ hd]
  | cons x l ih =>
    rcases hSeg with ⟨hRef, hRest⟩
    rcases List.nodup_cons.mp hNodup with ⟨hx, hNodupL⟩
    rcases List.ne_and_not_mem_of_not_mem_cons hNot with ⟨hNe, hNotL⟩
    have hce : c ≠ .entry e := hc e (by simp)
    have hcx : c ≠ .entry x := hc x (by simp)
    cases fuel with
    | zero => simp at hFuel
    | succ fuel =>
      simp only [priorityQueueAddFrom, hRef, List.orderedInsert_cons]
      rw [if_neg (Ne.symm hNe)]
      by_cases hLt : (priority e).toNat < (priority x).toNat
      · rw [if_pos hLt, if_pos hLt]
        refine ⟨_, rfl, ?_, ?_⟩
        · have hcl : ∀ y ∈ l, c ≠ .entry y := fun y hy => hc y (by simp [hy])
          refine ⟨set_same _ _ _, ?_⟩
          rw [set_of_ne _ _ hce.symm, set_same]
          refine ⟨rfl, ?_⟩
          rw [set_of_ne _ _ hcx.symm, set_of_ne _ _ (by simpa using Ne.symm hNe)]
          refine hRest.congr ?_
          intro y hy
          rw [set_of_ne _ _ (hcl y hy).symm, set_of_ne]
          intro hEq
          cases hEq
          exact hNotL hy
        · intro d hd hdx
          rw [set_of_ne _ _ hd, set_of_ne _ _ (hdx e (by simp))]
      · rw [if_neg hLt, if_neg hLt]
        have hEntry : ∀ y ∈ e :: l, (Cell.entry x : Cell H E) ≠ .entry y := by
          intro y hy hEq
          cases hEq
          rcases List.mem_cons.mp hy with rfl | hIn
          · exact hNe rfl
          · exact hx hIn
        rcases ih hRest hNodupL hNotL hEntry (by simpa using hFuel) with ⟨mem', hRun, hSeg', hSame⟩
        refine ⟨mem', hRun, ?_, ?_⟩
        · have hcSame : mem' c = mem c := by
            apply hSame c hcx
            intro y hy
            apply hc y
            rcases List.mem_cons.mp hy with rfl | hIn
            · simp
            · simp [hIn]
          rw [hcSame, hRef]
          exact ⟨rfl, hSeg'⟩
        · intro d hd hdx
          apply hSame d (hdx x (by simp))
          intro y hy
          apply hdx y
          rcases List.mem_cons.mp hy with rfl | hIn
          · simp
          · simp [hIn]

/-
  From a field `c` that leads through `l` to null, a node of
  `l` is taken out. Only the fields on the way and its own
  one change.
-/
theorem priorityQueueRemoveFrom_spec
    {fuel : Nat} (hSeg : Seg mem (mem c) l .null) (hNodup : l.Nodup)
    (hc : ∀ x ∈ l, c ≠ .entry x) (hFuel : l.length < fuel) :
    ∃ mem', priorityQueueRemoveFrom e fuel mem c = some mem' ∧
        Seg mem' (mem' c) (l.erase e) .null ∧
        ∀ d, d ≠ c → (∀ x ∈ l, d ≠ .entry x) → mem' d = mem d := by
  induction l generalizing c fuel with
  | nil =>
    have hNull : mem c = .null := hSeg
    cases fuel with
    | zero => simp at hFuel
    | succ fuel =>
      refine ⟨mem, by rw [priorityQueueRemoveFrom, hNull], hNull, fun _ _ _ => rfl⟩
  | cons x l ih =>
    rcases hSeg with ⟨hRef, hRest⟩
    rcases List.nodup_cons.mp hNodup with ⟨hx, hNodupL⟩
    have hcx : c ≠ .entry x := hc x (by simp)
    cases fuel with
    | zero => simp at hFuel
    | succ fuel =>
      simp only [priorityQueueRemoveFrom, hRef]
      by_cases hEq : x = e
      · subst hEq
        rw [if_pos rfl, List.erase_cons_head]
        refine ⟨_, rfl, ?_, ?_⟩
        · rw [set_of_ne _ _ hcx, set_same]
          refine (hRest.congr ?_)
          intro y hy
          rw [set_of_ne, set_of_ne _ _ (hc y (by simp [hy])).symm]
          intro hEq
          cases hEq
          exact hx hy
        · intro d hd hdx
          rw [set_of_ne _ _ (hdx x (by simp)), set_of_ne _ _ hd]
      · rw [if_neg hEq, List.erase_cons_tail (by simpa using hEq)]
        have hEntry : ∀ y ∈ l, (Cell.entry x : Cell H E) ≠ .entry y := by
          intro y hy hSame
          cases hSame
          exact hx hy
        rcases ih hRest hNodupL hEntry (by simpa using hFuel) with ⟨mem', hRun, hSeg', hSame⟩
        refine ⟨mem', hRun, ?_, ?_⟩
        · rw [hSame c hcx (fun y hy => hc y (by simp [hy])), hRef]
          exact ⟨rfl, hSeg'⟩
        · intro d hd hdx
          exact hSame d (hdx x (by simp)) (fun y hy => hdx y (by simp [hy]))

----
-- Histories
----

variable {H E : Type} [DecidableEq H] [DecidableEq E] {root : H}
variable {s : PriorityQueueMem H E} {b : PriorityBag E} {op : PriorityQueueOp E}
variable {ops : List (PriorityQueueOp E)} {fuel : Nat}

/- An operation adds at most one node. -/
theorem length_apply_le
    (b : PriorityBag E) (op : PriorityQueueOp E) :
    (op.apply b).1.live.length ≤ b.live.length + 1 := by
  cases op with
  | setPriority node priority => exact Nat.le_succ _
  | add newObj => simp [PriorityQueueOp.apply]
  | remove node => exact List.length_erase_le.trans (Nat.le_succ _)
  | removeHead =>
    unfold PriorityQueueOp.apply
    cases b.least with
    | none => exact Nat.le_succ _
    | some node => exact List.length_erase_le.trans (Nat.le_succ _)

/-
  Each operation returns what the abstract queue returns, and
  the queue holds the nodes of the abstract queue again.
-/
theorem priorityQueueOp_refines
    (hHolds : HoldsBag root s b) (hFresh : op.Fresh b)
    (hFuel : b.live.length < fuel) :
    ∃ s', op.run fuel root s = some (s', (op.apply b).2) ∧ HoldsBag root s' (op.apply b).1 := by
  rcases hHolds with ⟨hPrio, l, hList, hOrder⟩
  have hLen : l.length < fuel := by
    rw [hOrder.perm.length_eq]
    exact hFuel
  cases op with
  | setPriority node priority =>
    refine ⟨_, rfl, by simp [PriorityQueueOp.apply, hPrio], l, hList, ?_⟩
    apply hOrder.congr
    intro a ha
    have hNe : a ≠ node := fun hEq => hFresh (hEq ▸ ha)
    simp [PriorityBag.rank, PriorityQueueOp.apply, Function.update_of_ne hNe]
  | add newObj =>
    have hNot : newObj ∉ l := fun hIn => hFresh (hOrder.perm.mem_iff.mp hIn)
    rcases priorityQueueAddFrom_spec s.priority
        hList.2 hList.1 hNot (by simp) hLen with
      ⟨mem', hRun, hSeg, _⟩
    refine ⟨{ s with mem := mem' }, ?_, hPrio, _, ⟨?_, hSeg⟩, ?_⟩
    · simp only [PriorityQueueOp.run, priorityQueueAdd, hRun]
      rfl
    · exact (List.perm_orderedInsert _ newObj l).nodup_iff.mpr (List.nodup_cons.mpr ⟨hNot, hList.1⟩)
    · rw [hPrio]
      exact hOrder.insert
  | remove node =>
    rcases priorityQueueRemoveFrom_spec (e := node)
        hList.2 hList.1 (by simp) hLen with
      ⟨mem', hRun, hSeg, _⟩
    refine ⟨{ s with mem := mem' }, ?_, hPrio, _, ⟨hList.1.erase node, hSeg⟩, hOrder.erase⟩
    simp only [PriorityQueueOp.run, priorityQueueRemove, hRun]
    rfl
  | removeHead =>
    have hLeast : b.least = l.head? := hOrder.find?_least
    cases l with
    | nil =>
      have hNull : s.mem (.head root) = .null := hList.2
      refine ⟨s, ?_, ?_⟩
      · simp [PriorityQueueOp.run, priorityQueueRemoveHead, PriorityQueueOp.apply, hNull, hLeast]
      · simp only [PriorityQueueOp.apply, hLeast, List.head?_nil]
        exact ⟨hPrio, [], hList, hOrder⟩
    | cons x l =>
      rcases hList with ⟨hNodup, hRef, hRest⟩
      refine ⟨{ s with mem := s.mem.set (.head root) (s.mem (.entry x)) }, ?_, ?_⟩
      · simp [PriorityQueueOp.run, priorityQueueRemoveHead, PriorityQueueOp.apply, hRef, hLeast]
      · simp only [PriorityQueueOp.apply, hLeast, List.head?_cons]
        have hErase := hOrder.erase (a := x)
        rw [List.erase_cons_head] at hErase
        refine ⟨hPrio, l, ⟨(List.nodup_cons.mp hNodup).2, ?_⟩, hErase⟩
        dsimp only
        rw [set_same]
        exact hRest.set_head

/-
  From an empty queue, every history leaves the nodes added
  and not yet removed, sorted by priority and stably so, and
  each removal of the head returns the earliest one of the
  smallest priority.
-/
theorem priorityQueue_refines
    (hEmpty : s.mem (.head root) = .null)
    (hAdmits : History.Admits PriorityQueueOp.apply PriorityQueueOp.Fresh ⟨[], s.priority⟩ ops)
    (hFuel : ops.length ≤ fuel) :
    ∃ s', History.run (PriorityQueueOp.run fuel root) s ops =
          some (s', (History.apply PriorityQueueOp.apply ⟨[], s.priority⟩ ops).2) ∧
        HoldsBag root s' (History.apply PriorityQueueOp.apply ⟨[], s.priority⟩ ops).1 := by
  have hStep :
      ∀ n s (b : PriorityBag E) op, HoldsBag root s b ∧ b.live.length ≤ n → n < fuel →
          PriorityQueueOp.Fresh b op → ∃ s', PriorityQueueOp.run fuel root s op =
                some (s', (op.apply b).2) ∧ HoldsBag root s' (op.apply b).1 ∧
              (op.apply b).1.live.length ≤ n + 1 := by
    rintro n s b op ⟨hHolds, hLen⟩ hLimit hFresh
    rcases priorityQueueOp_refines hHolds hFresh
        (Nat.lt_of_le_of_lt hLen hLimit) with
      ⟨s', hRun, hHolds'⟩
    have hLen' := length_apply_le b op
    exact ⟨s', hRun, hHolds', by omega⟩
  have hStart :
      HoldsBag root s ⟨[], s.priority⟩ ∧ ([] : List E).length ≤ 0 :=
    ⟨⟨rfl, [], IsList.nil_iff.mpr hEmpty, .nil⟩, le_rfl⟩
  rcases History.refines hStep hStart hAdmits (by omega) with ⟨s', hRun, hHolds, _⟩
  exact ⟨s', hRun, hHolds⟩

/-
  Three nodes, two of one priority; the middle of the list is
  removed, and the head twice.
-/
theorem priorityQueue_refines_sample :
    ∃ s',
      History.run (PriorityQueueOp.run 7 ())
          (⟨fun _ => .null, fun n => BitVec.ofNat 32 (n / 2)⟩ : PriorityQueueMem Unit Nat)
          [.add 3, .add 1, .add 2, .add 4, .remove 3, .removeHead, .removeHead] =
        some (s', [none, none, none, none, none, some 1, some 2]) ∧
        HoldsBag () s' ⟨[4], fun n => BitVec.ofNat 32 (n / 2)⟩ :=
  priorityQueue_refines
    (s := ⟨fun _ => .null, fun n => BitVec.ofNat 32 (n / 2)⟩)
    rfl (by simp [History.Admits, PriorityQueueOp.Fresh, PriorityQueueOp.apply]) (by decide)

end Riot
