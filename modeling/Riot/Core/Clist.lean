import Riot.Lib.LinkMemory

/-
  The intrusive list operations of `list.h` and `clist.h`.

  Reading through a null pointer, or through the reserved
  marker, is a fault (`none`), and so is a traversal that
  never meets the node it stops at.

  Key definitions include:
    * `listRemoveHead`
    * `clistRpush`
    * `clistLpop`
    * `clistLpoprpush`
    * `clistCount`
    * `clistRemove`

  Each operation is related to the list it works on by:
    * `listRemoveHead_spec`
    * `clistRpush_spec`
    * `clistLpop_spec`
    * `clistLpoprpush_spec`
    * `clistCount_eq`
    * `clistCount_some`
    * `clistRemove_spec`
    * `clistLpop_within`
-/

----
-- Operations
----

namespace Riot

variable {H E : Type} [DecidableEq H] [DecidableEq E]

/- Remove the head of a null-terminated list. -/
def listRemoveHead
    (mem : LinkMem H E) (list : H) :
    Option (LinkMem H E × Option E) :=
  match mem (.head list) with
  | .null => some (mem, none)
  | .mark => none
  | .ref first => some (mem.set (.head list) (mem (.entry first)), some first)

/- Append a node at the end of a circular list. -/
def clistRpush
    (mem : LinkMem H E) (list : H) (newNode : E) :
    Option (LinkMem H E) :=
  match mem (.head list) with
  | .null =>
    some ((mem.set (.entry newNode) (.ref newNode)).set (.head list) (.ref newNode))
  | .mark => none
  | .ref last =>
    some
      (((mem.set (.entry newNode) (mem (.entry last))).set
        (.entry last) (.ref newNode)).set
        (.head list) (.ref newNode))

/- Insert a node at the beginning of a circular list. -/
def clistLpush
    (mem : LinkMem H E) (list : H) (newNode : E) :
    Option (LinkMem H E) :=
  match mem (.head list) with
  | .null =>
    some ((mem.set (.entry newNode) (.ref newNode)).set (.head list) (.ref newNode))
  | .mark => none
  | .ref last =>
    some ((mem.set (.entry newNode) (mem (.entry last))).set (.entry last) (.ref newNode))

/- Remove and return the first node of a circular list. -/
def clistLpop
    (mem : LinkMem H E) (list : H) :
    Option (LinkMem H E × Option E) :=
  match mem (.head list) with
  | .null => some (mem, none)
  | .mark => none
  | .ref last =>
    match mem (.entry last) with
    | .ref first =>
      if first = last then
        some (mem.set (.head list) .null, some first)
      else
        some (mem.set (.entry last) (mem (.entry first)), some first)
    | _ => none

/- Advance a circular list by one node. -/
def clistLpoprpush
    (mem : LinkMem H E) (list : H) :
    Option (LinkMem H E) :=
  match mem (.head list) with
  | .null => some mem
  | .mark => none
  | .ref last => some (mem.set (.head list) (mem (.entry last)))

/- The counting loop, standing at `node`. -/
def clistCountFrom
    (mem : LinkMem H E) (last : E) :
    Nat → E → Nat → Option Nat
| 0, _, _ => none
| fuel + 1, node, cnt =>
  match mem (.entry node) with
  | .ref next =>
    if next = last then
      some (cnt + 1)
    else
      clistCountFrom mem last fuel next (cnt + 1)
  | _ => none

/- Count the members of a circular list. -/
def clistCount
    (fuel : Nat) (mem : LinkMem H E) (list : H) : Option Nat :=
  match mem (.head list) with
  | .null => some 0
  | .mark => none
  | .ref last => clistCountFrom mem last fuel last 0

/- The search for the predecessor of a node, behind `pos`. -/
def clistFindBeforeFrom
    (mem : LinkMem H E) (last node : E) :
    Nat → E → Option (Option E)
| 0, _ => none
| fuel + 1, pos =>
  match mem (.entry pos) with
  | .ref next =>
    if mem (.entry next) = .ref node then
      some (some next)
    else if next = last then
      some none
    else
      clistFindBeforeFrom mem last node fuel next
  | _ => none

def clistFindBefore
    (fuel : Nat) (mem : LinkMem H E) (list : H) (node : E) : Option (Option E) :=
  match mem (.head list) with
  | .null => some none
  | .mark => none
  | .ref last => clistFindBeforeFrom mem last node fuel last

/- Find and remove a node of a circular list. -/
def clistRemove
    (fuel : Nat) (mem : LinkMem H E) (list : H) (node : E) : Option (LinkMem H E × Option E) :=
  match mem (.head list) with
  | .null => some (mem, none)
  | .mark => none
  | .ref last =>
    if mem (.entry last) = .ref node then
      clistLpop mem list
    else
      match clistFindBefore fuel mem list node with
      | none => none
      | some none => some (mem, none)
      | some (some tmp) =>
        match mem (.entry tmp) with
        | .ref next =>
          some
            ((if node = last then
              (mem.set (.entry tmp) (mem (.entry next))).set (.head list) (.ref tmp)
            else
              mem.set (.entry tmp) (mem (.entry next))), some node)
        | _ => none

----
-- Null-Terminated Lists
----

open LinkMem

variable {H E : Type} [DecidableEq H] [DecidableEq E] {mem : LinkMem H E} {list : H}

/- Removing the head leaves the tail in place. -/
theorem listRemoveHead_spec
    {first : E} {rest : List E} (hList : IsList mem list (first :: rest)) :
    listRemoveHead mem list = some (mem.set (.head list) (mem (.entry first)), some first) ∧
      IsList (mem.set (.head list) (mem (.entry first))) list rest := by
  rcases hList with ⟨hNodup, hHead, hSeg⟩
  constructor
  · simp [listRemoveHead, hHead]
  · refine ⟨hNodup.of_cons, ?_⟩
    rw [set_same]
    exact hSeg.set_head

----
-- Circular Lists
----

variable {H E : Type} [DecidableEq H] [DecidableEq E] {mem mem' : LinkMem H E}
variable {list : H} {l : List E}

section

variable (hCirc : IsCircular mem list l)

include hCirc

/- Pushing a node that is not in the list prepends it. -/
theorem clistLpush_spec
    {newNode : E} (hNot : newNode ∉ l) :
    ∃ mem', clistLpush mem list newNode = some mem' ∧ IsCircular mem' list (newNode :: l) ∧
        (∀ h, h ≠ list → mem' (.head h) = mem (.head h)) ∧
        (∀ e, e ≠ newNode → e ∉ l → mem' (.entry e) = mem (.entry e)) := by
  rcases hCirc with ⟨hNodup, ⟨rfl, hNull⟩ | ⟨front, last, rfl, hRef, hSeg⟩⟩
  · refine ⟨(mem.set (.entry newNode) (.ref newNode)).set (.head list) (.ref newNode),
        by simp [clistLpush, hNull], ?_, ?_, ?_⟩
    · rw [IsCircular.singleton_iff]
      simp
    · intro h hNe
      rw [set_of_ne _ _ (by simpa using hNe), set_entry_head]
    · intro e hNe _
      rw [set_head_entry, set_of_ne _ _ (by simpa using hNe)]
  · have hLastNe : newNode ≠ last := by
      intro hEq
      exact hNot (by simp [hEq])
    have hNotFront : newNode ∉ front := by
      intro hMem
      exact hNot (by simp [hMem])
    have hLastNot : last ∉ front := by
      intro hMem
      exact (List.nodup_append.mp hNodup).2.2 last hMem last (by simp) rfl
    refine ⟨(mem.set (.entry newNode) (mem (.entry last))).set (.entry last) (.ref newNode),
        by simp [clistLpush, hRef], ?_, ?_, ?_⟩
    · rw [← List.cons_append, IsCircular.snoc_iff]
      refine ⟨List.nodup_cons.mpr ⟨hNot, hNodup⟩, ?_, ?_⟩
      · rw [set_entry_head, set_entry_head, hRef]
      · rw [set_same]
        refine ⟨rfl, ?_⟩
        rw [set_of_ne _ _ (by simpa using hLastNe), set_same]
        exact (hSeg.set_of_notMem hNotFront).set_of_notMem hLastNot
    · intro h _
      rw [set_entry_head, set_entry_head]
    · intro e hNe hNotMem
      have hNeLast : e ≠ last := by
        intro hEq
        exact hNotMem (by simp [hEq])
      rw [set_of_ne _ _ (by simpa using hNeLast), set_of_ne _ _ (by simpa using hNe)]

/- Popping removes the first node. -/
theorem clistLpop_spec :
    ∃ mem', clistLpop mem list = some (mem', l.head?) ∧ IsCircular mem' list l.tail ∧
        (∀ h, h ≠ list → mem' (.head h) = mem (.head h)) ∧
        (∀ e, e ∉ l.tail → mem' (.entry e) = mem (.entry e)) := by
  rcases hCirc with ⟨hNodup, ⟨rfl, hNull⟩ | ⟨front, last, rfl, hRef, hSeg⟩⟩
  · exact ⟨mem, by simp [clistLpop, hNull], IsCircular.nil_iff.mpr hNull,
      fun _ _ => rfl, fun _ _ => rfl⟩
  · cases front with
    | nil =>
      have hSelf : mem (.entry last) = .ref last := hSeg
      refine ⟨mem.set (.head list) .null, ?_, ?_, ?_, ?_⟩
      · simp [clistLpop, hRef, hSelf]
      · exact IsCircular.nil_iff.mpr (set_same _ _ _)
      · intro h hNe
        exact set_of_ne _ _ (by simpa using hNe)
      · intro e _
        exact set_head_entry _ _ _ _
    | cons first front =>
      rcases hSeg with ⟨hFirst, hRest⟩
      have hNe : first ≠ last := by
        intro hEq
        subst hEq
        simp at hNodup
      have hTail : (front ++ [last]).Nodup := by
        rw [List.cons_append] at hNodup
        exact hNodup.of_cons
      have hLastNot : last ∉ front := by
        intro hMem
        exact (List.nodup_append.mp hTail).2.2 last hMem last (by simp) rfl
      refine ⟨mem.set (.entry last) (mem (.entry first)), ?_, ?_, ?_, ?_⟩
      · simp [clistLpop, hRef, hFirst, hNe]
      · rw [List.cons_append, List.tail_cons, IsCircular.snoc_iff]
        refine ⟨hTail, by simpa using hRef, ?_⟩
        rw [set_same]
        exact hRest.set_of_notMem hLastNot
      · intro h _
        exact set_entry_head _ _ _ _
      · intro e hNotMem
        apply set_of_ne
        intro hEq
        cases hEq
        exact hNotMem (by simp)

/- Advancing moves the first node to the end. -/
theorem clistLpoprpush_spec :
    ∃ mem', clistLpoprpush mem list = some mem' ∧ IsCircular mem' list (l.rotate 1) ∧
        (∀ h, h ≠ list → mem' (.head h) = mem (.head h)) ∧
        (∀ e, mem' (.entry e) = mem (.entry e)) := by
  rcases hCirc with ⟨hNodup, ⟨rfl, hNull⟩ | ⟨front, last, rfl, hRef, hSeg⟩⟩
  · exact ⟨mem, by simp [clistLpoprpush, hNull], IsCircular.nil_iff.mpr hNull,
      fun _ _ => rfl, fun _ => rfl⟩
  · refine ⟨mem.set (.head list) (mem (.entry last)), by simp [clistLpoprpush, hRef], ?_, ?_, ?_⟩
    · cases front with
      | nil =>
        have hSelf : mem (.entry last) = .ref last := hSeg
        rw [List.nil_append, List.rotate_singleton, IsCircular.singleton_iff]
        simp [hSelf]
      | cons first front =>
        rcases hSeg with ⟨hFirst, hRest⟩
        rw [List.cons_append, List.rotate_cons_succ, List.rotate_zero, IsCircular.snoc_iff]
        refine ⟨?_, by simp [hFirst], ?_⟩
        · have hPerm : (front ++ [last] ++ [first]).Perm (first :: front ++ [last]) := by
            simpa using (List.perm_append_singleton first (front ++ [last]))
          exact hPerm.nodup_iff.mpr hNodup
        · rw [set_head_entry, Seg.snoc_iff]
          exact ⟨hRest.set_head, by simp [hFirst]⟩
    · intro h hNe
      exact set_of_ne _ _ (by simpa using hNe)
    · intro e
      exact set_head_entry _ _ _ _

/- Pushing a node that is not in the list appends it. -/
theorem clistRpush_spec
    {newNode : E} (hNot : newNode ∉ l) :
    ∃ mem', clistRpush mem list newNode = some mem' ∧ IsCircular mem' list (l ++ [newNode]) ∧
        (∀ h, h ≠ list → mem' (.head h) = mem (.head h)) ∧
        (∀ e, e ≠ newNode → e ∉ l → mem' (.entry e) = mem (.entry e)) := by
  -- the node goes in front, and the list is turned
  have hTurns : clistRpush mem list newNode =
      (clistLpush mem list newNode).bind (clistLpoprpush · list) := by
    unfold clistRpush clistLpush
    cases hHead : mem (.head list) with
    | null => simp [clistLpoprpush, LinkMem.set]
    | mark => rfl
    | ref last => simp [clistLpoprpush, hHead]
  rcases clistLpush_spec hCirc hNot with ⟨mem₁, hPush, hCirc₁, hHeads, hEntries⟩
  rcases clistLpoprpush_spec hCirc₁ with ⟨mem', hTurn, hCirc', hHeads', hEntries'⟩
  refine ⟨mem', by rw [hTurns, hPush]; exact hTurn, by simpa using hCirc', ?_, ?_⟩
  · intro h hNe
    rw [hHeads' h hNe, hHeads h hNe]
  · intro e hNe hNotMem
    rw [hEntries', hEntries e hNe hNotMem]

/-
  Pushing a node that is already in the list keeps a
  circular list: the nodes up to the pushed one remain when
  it was not the last node, and the node alone otherwise.
-/
theorem clistRpush_of_mem
    {newNode : E} (hMem : newNode ∈ l) :
    ∃ mem' l', clistRpush mem list newNode = some mem' ∧ IsCircular mem' list l' ∧
        newNode ∈ l' ∧ (∀ e ∈ l', e ∈ l) ∧ (∀ h, h ≠ list → mem' (.head h) = mem (.head h)) ∧
        (∀ e, e ∉ l → mem' (.entry e) = mem (.entry e)) := by
  rcases hCirc with ⟨hNodup, ⟨rfl, _⟩ | ⟨front, last, rfl, hRef, hSeg⟩⟩
  · simp at hMem
  · have hLastNot : last ∉ front := by
      intro hIn
      exact (List.nodup_append.mp hNodup).2.2 last hIn last (by simp) rfl
    have hHeads : ∀ h, h ≠ list → (((mem.set (.entry newNode)
            (mem (.entry last))).set (.entry last)
            (.ref newNode)).set (.head list)
            (.ref newNode)) (.head h) = mem (.head h) := by
      intro h hNe
      rw [set_of_ne _ _ (by simpa using hNe), set_entry_head, set_entry_head]
    have hEntries : ∀ e, e ∉ front ++ [last] → (((mem.set (.entry newNode)
            (mem (.entry last))).set (.entry last)
            (.ref newNode)).set (.head list)
            (.ref newNode)) (.entry e) = mem (.entry e) := by
      intro e hNotMem
      have hNeLast : e ≠ last := by
        intro hEq
        exact hNotMem (by simp [hEq])
      have hNeNew : e ≠ newNode := by
        intro hEq
        exact hNotMem (hEq ▸ hMem)
      rw [set_head_entry, set_of_ne _ _ (by simpa using hNeLast),
        set_of_ne _ _ (by simpa using hNeNew)]
    have hPush : clistRpush mem list newNode = some
            (((mem.set (.entry newNode) (mem (.entry last))).set (.entry last)
              (.ref newNode)).set (.head list)
              (.ref newNode)) := by
      simp [clistRpush, hRef]
    by_cases hEq : newNode = last
    · subst hEq
      refine ⟨_, [newNode], hPush, ?_, by simp, by simp, hHeads, hEntries⟩
      rw [IsCircular.singleton_iff]
      simp
    · have hInFront : newNode ∈ front := by
        simpa [hEq] using hMem
      rcases List.append_of_mem hInFront with ⟨before, after, rfl⟩
      rcases Seg.append_iff.mp hSeg with ⟨mid, hBefore, rfl, _⟩
      have hNewNot : newNode ∉ before := by
        intro hIn
        have hSplit := (List.nodup_append.mp (List.nodup_append.mp hNodup).1).2.2
        exact hSplit newNode hIn newNode (by simp) rfl
      have hLastNotBefore : last ∉ before := fun hIn => hLastNot (by simp [hIn])
      refine ⟨_, before ++ [newNode], hPush, ?_, by simp, ?_, hHeads, hEntries⟩
      · rw [IsCircular.snoc_iff]
        have hSeg' := ((hBefore.set_of_notMem (v := mem (.entry last)) hNewNot).set_of_notMem
            (v := .ref newNode) hLastNotBefore).set_head
              (h := list) (v := .ref newNode)
        refine ⟨IsCircular.nodup_of_seg hBefore hNewNot, set_same _ _ _, ?_⟩
        rw [set_head_entry, set_of_ne _ _ (by simpa using hEq), set_same]
        exact hSeg'
      · intro e hIn
        simp only [List.mem_append, List.mem_singleton] at hIn
        rcases hIn with hIn | rfl
        · simp [hIn]
        · simp

end

----
-- Counting
----

variable {H E : Type} [DecidableEq E] {mem : LinkMem H E} {list : H} {l : List E}

/- The loop counts the members of a segment and its end. -/
theorem clistCountFrom_eq
    {fuel cnt : Nat} {node last : E} {front : List E}
    (hSeg : Seg mem (mem (.entry node)) front (.ref last)) (hNot : last ∉ front)
    (hFuel : front.length < fuel) :
    clistCountFrom mem last fuel node cnt = some (cnt + front.length + 1) := by
  induction front generalizing fuel cnt node with
  | nil =>
    have hNext : mem (.entry node) = .ref last := hSeg
    cases fuel with
    | zero => simp at hFuel
    | succ fuel => simp [clistCountFrom, hNext]
  | cons x front ih =>
    rcases hSeg with ⟨hNext, hRest⟩
    rcases List.ne_and_not_mem_of_not_mem_cons hNot with ⟨hNe, hNotFront⟩
    cases fuel with
    | zero => simp at hFuel
    | succ fuel =>
      simp only [clistCountFrom, hNext, Ne.symm hNe, if_false]
      rw [ih hRest hNotFront (by simpa using hFuel)]
      congr 1
      rw [List.length_cons]
      omega

/- A loop that ends has walked a segment to `last`. -/
theorem clistCountFrom_some
    {fuel cnt n : Nat} {node last : E}
    (hCount : clistCountFrom mem last fuel node cnt = some n) :
    ∃ front, Seg mem (mem (.entry node)) front (.ref last) ∧ last ∉ front ∧
        n = cnt + front.length + 1 := by
  induction fuel generalizing cnt node with
  | zero => simp [clistCountFrom] at hCount
  | succ fuel ih =>
    simp only [clistCountFrom] at hCount
    split at hCount
    · rename_i next hNext
      split at hCount
      · rename_i hEq
        subst hEq
        refine ⟨[], hNext, by simp, ?_⟩
        simpa using hCount.symm
      · rename_i hNe
        rcases ih hCount with ⟨front, hSeg, hNot, hn⟩
        refine ⟨next :: front, ⟨hNext, hSeg⟩, ?_, ?_⟩
        · simp only [List.mem_cons, not_or]
          exact ⟨Ne.symm hNe, hNot⟩
        · rw [hn, List.length_cons]
          omega
    · simp at hCount

/- Counting a circular list returns its length. -/
theorem clistCount_eq
    {fuel : Nat} (hCirc : IsCircular mem list l) (hFuel : l.length ≤ fuel) :
    clistCount fuel mem list = some l.length := by
  rcases hCirc with ⟨hNodup, ⟨rfl, hNull⟩ | ⟨front, last, rfl, hRef, hSeg⟩⟩
  · simp [clistCount, hNull]
  · have hNot : last ∉ front := by
      intro hIn
      exact (List.nodup_append.mp hNodup).2.2 last hIn last (by simp) rfl
    rw [List.length_append, List.length_singleton] at hFuel ⊢
    simp only [clistCount, hRef]
    rw [clistCountFrom_eq hSeg hNot (by omega)]
    simp

/- A count that ends certifies a circular list. -/
theorem clistCount_some
    {fuel n : Nat} (hCount : clistCount fuel mem list = some n) :
    ∃ l, IsCircular mem list l ∧ l.length = n := by
  unfold clistCount at hCount
  split at hCount
  · rename_i hNull
    refine ⟨[], IsCircular.nil_iff.mpr hNull, ?_⟩
    simpa using hCount
  · simp at hCount
  · rename_i last hRef
    rcases clistCountFrom_some hCount with ⟨front, hSeg, hNot, hn⟩
    refine ⟨front ++ [last], ?_, ?_⟩
    · exact IsCircular.snoc_iff.mpr ⟨IsCircular.nodup_of_seg hSeg hNot, hRef, hSeg⟩
    · rw [List.length_append, List.length_singleton]
      omega

----
-- Removal
----

variable {H E : Type} [DecidableEq H] [DecidableEq E] {mem : LinkMem H E}
variable {list : H} {l : List E} {node : E}

/- A node that follows none of the others is not found. -/
theorem clistFindBeforeFrom_none
    {fuel : Nat} {pos last : E} {front : List E}
    (hSeg : Seg mem (mem (.entry pos)) front (.ref last)) (hNot : last ∉ front)
    (hNode : node ∉ (front ++ [last]).tail) (hFirst : mem (.entry last) ≠ .ref node)
    (hFuel : front.length < fuel) :
    clistFindBeforeFrom mem last node fuel pos = some none := by
  induction front generalizing fuel pos with
  | nil =>
    have hNext : mem (.entry pos) = .ref last := hSeg
    cases fuel with
    | zero => simp at hFuel
    | succ fuel => simp [clistFindBeforeFrom, hNext, hFirst]
  | cons x front ih =>
    rcases hSeg with ⟨hNext, hRest⟩
    rcases List.ne_and_not_mem_of_not_mem_cons hNot with ⟨hNe, hNotFront⟩
    have hAfter : mem (.entry x) ≠ .ref node := by
      intro hRef
      rcases hRest.start_ref with ⟨y, hy, hEq⟩
      rw [hRef] at hEq hRest
      cases hEq
      exact hNode hy
    cases fuel with
    | zero => simp at hFuel
    | succ fuel =>
      simp only [clistFindBeforeFrom, hNext, hAfter, Ne.symm hNe, if_false]
      refine ih hRest hNotFront ?_ (by simpa using hFuel)
      intro hIn
      exact hNode (List.mem_of_mem_tail hIn)

/- The node before the first occurrence is found. -/
theorem clistFindBeforeFrom_some
    {fuel : Nat} {pos last tmp : E} {front before after : List E}
    (hSeg : Seg mem (mem (.entry pos)) front (.ref last)) (hNot : last ∉ front)
    (hSplit : front ++ [last] = before ++ tmp :: node :: after)
    (hBefore : node ∉ before ++ [tmp]) (hFuel : front.length < fuel) :
    clistFindBeforeFrom mem last node fuel pos = some (some tmp) := by
  induction before generalizing fuel pos front with
  | nil =>
    cases front with
    | nil => simp at hSplit
    | cons x front =>
      rcases hSeg with ⟨hNext, hRest⟩
      rw [List.cons_append, List.nil_append] at hSplit
      rcases List.cons.inj hSplit with ⟨rfl, hTail⟩
      have hAfter : mem (.entry x) = .ref node := by
        cases front with
        | nil =>
          rcases List.cons.inj hTail with ⟨rfl, _⟩
          exact hRest
        | cons y front =>
          rcases List.cons.inj hTail with ⟨rfl, _⟩
          exact hRest.1
      cases fuel with
      | zero => simp at hFuel
      | succ fuel => simp [clistFindBeforeFrom, hNext, hAfter]
  | cons z before ih =>
    cases front with
    | nil => simp at hSplit
    | cons x front =>
      rcases hSeg with ⟨hNext, hRest⟩
      rcases List.ne_and_not_mem_of_not_mem_cons hNot with ⟨hNe, hNotFront⟩
      rw [List.cons_append, List.cons_append] at hSplit
      rcases List.cons.inj hSplit with ⟨rfl, hTail⟩
      have hNotBefore : node ∉ before ++ [tmp] := by
        intro hIn
        exact hBefore (List.mem_cons_of_mem _ hIn)
      -- the node behind `x` is before `tmp`, or `tmp`
      have hAfter : mem (.entry x) ≠ .ref node := by
        intro hRef
        rw [hRef] at hRest
        cases before with
        | nil =>
          cases front with
          | nil => simp at hTail
          | cons y front =>
            rcases List.cons.inj hTail with ⟨rfl, _⟩
            cases hRest.1
            simp at hNotBefore
        | cons w before =>
          cases front with
          | nil => simp at hTail
          | cons y front =>
            rcases List.cons.inj hTail with ⟨rfl, _⟩
            cases hRest.1
            simp at hNotBefore
      cases fuel with
      | zero => simp at hFuel
      | succ fuel =>
        simp only [clistFindBeforeFrom, hNext, hAfter, Ne.symm hNe, if_false]
        exact ih hRest hNotFront hTail hNotBefore (by simpa using hFuel)

/- What is found is a predecessor. -/
theorem clistFindBeforeFrom_link
    {fuel : Nat} {pos last tmp : E}
    (hFound : clistFindBeforeFrom mem last node fuel pos = some (some tmp)) :
    mem (.entry tmp) = .ref node := by
  induction fuel generalizing pos with
  | zero => simp [clistFindBeforeFrom] at hFound
  | succ fuel ih =>
    simp only [clistFindBeforeFrom] at hFound
    split at hFound
    · split at hFound
      · rename_i hLink
        cases hFound
        exact hLink
      · split at hFound
        · cases hFound
        · exact ih hFound
    · cases hFound

/- The node after `tmp` is bypassed in the middle of a list. -/
theorem isCircular_bypass
    {last tmp : E} {before after : List E}
    (hCirc : IsCircular mem list (before ++ tmp :: node :: (after ++ [last]))) :
    IsCircular (mem.set (.entry tmp) (mem (.entry node))) list
      (before ++ tmp :: (after ++ [last])) := by
  have hEq :
      before ++ tmp :: node :: (after ++ [last]) = (before ++ tmp :: node :: after) ++ [last] := by
    simp
  have hEq' : before ++ tmp :: (after ++ [last]) = (before ++ tmp :: after) ++ [last] := by
    simp
  rw [hEq, IsCircular.snoc_iff] at hCirc
  rcases hCirc with ⟨hNodup, hRef, hSeg⟩
  rcases Seg.append_iff.mp hSeg with ⟨_, hFront, rfl, hLink, hAfter⟩
  rw [hEq', IsCircular.snoc_iff]
  have hParts :
      (tmp ∉ before ∧ tmp ∉ after ∧ last ≠ tmp) ∧ ((before ++ tmp :: after) ++ [last]).Nodup := by
    grind
  rcases hParts with ⟨⟨hBefore, hTail, hNe⟩, hNodup'⟩
  refine ⟨hNodup', by rw [set_entry_head, hRef], ?_⟩
  rw [set_of_ne _ _ (by simpa using hNe), Seg.append_iff]
  refine ⟨.ref tmp, hFront.set_of_notMem hBefore, rfl, ?_⟩
  rw [set_same]
  exact hAfter.set_of_notMem hTail

/- The last node is bypassed, and `tmp` becomes the last. -/
theorem isCircular_dropLast
    {tmp : E} {before : List E}
    (hCirc : IsCircular mem list (before ++ [tmp, node])) :
    IsCircular ((mem.set (.entry tmp) (mem (.entry node))).set
        (.head list) (.ref tmp)) list (before ++ [tmp]) := by
  have hEq : before ++ [tmp, node] = (before ++ [tmp]) ++ [node] := by
    simp
  rw [hEq, IsCircular.snoc_iff] at hCirc
  rcases hCirc with ⟨hNodup, _, hSeg⟩
  rcases Seg.snoc_iff.mp hSeg with ⟨hFront, hLink⟩
  have hNodup' := (List.nodup_append.mp hNodup).1
  have hNot : tmp ∉ before := by
    intro hIn
    exact (List.nodup_append.mp hNodup').2.2 tmp hIn tmp (by simp) rfl
  rw [IsCircular.snoc_iff]
  refine ⟨hNodup', set_same _ _ _, ?_⟩
  rw [set_head_entry, set_same]
  exact (hFront.set_of_notMem hNot).set_head

/- A node that is not the first has a node before it. -/
theorem exists_split_before
    {x : E} {rest : List E} (hNodup : (x :: rest).Nodup) (hIn : node ∈ rest) :
    ∃ before tmp after, x :: rest = before ++ tmp :: node :: after ∧ node ∉ before ++ [tmp] := by
  rcases List.append_of_mem hIn with ⟨mid, after, rfl⟩
  have hNot : node ∉ x :: mid := by
    grind
  rcases List.eq_nil_or_concat (x :: mid) with hNil | ⟨before, tmp, hSnoc⟩
  · cases hNil
  · rw [List.concat_eq_append] at hSnoc
    refine ⟨before, tmp, after, ?_, hSnoc ▸ hNot⟩
    rw [← List.cons_append, hSnoc]
    simp

/- Removing a node leaves the others in their order. -/
theorem clistRemove_spec
    {fuel : Nat} (hCirc : IsCircular mem list l) (hFuel : l.length ≤ fuel) :
    ∃ mem' res, clistRemove fuel mem list node = some (mem', res) ∧
        IsCircular mem' list (l.erase node) ∧ (∀ h, h ≠ list → mem' (.head h) = mem (.head h)) ∧
        (∀ e, e ∉ l.erase node → mem' (.entry e) = mem (.entry e)) := by
  have hCirc' := hCirc
  rcases hCirc' with ⟨hNodup, ⟨rfl, hNull⟩ | ⟨front, last, rfl, hRef, hSeg⟩⟩
  · exact ⟨mem, none, by simp [clistRemove, hNull], hCirc, fun _ _ => rfl, fun _ _ => rfl⟩
  have hLast : last ∉ front := by
    intro hIn
    exact (List.nodup_append.mp hNodup).2.2 last hIn last (by simp) rfl
  have hFuel' : front.length < fuel := by
    rw [List.length_append, List.length_singleton] at hFuel
    omega
  by_cases hFirst : mem (.entry last) = .ref node
  · -- the first node is popped
    have hCons : ∃ rest, front ++ [last] = node :: rest := by
      cases front with
      | nil =>
        have hSelf : mem (.entry last) = .ref last := hSeg
        rw [hFirst] at hSelf
        cases hSelf
        exact ⟨[], rfl⟩
      | cons x front =>
        have hx := hSeg.1
        rw [hFirst] at hx
        cases hx
        exact ⟨front ++ [last], rfl⟩
    rcases hCons with ⟨rest, hRest⟩
    rcases clistLpop_spec hCirc with ⟨mem', hPop, hTail, hHeads, hEntries⟩
    rw [hRest, List.tail_cons] at hTail hEntries
    rw [hRest, List.erase_cons_head]
    refine ⟨mem', (front ++ [last]).head?, ?_, hTail, hHeads, hEntries⟩
    rw [clistRemove, hRef]
    exact (if_pos hFirst).trans hPop
  by_cases hIn : node ∈ front ++ [last]
  · have hCons : ∃ y rest, front ++ [last] = y :: rest ∧ mem (.entry last) = .ref y := by
      cases front with
      | nil => exact ⟨last, [], rfl, hSeg⟩
      | cons y front => exact ⟨y, front ++ [last], rfl, hSeg.1⟩
    rcases hCons with ⟨y, rest, hRest, hy⟩
    have hInRest : node ∈ rest := by
      rw [hRest] at hIn
      rcases List.mem_cons.mp hIn with rfl | hIn
      · exact absurd hy hFirst
      · exact hIn
    rcases exists_split_before (hRest ▸ hNodup) hInRest with ⟨before, tmp, after, hSplit, hNot⟩
    rw [← hRest] at hSplit
    have hErase : (front ++ [last]).erase node = before ++ tmp :: after := by
      have hAssoc : before ++ tmp :: node :: after = (before ++ [tmp]) ++ node :: after := by
        simp
      rw [hSplit, hAssoc, List.erase_append_right _ hNot, List.erase_cons_head]
      simp
    have hFound := clistFindBeforeFrom_some hSeg hLast hSplit hNot hFuel'
    have hTmp := clistFindBeforeFrom_link hFound
    have hRemove : clistRemove fuel mem list node = some
            ((if node = last then
              (mem.set (.entry tmp) (mem (.entry node))).set (.head list) (.ref tmp)
            else
              mem.set (.entry tmp) (mem (.entry node))), some node) := by
      simp [clistRemove, clistFindBefore, hRef, hFirst, hFound, hTmp]
    have hOthers : ∀ e, e ∉ before ++ tmp :: after →
          mem.set (.entry tmp) (mem (.entry node)) (.entry e) = mem (.entry e) := by
      intro e he
      apply set_of_ne
      intro hEq
      cases hEq
      exact he (by simp)
    rw [hErase, hRemove]
    rw [hSplit] at hCirc
    rcases List.eq_nil_or_concat after with
      rfl | ⟨mid, tail, rfl⟩
    · have hSnoc : front ++ [last] = (before ++ [tmp]) ++ [node] := by
        simpa using hSplit
      have hEq : node = last := by
        simpa using (List.append_inj' hSnoc rfl).2.symm
      rw [if_pos hEq]
      refine ⟨_, _, rfl, isCircular_dropLast hCirc, ?_, ?_⟩
      · intro h hNe
        rw [set_of_ne _ _ (by simpa using hNe), set_entry_head]
      · intro e he
        rw [set_head_entry]
        exact hOthers e he
    · rw [List.concat_eq_append] at *
      have hSnoc : front ++ [last] = (before ++ tmp :: node :: mid) ++ [tail] := by
        simpa using hSplit
      have hEnd : last = tail := by
        simpa using (List.append_inj' hSnoc rfl).2
      have hNe : node ≠ last := by
        rw [hSnoc] at hNodup
        rw [hEnd]
        intro hEq
        exact (List.nodup_append.mp hNodup).2.2 node (by simp) tail (by simp) hEq
      rw [if_neg hNe]
      refine ⟨_, _, rfl, isCircular_bypass hCirc, ?_, hOthers⟩
      exact fun h _ => set_entry_head _ _ _ _
  · have hErase := List.erase_of_not_mem hIn
    rw [hErase]
    refine ⟨mem, none, ?_, hCirc, fun _ _ => rfl, fun _ _ => rfl⟩
    have hNone := clistFindBeforeFrom_none hSeg hLast
      (fun hTail => hIn (List.mem_of_mem_tail hTail)) hFirst
      hFuel'
    simp [clistRemove, clistFindBefore, hRef, hFirst, hNone]

end Riot

----
-- Operations Within a Region
----

/-
  What the operations do to memory that need not hold any
  list: they stay inside a confined region and change no
  other list reference.
-/

namespace Riot

open LinkMem

variable {H E : Type} [DecidableEq H] [DecidableEq E] {r : Region H E}
variable {mem mem' : LinkMem H E} {list : H}

section

variable (hConf : r.Confined mem) (hList : r.cells (.head list))

include hConf hList

/- Removing the first member. -/
theorem listRemoveHead_within
    {first : Option E} (hRemove : listRemoveHead mem list = some (mem', first)) :
    r.Within mem mem' ∧ (∀ e, first = some e → r.members e) ∧
      (∀ h, h ≠ list → mem' (.head h) = mem (.head h)) ∧
      (∀ e, mem' (.entry e) = mem (.entry e)) := by
  unfold listRemoveHead at hRemove
  split at hRemove
  · cases hRemove
    exact ⟨.refl hConf, by simp, fun _ _ => rfl, fun _ => rfl⟩
  · cases hRemove
  · rename_i e hRef
    cases hRemove
    have hMem := hConf _ hList e hRef
    refine ⟨(Region.Within.refl hConf).set hList ?_, ?_, ?_, ?_⟩
    · intro x hx
      exact hConf _ (r.entry_cells e hMem) x hx
    · intro x hx
      cases hx
      exact hMem
    · intro h hNe
      exact set_of_ne _ _ (by simpa using hNe)
    · intro x
      exact set_head_entry _ _ _ _

/- Appending a member of the region. -/
theorem clistRpush_within
    {newNode : E} (hNew : r.members newNode)
    (hPush : clistRpush mem list newNode = some mem') :
    r.Within mem mem' ∧ mem' (.head list) = .ref newNode ∧
      (∀ h, h ≠ list → mem' (.head h) = mem (.head h)) := by
  have hNewRef : ∀ e, Link.ref newNode = .ref e → r.members e := by
    intro e he
    cases he
    exact hNew
  have hEntry := r.entry_cells newNode hNew
  unfold clistRpush at hPush
  split at hPush
  · cases hPush
    refine ⟨?_, by simp, ?_⟩
    · exact ((Region.Within.refl hConf).set hEntry hNewRef).set hList hNewRef
    · intro h hNe
      rw [set_of_ne _ _ (by simpa using hNe), set_entry_head]
  · cases hPush
  · rename_i last hRef
    cases hPush
    have hLast := r.entry_cells last (hConf _ hList last hRef)
    refine ⟨?_, by simp, ?_⟩
    · refine (((Region.Within.refl hConf).set hEntry ?_).set hLast hNewRef).set hList hNewRef
      exact fun x hx => hConf _ hLast x hx
    · intro h hNe
      rw [set_of_ne _ _ (by simpa using hNe), set_entry_head, set_entry_head]

/- Removing the first node. -/
theorem clistLpop_within
    {first : Option E} (hPop : clistLpop mem list = some (mem', first)) :
    r.Within mem mem' ∧ (∀ h, h ≠ list → mem' (.head h) = mem (.head h)) := by
  unfold clistLpop at hPop
  split at hPop
  · cases hPop
    exact ⟨.refl hConf, fun _ _ => rfl⟩
  · cases hPop
  · rename_i last hRef
    have hLast := r.entry_cells last (hConf _ hList last hRef)
    split at hPop
    · rename_i node hNode
      have hFirst := r.entry_cells node (hConf _ hLast node hNode)
      split at hPop
      · cases hPop
        refine ⟨(Region.Within.refl hConf).set hList ?_, ?_⟩
        · intro e he
          cases he
        · intro h hNe
          exact set_of_ne _ _ (by simpa using hNe)
      · cases hPop
        refine ⟨(Region.Within.refl hConf).set hLast ?_, ?_⟩
        · exact fun e he => hConf _ hFirst e he
        · intro h _
          exact set_entry_head _ _ _ _
    · cases hPop

/- Advancing. -/
theorem clistLpoprpush_within
    (hTurn : clistLpoprpush mem list = some mem') :
    r.Within mem mem' ∧ (∀ h, h ≠ list → mem' (.head h) = mem (.head h)) ∧
      (∀ e, mem' (.entry e) = mem (.entry e)) := by
  unfold clistLpoprpush at hTurn
  split at hTurn
  · cases hTurn
    exact ⟨.refl hConf, fun _ _ => rfl, fun _ => rfl⟩
  · cases hTurn
  · rename_i last hRef
    cases hTurn
    have hLast := r.entry_cells last (hConf _ hList last hRef)
    refine ⟨(Region.Within.refl hConf).set hList ?_, ?_, ?_⟩
    · exact fun e he => hConf _ hLast e he
    · intro h hNe
      exact set_of_ne _ _ (by simpa using hNe)
    · intro e
      exact set_head_entry _ _ _ _

end

end Riot
