import Riot.Core.Clist
import Mathlib.Data.List.Cycle

/-
  The remaining operations of `clist.h`, and every one of
  them against the sequence that a circular list represents.
-/

----
-- Operations
----

namespace Riot

variable {H E σ : Type} [DecidableEq H] [DecidableEq E]

/-
  A pointer value that is returned as a node. The marker
  designates no object and is not a node.
-/
def linkTarget : Link E → Option (Option E)
  | .null => some none
  | .mark => none
  | .ref e => some (some e)

/- The first node of a circular list. -/
def clistLpeek
    (mem : LinkMem H E) (list : H) :
    Option (Option E) :=
  match mem (.head list) with
  | .null => some none
  | .mark => none
  | .ref last => linkTarget (mem (.entry last))

/- The last node of a circular list. -/
def clistRpeek
    (mem : LinkMem H E) (list : H) :
    Option (Option E) :=
  linkTarget (mem (.head list))

/- Turn the list until the node before `last` is its end. -/
def clistRpopTurn
    (list : H) (last : E) :
    Nat → LinkMem H E → Option (LinkMem H E)
  | 0, _ => none
  | fuel + 1, mem =>
    match mem (.head list) with
    | .ref pos =>
      if mem (.entry pos) = .ref last then
        some mem
      else
        match clistLpoprpush mem list with
        | none => none
        | some mem => clistRpopTurn list last fuel mem
    | _ => none

/- Remove and return the last node of a circular list. -/
def clistRpop
    (fuel : Nat) (mem : LinkMem H E) (list : H) :
    Option (LinkMem H E × Option E) :=
  match mem (.head list) with
  | .null => some (mem, none)
  | .mark => none
  | .ref last =>
    match clistRpopTurn list last fuel mem with
    | none => none
    | some mem => clistLpop mem list

/- Find a node, through the node before it. -/
def clistFind
    (fuel : Nat) (mem : LinkMem H E) (list : H) (node : E) : Option (Option E) :=
  match clistFindBefore fuel mem list node with
  | none => none
  | some none => some none
  | some (some tmp) => linkTarget (mem (.entry tmp))

/-
  The traversal, standing at `node`. The callback returns a
  number and may change what `arg` refers to.
-/
def clistForeachFrom
    (mem : LinkMem H E) (func : E → σ → Int × σ) (last : E) :
    Nat → E → σ → Option (Option E × σ)
  | 0, _, _ => none
  | fuel + 1, node, arg =>
    match mem (.entry node) with
    | .ref next =>
      if (func next arg).1 ≠ 0 then
        some (some next, (func next arg).2)
      else if next = last then
        some (none, (func next arg).2)
      else
        clistForeachFrom mem func last fuel next (func next arg).2
    | _ => none

/- Call a function for each member, until it returns nonzero. -/
def clistForeach
    (fuel : Nat) (mem : LinkMem H E) (list : H) (func : E → σ → Int × σ)
    (arg : σ) : Option (Option E × σ) :=
  match mem (.head list) with
  | .null => some (none, arg)
  | .mark => none
  | .ref last => clistForeachFrom mem func last fuel last arg

/- The operations on one list reference. -/
inductive ClistOp (E σ : Type) where
  | lpush (newNode : E)
  | rpush (newNode : E)
  | lpop
  | rpop
  | lpoprpush
  | lpeek
  | rpeek
  | find (node : E)
  | findBefore (node : E)
  | remove (node : E)
  | count
  | foreach (func : E → σ → Int × σ) (arg : σ)

/- What an operation returns. -/
inductive ClistResult (E σ : Type) where
  | done
  | node (res : Option E)
  | number (cnt : Nat)
  | visited (res : Option E) (arg : σ)
deriving DecidableEq

/- Perform an operation on the list at `list`. -/
def ClistOp.run
    (fuel : Nat) (list : H) (mem : LinkMem H E) :
    ClistOp E σ → Option (LinkMem H E × ClistResult E σ)
  | .lpush newNode => (clistLpush mem list newNode).map (·, .done)
  | .rpush newNode => (clistRpush mem list newNode).map (·, .done)
  | .lpop => (clistLpop mem list).map (fun r => (r.1, .node r.2))
  | .rpop => (clistRpop fuel mem list).map (fun r => (r.1, .node r.2))
  | .lpoprpush => (clistLpoprpush mem list).map (·, .done)
  | .lpeek => (clistLpeek mem list).map (fun r => (mem, .node r))
  | .rpeek => (clistRpeek mem list).map (fun r => (mem, .node r))
  | .find node => (clistFind fuel mem list node).map (fun r => (mem, .node r))
  | .findBefore node => (clistFindBefore fuel mem list node).map (fun r => (mem, .node r))
  | .remove node => (clistRemove fuel mem list node).map (fun r => (r.1, .node r.2))
  | .count => (clistCount fuel mem list).map (fun n => (mem, .number n))
  | .foreach func arg =>
    (clistForeach fuel mem list func arg).map (fun r => (mem, .visited r.1 r.2))

----
-- Sequences
----

variable {E σ : Type} [DecidableEq E]

/- A traversal of a sequence stops at a nonzero result. -/
def visitSeq
    (func : E → σ → Int × σ) :
    List E → σ → Option E × σ
  | [], arg => (none, arg)
  | e :: l, arg =>
    if (func e arg).1 ≠ 0 then
      (some e, (func e arg).2)
    else
      visitSeq func l (func e arg).2

/- The cyclic predecessor of a member of a sequence. -/
def predSeq
    (l : List E) (node : E) : Option E :=
  if hMem : node ∈ l then some (l.prev node hMem) else none

/- A member that is looked up in a sequence. -/
def findSeq
    (l : List E) (node : E) : Option E :=
  if node ∈ l then some node else none

/- What an operation makes of the sequence, and returns. -/
def ClistOp.apply
    (l : List E) :
    ClistOp E σ → List E × ClistResult E σ
  | .lpush newNode => (newNode :: l, .done)
  | .rpush newNode => (l ++ [newNode], .done)
  | .lpop => (l.tail, .node l.head?)
  | .rpop => (l.dropLast, .node l.getLast?)
  | .lpoprpush => (l.rotate 1, .done)
  | .lpeek => (l, .node l.head?)
  | .rpeek => (l, .node l.getLast?)
  | .find node => (l, .node (findSeq l node))
  | .findBefore node => (l, .node (predSeq l node))
  | .remove node => (l.erase node, .node (findSeq l node))
  | .count => (l, .number l.length)
  | .foreach func arg => (l, .visited (visitSeq func l arg).1 (visitSeq func l arg).2)

/- The node that an operation links in. -/
def ClistOp.linked : ClistOp E σ → Option E
  | .lpush newNode => some newNode
  | .rpush newNode => some newNode
  | _ => none

/-
  A node has one link, so a node that is pushed is not yet on
  the list.
-/
def ClistOp.Fresh
    (l : List E) (op : ClistOp E σ) : Prop :=
  ∀ e, op.linked = some e → e ∉ l

----
-- Links and Neighbours
----

open LinkMem

variable {H E : Type} {mem : LinkMem H E} {list : H} {l : List E}

/- Inside a segment each node links to the one behind it. -/
theorem seg_getElem
    {p q : Link E} {i : Nat} (hSeg : Seg mem p l q) (hIdx : i + 1 < l.length) :
    mem (.entry l[i]) = .ref l[i + 1] := by
  induction l generalizing p i with
  | nil => simp at hIdx
  | cons x l ih =>
    rcases hSeg with ⟨_, hRest⟩
    cases i with
    | zero =>
      cases l with
      | nil => simp at hIdx
      | cons y l => exact hRest.1
    | succ i => exact ih hRest (by simpa using hIdx)

/- The reference and the link of the last node. -/
theorem circular_first
    {x : E} {rest : List E} (hCirc : IsCircular mem list (x :: rest)) :
    ∃ last, (x :: rest).getLast? = some last ∧ mem (.head list) = .ref last ∧
        mem (.entry last) = .ref x := by
  rcases hCirc with ⟨_, ⟨hNil, _⟩ | ⟨front, last, hEq, hRef, hSeg⟩⟩
  · cases hNil
  · refine ⟨last, by simp [hEq], hRef, ?_⟩
    cases front with
    | nil =>
      rcases List.cons.inj hEq with ⟨rfl, _⟩
      exact hSeg
    | cons y front =>
      rcases List.cons.inj hEq with ⟨rfl, _⟩
      exact hSeg.1

variable [DecidableEq E]

/- Each node of a circular list links to the next one. -/
theorem circular_next
    {e : E} (hCirc : IsCircular mem list l) (hMem : e ∈ l) :
    mem (.entry e) = .ref (l.next e hMem) := by
  have hNodup := hCirc.1
  rcases List.getElem_of_mem hMem with ⟨i, hIdx, rfl⟩
  rw [List.next_getElem l hNodup i hIdx]
  by_cases hEnd : i + 1 < l.length
  · rcases hCirc.2 with ⟨rfl, _⟩ | ⟨front, last, rfl, _, hSeg⟩
    · simp at hIdx
    · have hWhole : Seg mem (mem (.entry last)) (front ++ [last]) (mem (.entry last)) :=
        Seg.snoc_iff.mpr ⟨hSeg, rfl⟩
      rw [seg_getElem hWhole hEnd]
      simp only [Nat.mod_eq_of_lt hEnd]
  · cases l with
    | nil => simp at hIdx
    | cons x rest =>
      rcases circular_first hCirc with ⟨last, hLast, _, hFirst⟩
      have hEq : i = rest.length := by
        simp only [List.length_cons] at hIdx hEnd
        omega
      have hAt : (x :: rest)[i] = last := by
        rw [List.getLast?_eq_getElem?] at hLast
        subst hEq
        simpa [List.getElem?_eq_getElem] using hLast
      rw [hAt, hFirst]
      simp [hEq]

/- Its predecessor is the only node that links to a node. -/
theorem circular_prev
    {e node : E} (hCirc : IsCircular mem list l) (hMem : e ∈ l) :
    mem (.entry e) = .ref node ↔ predSeq l node = some e := by
  rw [circular_next hCirc hMem]
  unfold predSeq
  constructor
  · intro hEq
    cases hEq
    rw [dif_pos (List.next_mem l e hMem)]
    rw [List.prev_next l hCirc.1 e hMem]
  · intro hPred
    by_cases hNode : node ∈ l
    · rw [dif_pos hNode] at hPred
      cases hPred
      rw [List.next_prev l hCirc.1 node hNode]
    · rw [dif_neg hNode] at hPred
      cases hPred

/- The search returns the first node that links to `node`. -/
theorem clistFindBeforeFrom_eq
    {fuel : Nat} {node pos last : E} {front : List E}
    (hSeg : Seg mem (mem (.entry pos)) front (.ref last)) (hNot : last ∉ front)
    (hFuel : front.length < fuel) :
    clistFindBeforeFrom mem last node fuel pos =
      some ((front ++ [last]).find? (fun e => mem (.entry e) = .ref node)) := by
  induction front generalizing fuel pos with
  | nil =>
    have hNext : mem (.entry pos) = .ref last := hSeg
    cases fuel with
    | zero => simp at hFuel
    | succ fuel =>
      by_cases hLink : mem (.entry last) = .ref node
      · simp [clistFindBeforeFrom, hNext, hLink]
      · simp [clistFindBeforeFrom, hNext, hLink]
  | cons x front ih =>
    rcases hSeg with ⟨hNext, hRest⟩
    rcases List.ne_and_not_mem_of_not_mem_cons hNot with ⟨hNe, hNotFront⟩
    cases fuel with
    | zero => simp at hFuel
    | succ fuel =>
      by_cases hLink : mem (.entry x) = .ref node
      · simp [clistFindBeforeFrom, hNext, hLink]
      · have hRec := ih hRest hNotFront (by simpa using hFuel)
        simp [clistFindBeforeFrom, hNext, hLink, Ne.symm hNe, hRec]

/- The node found is the cyclic predecessor. -/
theorem clistFindBefore_eq
    {fuel : Nat} {node : E} (hCirc : IsCircular mem list l)
    (hFuel : l.length ≤ fuel) :
    clistFindBefore fuel mem list node = some (predSeq l node) := by
  have hFound : clistFindBefore fuel mem list node =
        some (l.find? (fun e => mem (.entry e) = .ref node)) := by
    rcases hCirc with ⟨hNodup, ⟨rfl, hNull⟩ | ⟨front, last, rfl, hRef, hSeg⟩⟩
    · simp [clistFindBefore, hNull]
    · have hNot : last ∉ front := by
        intro hIn
        exact (List.nodup_append.mp hNodup).2.2 last hIn last (by simp) rfl
      rw [List.length_append, List.length_singleton] at hFuel
      simp only [clistFindBefore, hRef]
      exact clistFindBeforeFrom_eq hSeg hNot (by omega)
  rw [hFound, Option.some_inj]
  cases hPred : predSeq l node with
  | none =>
    rw [List.find?_eq_none]
    intro e hMem hLink
    have hLink' := of_decide_eq_true hLink
    rw [circular_prev hCirc hMem, hPred] at hLink'
    cases hLink'
  | some tmp =>
    have hTmp : tmp ∈ l := by
      unfold predSeq at hPred
      by_cases hNode : node ∈ l
      · rw [dif_pos hNode] at hPred
        cases hPred
        exact List.prev_mem l node hNode
      · rw [dif_neg hNode] at hPred
        cases hPred
    cases hFind : l.find? (fun e => mem (.entry e) = .ref node) with
    | none =>
      rw [List.find?_eq_none] at hFind
      have hLink := (circular_prev hCirc hTmp).mpr hPred
      exact absurd (decide_eq_true hLink) (hFind tmp hTmp)
    | some e =>
      have hMem := List.mem_of_find?_eq_some hFind
      have hLink : mem (.entry e) = .ref node := by
        simpa using List.find?_some hFind
      rw [circular_prev hCirc hMem, hPred] at hLink
      exact hLink.symm

----
-- Single Operations
----

variable {fuel : Nat}

open LinkMem

variable {H E σ : Type} [DecidableEq H] [DecidableEq E] {mem : LinkMem H E}
variable {list : H} {l : List E}

omit [DecidableEq H] [DecidableEq E] in
/- The first node is the one behind the last. -/
theorem clistLpeek_eq
    (hCirc : IsCircular mem list l) :
    clistLpeek mem list = some l.head? := by
  cases l with
  | nil => simp [clistLpeek, IsCircular.nil_iff.mp hCirc]
  | cons x rest =>
    rcases circular_first hCirc with ⟨last, _, hRef, hFirst⟩
    simp [clistLpeek, hRef, hFirst, linkTarget]

omit [DecidableEq H] [DecidableEq E] in
/- The reference designates the last node. -/
theorem clistRpeek_eq
    (hCirc : IsCircular mem list l) :
    clistRpeek mem list = some l.getLast? := by
  cases l with
  | nil => simp [clistRpeek, IsCircular.nil_iff.mp hCirc, linkTarget]
  | cons x rest =>
    rcases circular_first hCirc with ⟨last, hLast, hRef, _⟩
    simp only [clistRpeek, hRef, linkTarget, hLast]

/- The list is turned until `last` is its first node. -/
theorem clistRpopTurn_spec
    {last : E} {pre post : List E}
    (hCirc : IsCircular mem list (post ++ last :: pre))
    (hFuel : post.length < fuel) :
    ∃ mem', clistRpopTurn list last fuel mem = some mem' ∧
        IsCircular mem' list (last :: (pre ++ post)) ∧
        (∀ h, h ≠ list → mem' (.head h) = mem (.head h)) ∧
        (∀ e, mem' (.entry e) = mem (.entry e)) := by
  induction post generalizing fuel pre mem with
  | nil =>
    cases fuel with
    | zero => simp at hFuel
    | succ fuel =>
      rcases circular_first hCirc with ⟨pos, _, hRef, hFirst⟩
      refine ⟨mem, ?_, by simpa using hCirc, fun _ _ => rfl, fun _ => rfl⟩
      simp [clistRpopTurn, hRef, hFirst]
  | cons x post ih =>
    cases fuel with
    | zero => simp at hFuel
    | succ fuel =>
      rcases circular_first hCirc with ⟨pos, _, hRef, hFirst⟩
      have hNe : x ≠ last := by
        intro hEq
        have hNodup := hCirc.1
        simp [hEq] at hNodup
      rcases clistLpoprpush_spec hCirc with ⟨mem₁, hTurn, hCirc₁, hHeads₁, hEntries₁⟩
      have hRot : (x :: post ++ last :: pre).rotate 1 = post ++ last :: (pre ++ [x]) := by
        simp
      rw [hRot] at hCirc₁
      rcases ih hCirc₁ (by simpa using hFuel) with ⟨mem₂, hLoop, hCirc₂, hHeads₂, hEntries₂⟩
      refine ⟨mem₂, ?_, by simpa using hCirc₂, ?_, ?_⟩
      · simp [clistRpopTurn, hRef, hFirst, hNe, hTurn, hLoop]
      · intro h hOther
        rw [hHeads₂ h hOther, hHeads₁ h hOther]
      · intro e
        rw [hEntries₂, hEntries₁]

/- The last node is turned to the front and popped. -/
theorem clistRpop_spec
    (hCirc : IsCircular mem list l) (hFuel : l.length ≤ fuel) :
    ∃ mem', clistRpop fuel mem list = some (mem', l.getLast?) ∧
        IsCircular mem' list l.dropLast ∧ (∀ h, h ≠ list → mem' (.head h) = mem (.head h)) ∧
        (∀ e, e ∉ l.dropLast → mem' (.entry e) = mem (.entry e)) := by
  have hCirc' := hCirc
  rcases hCirc with ⟨hNodup, ⟨rfl, hNull⟩ | ⟨front, last, rfl, hRef, hSeg⟩⟩
  · exact ⟨mem, by simp [clistRpop, hNull], hCirc', fun _ _ => rfl, fun _ _ => rfl⟩
  · rw [List.length_append, List.length_singleton] at hFuel
    rcases clistRpopTurn_spec hCirc'
        (Nat.lt_of_succ_le hFuel) with
      ⟨mem₁, hTurn, hCirc₁, hHeads₁, hEntries₁⟩
    rw [List.nil_append] at hCirc₁
    rcases clistLpop_spec hCirc₁ with ⟨mem₂, hPop, hCirc₂, hHeads₂, hEntries₂⟩
    refine ⟨mem₂, ?_, by simpa using hCirc₂, ?_, ?_⟩
    · simp [clistRpop, hRef, hTurn, hPop]
    · intro h hNe
      rw [hHeads₂ h hNe, hHeads₁ h hNe]
    · intro e hNot
      rw [hEntries₂ e (by simpa using hNot), hEntries₁]

omit [DecidableEq H] in
/- A node is found exactly when it is in the list. -/
theorem clistFind_eq
    {node : E} (hCirc : IsCircular mem list l) (hFuel : l.length ≤ fuel) :
    clistFind fuel mem list node = some (findSeq l node) := by
  rw [clistFind, clistFindBefore_eq hCirc hFuel]
  by_cases hMem : node ∈ l
  · have hPred : predSeq l node = some (l.prev node hMem) := dif_pos hMem
    have hLink := (circular_prev hCirc (List.prev_mem l node hMem)).mpr hPred
    simp [hPred, hLink, linkTarget, findSeq, hMem]
  · simp [predSeq, findSeq, hMem]

/- What the removal returns. -/
theorem clistRemove_result
    {node : E} {mem' : LinkMem H E} {res : Option E} (hCirc : IsCircular mem list l)
    (hFuel : l.length ≤ fuel)
    (hRemove : clistRemove fuel mem list node = some (mem', res)) :
    res = findSeq l node := by
  cases l with
  | nil =>
    rw [clistRemove, IsCircular.nil_iff.mp hCirc] at hRemove
    cases hRemove
    rfl
  | cons x rest =>
    rcases circular_first hCirc with ⟨last, _, hRef, hFirst⟩
    rw [clistRemove, hRef] at hRemove
    dsimp only at hRemove
    by_cases hEq : x = node
    · subst hEq
      rw [if_pos hFirst] at hRemove
      rcases clistLpop_spec hCirc with ⟨_, hPop, _⟩
      rw [hPop] at hRemove
      cases hRemove
      simp [findSeq]
    · have hNe : mem (.entry last) ≠ .ref node := by
        rw [hFirst]
        simpa using hEq
      rw [if_neg hNe, clistFindBefore_eq hCirc hFuel] at hRemove
      by_cases hMem : node ∈ x :: rest
      · have hPred : predSeq (x :: rest) node = some ((x :: rest).prev node hMem) := dif_pos hMem
        have hLink := (circular_prev hCirc (List.prev_mem _ node hMem)).mpr hPred
        simp only [hPred, hLink, Option.some.injEq, Prod.mk.injEq] at hRemove
        rw [← hRemove.2, findSeq, if_pos hMem]
      · simp only [predSeq, dif_neg hMem, Option.some.injEq, Prod.mk.injEq] at hRemove
        rw [← hRemove.2, findSeq, if_neg hMem]

omit [DecidableEq H] in
/- The traversal visits the rest of the segment and its end. -/
theorem clistForeachFrom_eq
    {func : E → σ → Int × σ} {arg : σ} {node last : E} {front : List E}
    (hSeg : Seg mem (mem (.entry node)) front (.ref last)) (hNot : last ∉ front)
    (hFuel : front.length < fuel) :
    clistForeachFrom mem func last fuel node arg = some (visitSeq func (front ++ [last]) arg) := by
  induction front generalizing fuel node arg with
  | nil =>
    have hNext : mem (.entry node) = .ref last := hSeg
    cases fuel with
    | zero => simp at hFuel
    | succ fuel =>
      by_cases hStop : (func last arg).1 = 0
      · simp [clistForeachFrom, hNext, visitSeq, hStop]
      · simp [clistForeachFrom, hNext, visitSeq, hStop]
  | cons x front ih =>
    rcases hSeg with ⟨hNext, hRest⟩
    rcases List.ne_and_not_mem_of_not_mem_cons hNot with ⟨hNe, hNotFront⟩
    cases fuel with
    | zero => simp at hFuel
    | succ fuel =>
      have hRec : clistForeachFrom mem func last fuel x
              (func x arg).2 = some (visitSeq func (front ++ [last]) (func x arg).2) :=
        ih hRest hNotFront (by simpa using hFuel)
      by_cases hStop : (func x arg).1 = 0
      · simp [clistForeachFrom, hNext, visitSeq, hStop, Ne.symm hNe, hRec]
      · simp [clistForeachFrom, hNext, visitSeq, hStop]

omit [DecidableEq H] in
/- A traversal visits the members in their order. -/
theorem clistForeach_eq
    {func : E → σ → Int × σ} {arg : σ} (hCirc : IsCircular mem list l)
    (hFuel : l.length ≤ fuel) :
    clistForeach fuel mem list func arg = some (visitSeq func l arg) := by
  rcases hCirc with ⟨hNodup, ⟨rfl, hNull⟩ | ⟨front, last, rfl, hRef, hSeg⟩⟩
  · simp [clistForeach, hNull, visitSeq]
  · have hNot : last ∉ front := by
      intro hIn
      exact (List.nodup_append.mp hNodup).2.2 last hIn last (by simp) rfl
    rw [List.length_append, List.length_singleton] at hFuel
    simp only [clistForeach, hRef]
    exact clistForeachFrom_eq hSeg hNot (by omega)

----
-- Refinement of Sequences
----

variable {H E σ : Type} [DecidableEq H] [DecidableEq E] {mem : LinkMem H E}
variable {list : H} {l : List E}

/-
  Every operation acts on the sequence that the list
  represents, and touches no other list and no other node
  than the one it links in.
-/
theorem clistOp_refines
    {fuel : Nat} (op : ClistOp E σ) (hCirc : IsCircular mem list l)
    (hFresh : op.Fresh l) (hFuel : l.length ≤ fuel) :
    ∃ mem', op.run fuel list mem = some (mem', (op.apply l).2) ∧
        IsCircular mem' list (op.apply l).1 ∧ (∀ h, h ≠ list → mem' (.head h) = mem (.head h)) ∧
        (∀ e, e ∉ l → op.linked ≠ some e → mem' (.entry e) = mem (.entry e)) := by
  cases op with
  | lpush newNode =>
    rcases clistLpush_spec hCirc (hFresh newNode rfl) with ⟨mem', hRun, hCirc', hHeads, hEntries⟩
    refine ⟨mem', by simp [ClistOp.run, ClistOp.apply, hRun], hCirc', hHeads, ?_⟩
    intro e hNot hNe
    refine hEntries e ?_ hNot
    intro hEq
    exact hNe (by simp [hEq, ClistOp.linked])
  | rpush newNode =>
    rcases clistRpush_spec hCirc (hFresh newNode rfl) with ⟨mem', hRun, hCirc', hHeads, hEntries⟩
    refine ⟨mem', by simp [ClistOp.run, ClistOp.apply, hRun], hCirc', hHeads, ?_⟩
    intro e hNot hNe
    refine hEntries e ?_ hNot
    intro hEq
    exact hNe (by simp [hEq, ClistOp.linked])
  | lpop =>
    rcases clistLpop_spec hCirc with ⟨mem', hRun, hCirc', hHeads, hEntries⟩
    refine ⟨mem', by simp [ClistOp.run, ClistOp.apply, hRun], hCirc', hHeads, ?_⟩
    intro e hNot _
    exact hEntries e (fun hIn => hNot (List.mem_of_mem_tail hIn))
  | rpop =>
    rcases clistRpop_spec hCirc hFuel with ⟨mem', hRun, hCirc', hHeads, hEntries⟩
    refine ⟨mem', by simp [ClistOp.run, ClistOp.apply, hRun], hCirc', hHeads, ?_⟩
    intro e hNot _
    exact hEntries e (fun hIn => hNot (List.mem_of_mem_dropLast hIn))
  | lpoprpush =>
    rcases clistLpoprpush_spec hCirc with ⟨mem', hRun, hCirc', hHeads, hEntries⟩
    exact ⟨mem', by simp [ClistOp.run, ClistOp.apply, hRun],
      hCirc', hHeads, fun e _ _ => hEntries e⟩
  | lpeek =>
    exact ⟨mem,
      by simp [ClistOp.run, ClistOp.apply, clistLpeek_eq hCirc],
      hCirc, fun _ _ => rfl, fun _ _ _ => rfl⟩
  | rpeek =>
    exact ⟨mem,
      by simp [ClistOp.run, ClistOp.apply, clistRpeek_eq hCirc],
      hCirc, fun _ _ => rfl, fun _ _ _ => rfl⟩
  | find node =>
    exact ⟨mem,
      by simp [ClistOp.run, ClistOp.apply, clistFind_eq hCirc hFuel],
      hCirc, fun _ _ => rfl, fun _ _ _ => rfl⟩
  | findBefore node =>
    exact ⟨mem,
      by simp [ClistOp.run, ClistOp.apply, clistFindBefore_eq hCirc hFuel],
      hCirc, fun _ _ => rfl, fun _ _ _ => rfl⟩
  | remove node =>
    rcases clistRemove_spec hCirc hFuel with ⟨mem', res, hRun, hCirc', hHeads, hEntries⟩
    have hRes := clistRemove_result hCirc hFuel hRun
    refine ⟨mem', by simp [ClistOp.run, ClistOp.apply, hRun, hRes], hCirc', hHeads, ?_⟩
    intro e hNot _
    exact hEntries e (fun hIn => hNot (List.mem_of_mem_erase hIn))
  | count =>
    exact ⟨mem,
      by simp [ClistOp.run, ClistOp.apply, clistCount_eq hCirc hFuel],
      hCirc, fun _ _ => rfl, fun _ _ _ => rfl⟩
  | foreach func arg =>
    exact ⟨mem,
      by simp [ClistOp.run, ClistOp.apply, clistForeach_eq hCirc hFuel],
      hCirc, fun _ _ => rfl, fun _ _ _ => rfl⟩

/- The links of the circular list `[1, 2, 3]`. -/
def sampleClist : LinkMem Unit Nat
  | .head _ => .ref 3
  | .entry 1 => .ref 2
  | .entry 2 => .ref 3
  | .entry 3 => .ref 1
  | .entry _ => .null

theorem sampleClist_circular :
    IsCircular sampleClist () [1, 2, 3] :=
  (@IsCircular.snoc_iff _ _ _ _ 3 [1, 2]).mpr ⟨by decide, rfl, rfl, rfl, rfl⟩

/- The last node is removed, and the reference follows. -/
theorem clistOp_refines_removeLast :
    ∃ mem',
      ClistOp.run 3 () sampleClist
          (.remove 3 : ClistOp Nat Unit) = some (mem', .node (some 3)) ∧
        IsCircular mem' () [1, 2] := by
  rcases clistOp_refines (.remove 3 : ClistOp Nat Unit)
      sampleClist_circular
      (by simp [ClistOp.Fresh, ClistOp.linked])
      (Nat.le_refl 3) with
    ⟨mem', hRun, hCirc, _⟩
  exact ⟨mem', hRun, hCirc⟩

end Riot
