import Riot.Lib.FinNumerals
import Mathlib.Data.List.Rotate
import Mathlib.Data.List.Nodup
import Mathlib.Data.Fintype.Card
import Mathlib.Tactic.Common

/-
  Intrusive singly linked lists in a flat memory.

  Every list object holds one pointer field.  List
  references (`Cell.head`) and list members (`Cell.entry`)
  are separate kinds of objects, and stored pointers
  designate members only.
-/

----
-- Pointers and Memory
----

/- The objects that own a pointer field. -/
inductive Cell (H E : Type) where
  | head (h : H)
  | entry (e : E)
deriving DecidableEq, Repr

/-
  Values of a pointer field: null, a reserved non-null
  marker that designates no object, or a list member.
-/
inductive Link (E : Type) where
  | null
  | mark
  | ref (e : E)
deriving DecidableEq, Repr

/- Contents of every pointer field. -/
abbrev LinkMem (H E : Type) :=
  Cell H E → Link E

namespace LinkMem

variable {H E : Type} [DecidableEq H] [DecidableEq E]

/- Store one pointer field. -/
def set
    (mem : LinkMem H E) (c : Cell H E) (v : Link E) : LinkMem H E :=
  Function.update mem c v

/- Reading back the stored field. -/
@[simp]
theorem set_same
    (mem : LinkMem H E) (c : Cell H E) (v : Link E) :
    mem.set c v c = v := by
  simp [set]

/- Reading any other field. -/
theorem set_of_ne
    (mem : LinkMem H E) {c d : Cell H E} (v : Link E) (hNe : d ≠ c) :
    mem.set c v d = mem d := by
  simp [set, Function.update_of_ne hNe]

/- Fields of members after storing into a reference. -/
@[simp]
theorem set_head_entry
    (mem : LinkMem H E) (h : H) (v : Link E) (e : E) :
    mem.set (.head h) v (.entry e) = mem (.entry e) :=
  set_of_ne mem v (by simp)

/- Fields of references after storing into a member. -/
@[simp]
theorem set_entry_head
    (mem : LinkMem H E) (e : E) (v : Link E) (h : H) :
    mem.set (.entry e) v (.head h) = mem (.head h) :=
  set_of_ne mem v (by simp)

/-
  A store introduces no pointer except the stored one.
-/
theorem set_ref
    {mem : LinkMem H E} {c d : Cell H E} {v : Link E} {e : E}
    (hRef : mem.set c v d = .ref e) :
    v = .ref e ∨ mem d = .ref e := by
  by_cases hEq : d = c
  · subst hEq
    left
    simpa using hRef
  · right
    rwa [set_of_ne mem v hEq] at hRef

end LinkMem

----
-- Segments
----

namespace LinkMem

variable {H E : Type}

/-
  Following the fields from pointer value `p` visits the
  members `l` in order and arrives at pointer value `q`.
-/
def Seg
    (mem : LinkMem H E) :
    Link E → List E → Link E → Prop
| p, [], q => p = q
| p, e :: l, q => p = .ref e ∧ Seg mem (mem (.entry e)) l q

namespace Seg

variable {mem mem' : LinkMem H E} {p q : Link E} {e : E} {l l₁ l₂ : List E}

/- A segment over a concatenation meets in the middle. -/
theorem append_iff :
    Seg mem p (l₁ ++ l₂) q ↔ ∃ r, Seg mem p l₁ r ∧ Seg mem r l₂ q := by
  induction l₁ generalizing p with
  | nil => simp [Seg]
  | cons e l ih =>
    simp only [List.cons_append, Seg, ih]
    constructor
    · rintro ⟨hp, r, hLeft, hRight⟩
      exact ⟨r, ⟨hp, hLeft⟩, hRight⟩
    · rintro ⟨r, ⟨hp, hLeft⟩, hRight⟩
      exact ⟨hp, r, hLeft, hRight⟩

/- A segment reads only the fields of its members. -/
theorem congr
    (hSeg : Seg mem p l q) (hSame : ∀ e ∈ l, mem' (.entry e) = mem (.entry e)) :
    Seg mem' p l q := by
  induction l generalizing p with
  | nil => exact hSeg
  | cons e l ih =>
    rcases hSeg with ⟨hp, hRest⟩
    refine ⟨hp, ?_⟩
    rw [hSame e (by simp)]
    exact ih hRest (fun x hx => hSame x (List.mem_cons_of_mem _ hx))

/- Storing outside the members keeps the segment. -/
theorem set_of_notMem
    [DecidableEq H] [DecidableEq E] (hSeg : Seg mem p l q) {v : Link E}
    (hNot : e ∉ l) :
    Seg (mem.set (.entry e) v) p l q := by
  apply hSeg.congr
  intro x hx
  apply set_of_ne
  intro hEq
  cases hEq
  exact hNot hx

/- Storing into a reference keeps every segment. -/
theorem set_head
    [DecidableEq H] [DecidableEq E] (hSeg : Seg mem p l q) {h : H} {v : Link E} :
    Seg (mem.set (.head h) v) p l q :=
  hSeg.congr (fun x _ => set_head_entry mem h v x)

/- The last member of a segment points to its end. -/
theorem snoc_iff :
    Seg mem p (l ++ [e]) q ↔ Seg mem p l (.ref e) ∧ mem (.entry e) = q := by
  rw [append_iff]
  constructor
  · rintro ⟨r, hLeft, hr, hq⟩
    subst hr
    exact ⟨hLeft, hq⟩
  · rintro ⟨hLeft, hq⟩
    exact ⟨.ref e, hLeft, rfl, hq⟩

end Seg

end LinkMem

----
-- Null-Terminated Lists
----

namespace LinkMem

variable {H E : Type}

/- The null-terminated list at reference `h` holds `l`. -/
def IsList
    (mem : LinkMem H E)
    (h : H)
    (l : List E) : Prop :=
  l.Nodup ∧ Seg mem (mem (.head h)) l .null

/- Members visited from a pointer value up to null. -/
def nodesFrom
    (mem : LinkMem H E) :
    Nat → Link E → List E
| 0, _ => []
| fuel + 1, .ref e => e :: nodesFrom mem fuel (mem (.entry e))
| _ + 1, _ => []

/- Members of the null-terminated list at `h`. -/
def listNodes
    (fuel : Nat) (mem : LinkMem H E)
    (h : H) : List E :=
  nodesFrom mem fuel (mem (.head h))

namespace IsList

variable {mem mem' : LinkMem H E} {h : H} {l : List E}

/- The empty list is a null reference. -/
theorem nil_iff :
    IsList mem h [] ↔ mem (.head h) = .null := by
  simp [IsList, Seg]

/- The reference designates the first member. -/
theorem mem_of_head
    {e : E} (hList : IsList mem h l) (hHead : mem (.head h) = .ref e) :
    e ∈ l := by
  rcases hList with ⟨_, hSeg⟩
  rw [hHead] at hSeg
  cases l with
  | nil => cases hSeg
  | cons x l =>
    cases hSeg.1
    exact List.mem_cons_self

/- A list reads its reference and the fields of members. -/
theorem congr
    (hList : IsList mem h l) (hHead : mem' (.head h) = mem (.head h))
    (hSame : ∀ e ∈ l, mem' (.entry e) = mem (.entry e)) :
    IsList mem' h l := by
  refine ⟨hList.1, ?_⟩
  rw [hHead]
  exact hList.2.congr hSame

/- The walk to null collects the members of a segment. -/
theorem nodesFrom_eq
    {fuel : Nat} {p : Link E} (hSeg : Seg mem p l .null) (hFuel : l.length ≤ fuel) :
    nodesFrom mem fuel p = l := by
  induction l generalizing fuel p with
  | nil =>
    have hp : p = .null := hSeg
    subst hp
    cases fuel <;> rfl
  | cons e l ih =>
    rcases hSeg with ⟨rfl, hRest⟩
    cases fuel with
    | zero => simp at hFuel
    | succ fuel =>
      simp only [nodesFrom]
      rw [ih hRest (by simpa using hFuel)]

/- With enough fuel the walk returns the held list. -/
theorem listNodes_eq
    {fuel : Nat} (hList : IsList mem h l) (hFuel : l.length ≤ fuel) :
    listNodes fuel mem h = l :=
  nodesFrom_eq hList.2 hFuel

/-
  A new member is linked in behind `x`, and what follows it is
  part of what followed `x`.
-/
theorem splice
    [DecidableEq H] [DecidableEq E] {a b l' : List E} {x e : E} {v : Link E}
    (hList : IsList mem h (a ++ x :: b)) (hNot : e ∉ a ++ x :: b)
    (hSub : l'.Sublist b) (hTail : Seg mem v l' .null) :
    IsList ((mem.set (.entry x) (.ref e)).set (.entry e) v) h (a ++ x :: e :: l') := by
  rcases hList with ⟨hNodup, hSeg⟩
  rcases Seg.append_iff.mp hSeg with ⟨_, hFront, rfl, _⟩
  have hSubAll : (a ++ x :: l').Sublist (a ++ x :: b) := (hSub.cons_cons x).append_left a
  have hNodup' := hNodup.sublist hSubAll
  have hNot' : e ∉ a ++ x :: l' := fun hIn => hNot (hSubAll.subset hIn)
  have hParts : e ≠ x ∧ e ∉ a ∧ e ∉ l' ∧ x ∉ a ∧ x ∉ l' ∧ (a ++ x :: e :: l').Nodup := by
    grind
  rcases hParts with ⟨hNe, hea, hel, hxa, hxl, hNew⟩
  refine ⟨hNew, ?_⟩
  rw [set_entry_head, set_entry_head, Seg.append_iff]
  refine ⟨.ref x, ?_, rfl, ?_, ?_⟩
  · exact (hFront.set_of_notMem hxa).set_of_notMem hea
  · rw [set_of_ne _ _ (by simpa using hNe.symm), set_same]
  · rw [set_same]
    exact (hTail.set_of_notMem hxl).set_of_notMem hel

end IsList

end LinkMem

----
-- Circular Lists
----

namespace LinkMem

variable {H E : Type}

/-
  The circular list at reference `h` holds `l`: the
  reference designates the last member, whose field
  designates the first one.
-/
def IsCircular
    (mem : LinkMem H E)
    (h : H)
    (l : List E) : Prop :=
  l.Nodup ∧ ((l = [] ∧ mem (.head h) = .null) ∨ ∃ front last, l = front ++ [last] ∧
          mem (.head h) = .ref last ∧ Seg mem (mem (.entry last)) front (.ref last))

/- Members visited from a pointer value up to `last`. -/
def nodesUpTo
    [DecidableEq E]
    (mem : LinkMem H E) (last : E) :
    Nat → Link E → List E
| 0, _ => []
| fuel + 1, .ref e =>
  if e = last then
    [e]
  else
    e :: nodesUpTo mem last fuel (mem (.entry e))
| _ + 1, _ => []

/- Members of the circular list at `h`, first to last. -/
def circularNodes
    [DecidableEq E]
    (fuel : Nat) (mem : LinkMem H E)
    (h : H) : List E :=
  match mem (.head h) with
  | .ref last => nodesUpTo mem last fuel (mem (.entry last))
  | _ => []

namespace IsCircular

variable {mem mem' : LinkMem H E} {h : H} {e : E} {l front : List E}

/- The empty circular list is a null reference. -/
theorem nil_iff :
    IsCircular mem h [] ↔ mem (.head h) = .null := by
  simp [IsCircular]

/- The fields that make up a nonempty circular list. -/
theorem snoc_iff :
    IsCircular mem h (front ++ [e]) ↔
      (front ++ [e]).Nodup ∧ mem (.head h) = .ref e ∧ Seg mem (mem (.entry e)) front (.ref e) := by
  constructor
  · rintro ⟨hNodup, ⟨hNil, _⟩ | ⟨front', last, hEq, hRest⟩⟩
    · simp at hNil
    · have hBoth := List.append_inj' hEq rfl
      rcases hBoth with ⟨rfl, hLast⟩
      cases hLast
      exact ⟨hNodup, hRest⟩
  · rintro ⟨hNodup, hHead, hSeg⟩
    exact ⟨hNodup, .inr ⟨front, e, rfl, hHead, hSeg⟩⟩

/- The fields that make up a one-member circular list. -/
theorem singleton_iff :
    IsCircular mem h [e] ↔ mem (.head h) = .ref e ∧ mem (.entry e) = .ref e := by
  rw [← List.nil_append [e], snoc_iff]
  simp [Seg]

/- A circular list is empty exactly at a null reference. -/
theorem eq_nil_iff
    (hCirc : IsCircular mem h l) :
    l = [] ↔ mem (.head h) = .null := by
  rcases hCirc.2 with ⟨rfl, hNull⟩ | ⟨front, last, rfl, hHead, _⟩
  · simp [hNull]
  · simp [hHead]

/- A circular list reads its reference and its members. -/
theorem congr
    (hCirc : IsCircular mem h l) (hHead : mem' (.head h) = mem (.head h))
    (hSame : ∀ e ∈ l, mem' (.entry e) = mem (.entry e)) :
    IsCircular mem' h l := by
  rcases hCirc with ⟨hNodup, ⟨rfl, hNull⟩ | ⟨front, last, rfl, hRef, hSeg⟩⟩
  · exact nil_iff.mpr (hHead.trans hNull)
  · rw [snoc_iff]
    refine ⟨hNodup, hHead.trans hRef, ?_⟩
    rw [hSame last (by simp)]
    exact hSeg.congr (fun x hx => hSame x (by simp [hx]))

variable [DecidableEq E]

/- The walk up to `e` collects a segment ending at `e`. -/
theorem nodesUpTo_eq
    {fuel : Nat} {p : Link E} (hSeg : Seg mem p front (.ref e)) (hNot : e ∉ front)
    (hFuel : front.length < fuel) :
    nodesUpTo mem e fuel p = front ++ [e] := by
  induction front generalizing fuel p with
  | nil =>
    have hp : p = .ref e := hSeg
    subst hp
    cases fuel with
    | zero => simp at hFuel
    | succ fuel => simp [nodesUpTo]
  | cons x front ih =>
    rcases hSeg with ⟨rfl, hRest⟩
    rcases List.ne_and_not_mem_of_not_mem_cons hNot with ⟨hNe, hNotFront⟩
    cases fuel with
    | zero => simp at hFuel
    | succ fuel =>
      simp only [nodesUpTo, Ne.symm hNe, if_false, List.cons_append]
      rw [ih hRest hNotFront (by simpa using hFuel)]

/-
  A segment that meets its end point only at the end visits
  no member twice.
-/
theorem nodup_of_seg
    {p : Link E} (hSeg : Seg mem p front (.ref e)) (hNot : e ∉ front) :
    (front ++ [e]).Nodup := by
  induction front generalizing p with
  | nil => simp
  | cons x front ih =>
    rcases hSeg with ⟨_, hRest⟩
    rcases List.ne_and_not_mem_of_not_mem_cons hNot with ⟨hNe, hNotFront⟩
    rw [List.cons_append, List.nodup_cons]
    refine ⟨?_, ih hRest hNotFront⟩
    intro hMem
    rw [List.mem_append, List.mem_singleton] at hMem
    rcases hMem with hMem | hEq
    · -- A repeated member would have two walks to `e`.
      rcases List.append_of_mem hMem with ⟨before, after, rfl⟩
      rcases Seg.append_iff.mp hRest with ⟨_, _, _, hAfter⟩
      have hLong := nodesUpTo_eq hRest hNotFront (Nat.lt_succ_self _)
      have hShort := nodesUpTo_eq hAfter
          (fun hx => hNotFront (by simp [hx]))
          (Nat.lt_succ_of_le (by simp; omega : after.length ≤ (before ++ x :: after).length))
      have hLength := congrArg List.length (hLong.symm.trans hShort)
      simp only [List.length_append, List.length_cons, List.length_nil] at hLength
      omega
    · exact hNe hEq.symm

/- With enough fuel the walk returns the held list. -/
theorem circularNodes_eq
    {fuel : Nat} (hCirc : IsCircular mem h l) (hFuel : l.length ≤ fuel) :
    circularNodes fuel mem h = l := by
  rcases hCirc with ⟨hNodup, ⟨rfl, hNull⟩ | ⟨front, last, rfl, hRef, hSeg⟩⟩
  · simp [circularNodes, hNull]
  · have hNot : last ∉ front := by
      intro hMem
      exact (List.nodup_append.mp hNodup).2.2 last hMem last (by simp) rfl
    simp only [circularNodes, hRef]
    apply nodesUpTo_eq hSeg hNot
    rw [List.length_append, List.length_singleton] at hFuel
    omega

end IsCircular

end LinkMem

----
-- Cycles
----

namespace LinkMem

variable {H E : Type} {mem : LinkMem H E} {h : H} {l : List E} {S : E → Prop}

/- A segment that ends at a member starts at a member. -/
theorem Seg.start_ref
    {p : Link E} {last : E} (hSeg : Seg mem p l (.ref last)) :
    ∃ e ∈ l ++ [last], p = .ref e := by
  cases l with
  | nil => exact ⟨last, by simp, hSeg⟩
  | cons x l => exact ⟨x, by simp, hSeg.1⟩

/- A set that is closed under links keeps a segment. -/
theorem Seg.mem_of_closed
    {p q : Link E} (hClosed : ∀ e e', S e → mem (.entry e) = .ref e' → S e')
    (hSeg : Seg mem p l q) (hStart : ∀ e, p = .ref e → S e) :
    (∀ e ∈ l, S e) ∧ ∀ e, q = .ref e → S e := by
  induction l generalizing p with
  | nil =>
    have hEq : p = q := hSeg
    subst hEq
    exact ⟨by simp, hStart⟩
  | cons x l ih =>
    rcases hSeg with ⟨rfl, hRest⟩
    have hx : S x := hStart x rfl
    rcases ih hRest (fun e he => hClosed x e hx he) with ⟨hAll, hEnd⟩
    refine ⟨?_, hEnd⟩
    intro e he
    rcases List.mem_cons.mp he with rfl | hIn
    · exact hx
    · exact hAll e hIn

namespace IsCircular

/- The segment that follows a node of a circular list. -/
theorem seg_after
    {e : E} (hCirc : IsCircular mem h l) (he : e ∈ l) :
    ∃ rest last, Seg mem (mem (.entry e)) rest (.ref last) ∧ (∀ x ∈ rest ++ [last], x ∈ l) ∧
        mem (.head h) = .ref last := by
  rcases hCirc with ⟨_, ⟨rfl, _⟩ | ⟨front, last, rfl, hRef, hSeg⟩⟩
  · simp at he
  · rcases List.mem_append.mp he with hFront | hLast
    · rcases List.append_of_mem hFront with ⟨a, b, rfl⟩
      rcases Seg.append_iff.mp hSeg with ⟨r, _, _, hRest⟩
      refine ⟨b, last, hRest, ?_, hRef⟩
      intro x hx
      simp only [List.mem_append, List.mem_singleton] at hx
      rcases hx with hIn | rfl
      · simp [hIn]
      · simp
    · rw [List.mem_singleton] at hLast
      subst hLast
      exact ⟨front, e, hSeg, fun _ hx => hx, hRef⟩

/- The first node links to the second. -/
theorem link_of_cons
    {x y : E} {rest : List E} (hCirc : IsCircular mem h (x :: y :: rest)) :
    mem (.entry x) = .ref y := by
  rcases hCirc.2 with ⟨hNil, _⟩ | ⟨front, last, hEq, _, hSeg⟩
  · cases hNil
  · cases front with
    | nil => simp at hEq
    | cons z front =>
      rw [List.cons_append] at hEq
      rcases List.cons.inj hEq with ⟨rfl, hRest⟩
      cases front with
      | nil =>
        rcases List.cons.inj hRest with ⟨rfl, _⟩
        exact hSeg.2
      | cons w front =>
        rcases List.cons.inj hRest with ⟨rfl, _⟩
        exact hSeg.2.1

/- Every node of a circular list links to a node of it. -/
theorem closed
    {e : E} (hCirc : IsCircular mem h l) (he : e ∈ l) :
    ∃ e' ∈ l, mem (.entry e) = .ref e' := by
  rcases hCirc.seg_after he with ⟨rest, last, hSeg, hSub, _⟩
  rcases hSeg.start_ref with ⟨e', he', hRef⟩
  exact ⟨e', hSub e' he', hRef⟩

/- A closed set with one node of a circular list has all. -/
theorem subset_of_closed
    {x : E} (hCirc : IsCircular mem h l)
    (hClosed : ∀ e e', S e → mem (.entry e) = .ref e' → S e') (hx : x ∈ l)
    (hS : S x) :
    ∀ e ∈ l, S e := by
  rcases hCirc.seg_after hx with ⟨rest, last, hSeg, _, hRef⟩
  have hLast : S last := (hSeg.mem_of_closed hClosed (fun e he => hClosed x e hS he)).2 last rfl
  rcases hCirc.2 with ⟨rfl, _⟩ | ⟨front, last', rfl, hRef', hSeg'⟩
  · simp at hx
  · rw [hRef] at hRef'
    cases hRef'
    have hFront := (hSeg'.mem_of_closed hClosed (fun e he => hClosed last e hLast he)).1
    intro e he
    rcases List.mem_append.mp he with hIn | hEnd
    · exact hFront e hIn
    · rw [List.mem_singleton] at hEnd
      exact hEnd ▸ hLast

/- Circular lists that share a node have the same nodes. -/
theorem subset_of_mem
    {h' : H} {l' : List E} {x : E} (hCirc : IsCircular mem h l)
    (hCirc' : IsCircular mem h' l') (hx : x ∈ l) (hx' : x ∈ l') :
    ∀ e ∈ l, e ∈ l' := by
  apply hCirc.subset_of_closed _ hx hx'
  intro e e' he hRef
  rcases hCirc'.closed he with ⟨y, hy, hRefY⟩
  rw [hRef] at hRefY
  cases hRefY
  exact hy

end IsCircular

end LinkMem

----
-- Regions
----

/-
  A set of fields together with the list members they may
  point to.  The fields of those members are in the region.
-/
structure Region (H E : Type) where
  cells : Cell H E → Prop
  members : E → Prop
  entry_cells : ∀ e, members e → cells (.entry e)

namespace Region

variable {H E : Type} {r : Region H E} {mem mem' mem'' : LinkMem H E} {c : Cell H E} {e : E}

/- Every pointer of the region leads to one of its members. -/
def Confined
    (r : Region H E) (mem : LinkMem H E) : Prop :=
  ∀ c, r.cells c → ∀ e, mem c = .ref e → r.members e

/- A change inside a region that keeps it confined. -/
def Within
    (r : Region H E) (mem mem' : LinkMem H E) : Prop :=
  r.Confined mem' ∧ ∀ c, ¬ r.cells c → mem' c = mem c

/- No change is a change inside the region. -/
theorem Within.refl
    (hConf : r.Confined mem) :
    r.Within mem mem :=
  ⟨hConf, fun _ _ => rfl⟩

/- Two pointers of a region lead to a member. -/
theorem Confined.next
    {e' : E} (hConf : r.Confined mem) (hCell : r.cells c) (hFirst : mem c = .ref e)
    (hSecond : mem (.entry e) = .ref e') :
    r.members e' :=
  hConf _ (r.entry_cells e (hConf c hCell e hFirst)) e' hSecond

/- Storing a value of the region into the region. -/
theorem Within.set
    [DecidableEq H] [DecidableEq E] {v : Link E} (hWithin : r.Within mem mem')
    (hCell : r.cells c) (hValue : ∀ e, v = .ref e → r.members e) :
    r.Within mem (mem'.set c v) := by
  constructor
  · intro d hd x hx
    rcases LinkMem.set_ref hx with hv | hOld
    · exact hValue x hv
    · exact hWithin.1 d hd x hOld
  · intro d hNot
    have hNe : d ≠ c := by
      intro hEq
      exact hNot (hEq ▸ hCell)
    rw [LinkMem.set_of_ne _ _ hNe]
    exact hWithin.2 d hNot

end Region
