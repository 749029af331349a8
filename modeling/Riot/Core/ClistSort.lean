import Riot.Core.ClistSequence
import Riot.Lib.MergeRuns

/-
  The merge sort of `clist.c`.

  The nodes are sorted in place: a pass walks the list once,
  merges runs of `insize` nodes two by two and relinks each
  node as it is taken. The end of the old list is recognised
  by a link to its first node.
-/

----
-- Sorting
----

namespace Riot

variable {H E : Type} [DecidableEq H] [DecidableEq E]

/- The locals of a pass of `_clist_sort`, and the memory. -/
structure SortPass (H E : Type) where
  mem : LinkMem H E
  list : Option E
  tail : Option E
  p : Option E
  psize : Nat
  q : Option E
  qsize : Nat

/- The node behind `e`, or null at the end of the old list. -/
def sortNext
    (mem : LinkMem H E) (oldhead e : E) : Option (Option E) :=
  match mem (.entry e) with
  | .null => some none
  | .mark => none
  | .ref next => some (if next = oldhead then none else some next)

/- Step `insize` places along; count them in `psize`. -/
def sortStep
    (mem : LinkMem H E) (oldhead : E) :
    Nat → Nat → E → Option (Nat × Option E)
  | 0, psize, q => some (psize, some q)
  | insize + 1, psize, q =>
    match sortNext mem oldhead q with
    | none => none
    | some none => some (psize + 1, none)
    | some (some next) => sortStep mem oldhead insize (psize + 1) next

/- The next element of the merge comes from `p`. -/
def sortTakeP
    (oldhead : E) (s : SortPass H E) : Option (E × SortPass H E) :=
  match s.p with
  | none => none
  | some e =>
    match sortNext s.mem oldhead e with
    | none => none
    | some next => some (e, { s with p := next, psize := s.psize - 1 })

/- The next element of the merge comes from `q`. -/
def sortTakeQ
    (oldhead : E) (s : SortPass H E) : Option (E × SortPass H E) :=
  match s.q with
  | none => none
  | some e =>
    match sortNext s.mem oldhead e with
    | none => none
    | some next => some (e, { s with q := next, qsize := s.qsize - 1 })

/- Decide whether the next element comes from `p` or `q`. -/
def sortTake
    (cmp : E → E → Int) (oldhead : E) (s : SortPass H E) : Option (E × SortPass H E) :=
  if s.psize = 0 then
    sortTakeQ oldhead s
  else if s.qsize = 0 ∨ s.q = none then
    sortTakeP oldhead s
  else
    match s.p, s.q with
    | some p, some q =>
      if cmp p q ≤ 0 then
        sortTakeP oldhead s
      else
        sortTakeQ oldhead s
    | _, _ => none

/- Add an element to the merged list. -/
def sortAppend
    (s : SortPass H E) (e : E) : SortPass H E :=
  match s.tail with
  | some tail => { s with mem := s.mem.set (.entry tail) (.ref e), tail := some e }
  | none => { s with list := some e, tail := some e }

/- Merge the two lists at `p` and `q`. -/
def sortMerge
    (cmp : E → E → Int) (oldhead : E) :
    Nat → SortPass H E → Option (SortPass H E)
  | 0, _ => none
  | fuel + 1, s =>
    if 0 < s.psize ∨ (0 < s.qsize ∧ s.q ≠ none) then
      match sortTake cmp oldhead s with
      | none => none
      | some (e, s) => sortMerge cmp oldhead fuel (sortAppend s e)
    else
      some s

/- One pass over the list; count the merges in `nmerges`. -/
def sortWhile
    (cmp : E → E → Int) (insize : Nat) (oldhead : E) (bound : Nat) :
    Nat → Nat → SortPass H E → Option (Nat × SortPass H E)
  | 0, _, _ => none
  | fuel + 1, nmerges, s =>
    match s.p with
    | none => some (nmerges, s)
    | some p =>
      match sortStep s.mem oldhead insize 0 p with
      | none => none
      | some (psize, q) =>
        match sortMerge cmp oldhead bound
            { s with psize := psize, q := q, qsize := insize } with
        | none => none
        | some s =>
          sortWhile cmp insize oldhead bound fuel (nmerges + 1) { s with p := s.q }

/- What a pass starts from. -/
def sortStart
    (mem : LinkMem H E)
    (oldhead : E) : SortPass H E where
  mem := mem
  list := none
  tail := none
  p := some oldhead
  psize := 0
  q := none
  qsize := 0

/- The passes, from runs of `insize` nodes on. -/
def sortPasses
    (cmp : E → E → Int) (bound : Nat) :
    Nat → Nat → LinkMem H E → E → Option (LinkMem H E × E)
  | 0, _, _, _ => none
  | fuel + 1, insize, mem, oldhead =>
    match sortWhile cmp insize oldhead bound bound 0
        (sortStart mem oldhead) with
    | none => none
    | some (nmerges, s) =>
      match s.list, s.tail with
      | some list, some tail =>
        if nmerges ≤ 1 then
          some (s.mem.set (.entry tail) (.ref list), tail)
        else
          sortPasses cmp bound fuel (2 * insize) (s.mem.set (.entry tail) (.ref list)) list
      | _, _ => none

/-
  `_clist_sort`: sort the list that starts at `list` and
  return its last node.
-/
def clistSortList
    (bound : Nat) (cmp : E → E → Int) (mem : LinkMem H E) :
    Option E → Option (LinkMem H E × Option E)
  | none => some (mem, none)
  | some list =>
    match sortPasses cmp bound bound 1 mem list with
    | none => none
    | some (mem, tail) => some (mem, some tail)

/- Sort a circular list. -/
def clistSort
    (bound : Nat) (cmp : E → E → Int) (mem : LinkMem H E) (list : H) : Option (LinkMem H E) :=
  match mem (.head list) with
  | .null => some mem
  | .mark => none
  | .ref last =>
    match linkTarget (mem (.entry last)) with
    | none => none
    | some first =>
      match clistSortList bound cmp mem first with
      | none => none
      | some (mem, none) => some (mem.set (.head list) .null)
      | some (mem, some tail) => some (mem.set (.head list) (.ref tail))

----
-- Old and New Links
----

open LinkMem

variable {H E : Type} {mem mem' mem'' : LinkMem H E} {oldhead : E} {l l' : List E}

/- Only the links of the nodes in `l` differ. -/
def OnlyLinks
    (mem mem' : LinkMem H E) (l : List E) : Prop :=
  (∀ h, mem' (.head h) = mem (.head h)) ∧ ∀ e, e ∉ l → mem' (.entry e) = mem (.entry e)

theorem OnlyLinks.refl :
    OnlyLinks mem mem l :=
  ⟨fun _ => rfl, fun _ _ => rfl⟩

theorem OnlyLinks.trans
    (hFirst : OnlyLinks mem mem' l) (hSecond : OnlyLinks mem' mem'' l) :
    OnlyLinks mem mem'' l := by
  constructor
  · intro h
    rw [hSecond.1, hFirst.1]
  · intro e hNot
    rw [hSecond.2 e hNot, hFirst.2 e hNot]

theorem OnlyLinks.mono
    (hLinks : OnlyLinks mem mem' l) (hSub : ∀ e ∈ l, e ∈ l') :
    OnlyLinks mem mem' l' :=
  ⟨hLinks.1, fun e hNot =>
    hLinks.2 e (fun hIn => hNot (hSub e hIn))⟩

/-
  Standing at `l`, the part of the old list that is left:
  its links lead to the old first node.
-/
def Ahead
    (mem : LinkMem H E) (oldhead : E)
    (pos : Option E) : List E → Prop
  | [] => pos = none
  | e :: l => pos = some e ∧ Seg mem (mem (.entry e)) l (.ref oldhead)

/- Standing at the run `l`, which more nodes may follow. -/
def Front
    (mem : LinkMem H E)
    (pos : Option E) : List E → Prop
  | [] => True
  | e :: l => pos = some e ∧ ∃ next, Seg mem (mem (.entry e)) l (.ref next)

/- The merged list so far: `out`, up to its last link. -/
def Relinked
    (mem : LinkMem H E) (list tail : Option E) (out : List E) : Prop :=
  (out = [] ∧ list = none ∧ tail = none) ∨ ∃ first front last, out = front ++ [last] ∧
        list = some first ∧ tail = some last ∧ Seg mem (.ref first) front (.ref last)

variable {pos list tail : Option E}

theorem Ahead.congr
    (hAhead : Ahead mem oldhead pos l)
    (hSame : ∀ e ∈ l, mem' (.entry e) = mem (.entry e)) :
    Ahead mem' oldhead pos l := by
  cases l with
  | nil => exact hAhead
  | cons e l =>
    rcases hAhead with ⟨hPos, hSeg⟩
    refine ⟨hPos, ?_⟩
    rw [hSame e (by simp)]
    exact hSeg.congr (fun x hx => hSame x (by simp [hx]))

theorem Front.congr
    (hFront : Front mem pos l) (hSame : ∀ e ∈ l, mem' (.entry e) = mem (.entry e)) :
    Front mem' pos l := by
  cases l with
  | nil => trivial
  | cons e l =>
    rcases hFront with ⟨hPos, next, hSeg⟩
    refine ⟨hPos, next, ?_⟩
    rw [hSame e (by simp)]
    exact hSeg.congr (fun x hx => hSame x (by simp [hx]))

/- What is left splits into a run and the rest. -/
theorem Ahead.split
    {P Q : List E} (hAhead : Ahead mem oldhead pos (P ++ Q)) :
    Front mem pos P ∧ Ahead mem oldhead Q.head? Q := by
  cases P with
  | nil =>
    refine ⟨trivial, ?_⟩
    cases Q with
    | nil => rfl
    | cons e Q => exact ⟨rfl, hAhead.2⟩
  | cons e P =>
    rcases hAhead with ⟨hPos, hSeg⟩
    rcases Seg.append_iff.mp hSeg with ⟨r, hLeft, hRight⟩
    cases Q with
    | nil =>
      have hEnd : r = .ref oldhead := hRight
      exact ⟨⟨hPos, oldhead, hEnd ▸ hLeft⟩, rfl⟩
    | cons x Q =>
      have hEnd : r = .ref x := hRight.1
      exact ⟨⟨hPos, x, hEnd ▸ hLeft⟩, rfl, hRight.2⟩

variable [DecidableEq E]

/- Leaving the first node of what is left. -/
theorem Ahead.next
    {e : E} (hAhead : Ahead mem oldhead pos (e :: l)) (hOld : oldhead ∉ l) :
    ∃ next, sortNext mem oldhead e = some next ∧ Ahead mem oldhead next l := by
  rcases hAhead with ⟨_, hSeg⟩
  cases l with
  | nil =>
    have hEnd : mem (.entry e) = .ref oldhead := hSeg
    exact ⟨none, by simp [sortNext, hEnd], rfl⟩
  | cons x l =>
    rcases hSeg with ⟨hNext, hRest⟩
    have hNe : x ≠ oldhead := by
      intro hEq
      exact hOld (by simp [hEq])
    exact ⟨some x, by simp [sortNext, hNext, hNe], rfl, hRest⟩

/- Leaving the first node of a run. -/
theorem Front.next
    {e : E} (hFront : Front mem pos (e :: l)) (hOld : oldhead ∉ l) :
    ∃ next, sortNext mem oldhead e = some next ∧ Front mem next l := by
  rcases hFront with ⟨_, y, hSeg⟩
  cases l with
  | nil =>
    have hEnd : mem (.entry e) = .ref y := hSeg
    exact ⟨if y = oldhead then none else some y, by simp only [sortNext, hEnd], trivial⟩
  | cons x l =>
    rcases hSeg with ⟨hNext, hRest⟩
    have hNe : x ≠ oldhead := by
      intro hEq
      exact hOld (by simp [hEq])
    exact ⟨some x, by simp [sortNext, hNext, hNe], rfl, y, hRest⟩

/- Stepping along counts the run and stops behind it. -/
theorem sortStep_eq
    {insize psize : Nat} {e : E} (hAhead : Ahead mem oldhead (some e) (e :: l))
    (hOld : oldhead ∉ l) :
    sortStep mem oldhead insize psize e =
      some (psize + ((e :: l).take insize).length, ((e :: l).drop insize).head?) := by
  induction insize generalizing psize e l with
  | zero => simp [sortStep]
  | succ insize ih =>
    rcases hAhead.next hOld with ⟨next, hNext, hRest⟩
    cases l with
    | nil =>
      have hNone : next = none := hRest
      simp [sortStep, hNext, hNone]
    | cons x l =>
      have hSome : next = some x := hRest.1
      subst hSome
      have hOld' : oldhead ∉ l := by
        intro hIn
        exact hOld (by simp [hIn])
      simp only [sortStep, hNext, ih hRest hOld', List.take_succ_cons, List.drop_succ_cons,
        List.length_cons]
      congr 2
      omega

----
-- Merging
----

open LinkMem MergeRuns

variable {H E : Type} {oldhead : E} {out P Q R : List E} {s : SortPass H E}

/- The order that the comparison function stands for. -/
def sortLe
    (cmp : E → E → Int) (a b : E) : Bool :=
  decide (cmp a b ≤ 0)

/-
  The merge in progress: `out` is relinked, `P` and `Q` are
  what is left of the two runs and `R` follows them.
-/
structure Merging
    (s : SortPass H E) (oldhead : E)
    (out P Q R : List E) : Prop where
  nodup : (out ++ (P ++ (Q ++ R))).Nodup
  done : Relinked s.mem s.list s.tail out
  pAt : Front s.mem s.p P
  psize : s.psize = P.length
  pOld : oldhead ∉ P.tail
  qAt : Ahead s.mem oldhead s.q (Q ++ R)
  qsize : Q.length ≤ s.qsize
  qFull : R ≠ [] → s.qsize = Q.length
  qOld : oldhead ∉ Q ++ R

variable [DecidableEq H] [DecidableEq E]

/- Appending leaves the positions as they are. -/
@[simp]
theorem sortAppend_p
    (s : SortPass H E) (e : E) :
    (sortAppend s e).p = s.p := by
  unfold sortAppend
  split <;> rfl

@[simp]
theorem sortAppend_psize
    (s : SortPass H E) (e : E) :
    (sortAppend s e).psize = s.psize := by
  unfold sortAppend
  split <;> rfl

@[simp]
theorem sortAppend_q
    (s : SortPass H E) (e : E) :
    (sortAppend s e).q = s.q := by
  unfold sortAppend
  split <;> rfl

@[simp]
theorem sortAppend_qsize
    (s : SortPass H E) (e : E) :
    (sortAppend s e).qsize = s.qsize := by
  unfold sortAppend
  split <;> rfl

/- The merged list grows at its end. -/
theorem Relinked.append
    {e : E} (hDone : Relinked s.mem s.list s.tail out) (hNodup : out.Nodup) :
    Relinked (sortAppend s e).mem (sortAppend s e).list
        (sortAppend s e).tail (out ++ [e]) ∧ OnlyLinks s.mem (sortAppend s e).mem out := by
  rcases hDone with ⟨rfl, _, hTail⟩ | ⟨first, front, last, rfl, hList, hTail, hSeg⟩
  · have hEq : sortAppend s e = { s with list := some e, tail := some e } := by
      simp only [sortAppend, hTail]
    rw [hEq]
    exact ⟨.inr ⟨e, [], e, rfl, rfl, rfl, rfl⟩, .refl⟩
  · have hEq : sortAppend s e = { s with
            mem := s.mem.set (.entry last) (.ref e)
            tail := some e } := by
      simp only [sortAppend, hTail]
    have hNot : last ∉ front := by
      intro hIn
      exact (List.nodup_append.mp hNodup).2.2 last hIn last (by simp) rfl
    rw [hEq]
    constructor
    · refine .inr ⟨first, front ++ [last], e, rfl, hList, rfl, ?_⟩
      rw [Seg.snoc_iff]
      exact ⟨hSeg.set_of_notMem hNot, set_same _ _ _⟩
    · constructor
      · intro h
        exact set_entry_head s.mem last (.ref e) h
      · intro x hx
        apply set_of_ne
        intro hSame
        cases hSame
        exact hx (by simp)

/- A taken element `x` is appended, the rest stays linked. -/
theorem Merging.append
    {x : E} (hNodup : (out ++ x :: (P ++ (Q ++ R))).Nodup)
    (hDone : Relinked s.mem s.list s.tail out) (hFront : Front s.mem s.p P)
    (hPsize : s.psize = P.length) (hPold : oldhead ∉ P.tail)
    (hAhead : Ahead s.mem oldhead s.q (Q ++ R)) (hQsize : Q.length ≤ s.qsize)
    (hFull : R ≠ [] → s.qsize = Q.length) (hQold : oldhead ∉ Q ++ R) :
    Merging (sortAppend s x) oldhead (out ++ [x]) P Q R ∧
      OnlyLinks s.mem (sortAppend s x).mem out := by
  rcases List.nodup_append.mp hNodup with ⟨hOut, _, hApart⟩
  rcases hDone.append hOut (e := x) with ⟨hDone', hLinks⟩
  have hKept : ∀ e ∈ P ++ (Q ++ R), (sortAppend s x).mem (.entry e) = s.mem (.entry e) := by
    intro e he
    apply hLinks.2
    intro hIn
    exact hApart e hIn e (List.mem_cons_of_mem x he) rfl
  refine ⟨?_, hLinks⟩
  constructor
  · simpa using hNodup
  · exact hDone'
  · rw [sortAppend_p]
    exact hFront.congr (fun e he => hKept e (List.mem_append_left _ he))
  · rw [sortAppend_psize, hPsize]
  · exact hPold
  · rw [sortAppend_q]
    exact hAhead.congr (fun e he => hKept e (List.mem_append_right _ he))
  · rw [sortAppend_qsize]
    exact hQsize
  · rw [sortAppend_qsize]
    exact hFull
  · exact hQold

/- An element of the first run is taken. -/
theorem Merging.takeP
    {x : E} (hM : Merging s oldhead out (x :: P) Q R) :
    ∃ s', sortTakeP oldhead s = some (x, s') ∧
        Merging (sortAppend s' x) oldhead (out ++ [x]) P Q R ∧
        OnlyLinks s.mem (sortAppend s' x).mem out := by
  rcases hM.pAt.next hM.pOld with ⟨next, hNext, hFront⟩
  refine
    ⟨{ s with p := next, psize := s.psize - 1 }, ?_, ?_⟩
  · simp only [sortTakeP, hM.pAt.1, hNext]
  · refine Merging.append hM.nodup hM.done hFront ?_ ?_ hM.qAt hM.qsize hM.qFull hM.qOld
    · simp [hM.psize]
    · exact fun hIn => hM.pOld (List.mem_of_mem_tail hIn)

/- An element of the second run is taken. -/
theorem Merging.takeQ
    {x : E} (hM : Merging s oldhead out P (x :: Q) R) :
    ∃ s', sortTakeQ oldhead s = some (x, s') ∧
        Merging (sortAppend s' x) oldhead (out ++ [x]) P Q R ∧
        OnlyLinks s.mem (sortAppend s' x).mem out := by
  have hOld : oldhead ∉ Q ++ R := by
    intro hIn
    exact hM.qOld (List.mem_cons_of_mem x hIn)
  rcases hM.qAt.next hOld with ⟨next, hNext, hAhead⟩
  have hNodup : (out ++ x :: (P ++ (Q ++ R))).Nodup := by
    have hPerm : (out ++ x :: (P ++ (Q ++ R))).Perm (out ++ (P ++ (x :: Q ++ R))) :=
      (List.perm_middle.symm).append_left out
    exact hPerm.nodup_iff.mpr hM.nodup
  refine
    ⟨{ s with q := next, qsize := s.qsize - 1 }, ?_, ?_⟩
  · simp only [sortTakeQ, hM.qAt.1, hNext]
  · have hSize := hM.qsize
    rw [List.length_cons] at hSize
    refine Merging.append hNodup hM.done hM.pAt hM.psize hM.pOld hAhead ?_ ?_ hOld
    · dsimp only
      omega
    · intro hNe
      have hFull := hM.qFull hNe
      rw [List.length_cons] at hFull
      dsimp only
      omega

omit [DecidableEq H] [DecidableEq E] in
/- The loop goes on as long as there is something to merge. -/
theorem Merging.continues
    (hM : Merging s oldhead out P Q R) :
    (0 < s.psize ∨ (0 < s.qsize ∧ s.q ≠ none)) ↔ (P ≠ [] ∨ Q ≠ []) := by
  have hP : 0 < s.psize ↔ P ≠ [] := by
    rw [hM.psize, List.length_pos_iff]
  have hQ : (0 < s.qsize ∧ s.q ≠ none) ↔ Q ≠ [] := by
    constructor
    · rintro ⟨hPos, hAt⟩ rfl
      by_cases hR : R = []
      · subst hR
        exact hAt hM.qAt
      · have hFull := hM.qFull hR
        rw [List.length_nil] at hFull
        omega
    · intro hNe
      cases Q with
      | nil => exact absurd rfl hNe
      | cons y Q =>
        have hSize := hM.qsize
        rw [List.length_cons] at hSize
        refine ⟨by omega, ?_⟩
        rw [hM.qAt.1]
        simp
  rw [hP, hQ]

/- One step takes the next element of the merge. -/
theorem Merging.take
    (cmp : E → E → Int) (hM : Merging s oldhead out P Q R)
    (hMore : P ≠ [] ∨ Q ≠ []) :
    ∃ x s' P' Q', sortTake cmp oldhead s = some (x, s') ∧
        P.merge Q (sortLe cmp) = x :: P'.merge Q' (sortLe cmp) ∧
        P'.length + Q'.length + 1 = P.length + Q.length ∧
        Merging (sortAppend s' x) oldhead (out ++ [x]) P' Q' R ∧
        OnlyLinks s.mem (sortAppend s' x).mem out := by
  cases P with
  | nil =>
    cases Q with
    | nil => simp at hMore
    | cons y Q =>
      have hZero : s.psize = 0 := hM.psize
      rcases hM.takeQ with ⟨s', hTake, hM', hLinks⟩
      refine ⟨y, s', [], Q, ?_, by simp, by simp, hM', hLinks⟩
      rw [sortTake, if_pos hZero, hTake]
  | cons x P =>
    have hPos : s.psize ≠ 0 := by
      simp [hM.psize]
    cases Q with
    | nil =>
      have hEmpty : s.qsize = 0 ∨ s.q = none := by
        by_cases hR : R = []
        · subst hR
          exact .inr hM.qAt
        · exact .inl (hM.qFull hR)
      rcases hM.takeP with ⟨s', hTake, hM', hLinks⟩
      refine ⟨x, s', P, [], ?_, by simp, by simp, hM', hLinks⟩
      rw [sortTake, if_neg hPos, if_pos hEmpty, hTake]
    | cons y Q =>
      have hBoth : ¬ (s.qsize = 0 ∨ s.q = none) := by
        have hSize := hM.qsize
        rw [List.length_cons] at hSize
        rw [hM.qAt.1]
        simp only [reduceCtorEq, or_false]
        omega
      by_cases hLe : cmp x y ≤ 0
      · rcases hM.takeP with ⟨s', hTake, hM', hLinks⟩
        refine ⟨x, s', P, y :: Q, ?_, ?_, ?_, hM', hLinks⟩
        · rw [sortTake, if_neg hPos, if_neg hBoth, hM.pAt.1, hM.qAt.1]
          simp only [hLe, if_true, hTake]
        · exact List.cons_merge_cons_pos _ _ _ (decide_eq_true hLe)
        · simp only [List.length_cons]
          omega
      · rcases hM.takeQ with ⟨s', hTake, hM', hLinks⟩
        refine ⟨y, s', x :: P, Q, ?_, ?_, ?_, hM', hLinks⟩
        · rw [sortTake, if_neg hPos, if_neg hBoth, hM.pAt.1, hM.qAt.1]
          simp only [hLe, if_false, hTake]
        · exact List.cons_merge_cons_neg _ _ _ (by simpa [sortLe] using hLe)
        · simp only [List.length_cons]
          omega

/- The loop relinks the merge of what is left of the runs. -/
theorem sortMerge_spec
    (cmp : E → E → Int) {fuel : Nat} (hM : Merging s oldhead out P Q R)
    (hFuel : P.length + Q.length < fuel) :
    ∃ s', sortMerge cmp oldhead fuel s = some s' ∧
        Merging s' oldhead (out ++ P.merge Q (sortLe cmp)) [] [] R ∧
        OnlyLinks s.mem s'.mem (out ++ (P ++ Q)) := by
  induction fuel generalizing s out P Q with
  | zero => omega
  | succ fuel ih =>
    by_cases hMore : P ≠ [] ∨ Q ≠ []
    · rcases hM.take cmp hMore with ⟨x, s₁, P', Q', hTake, hMerge, hLen, hM₁, hLinks₁⟩
      rcases ih hM₁ (by omega) with ⟨s₂, hLoop, hM₂, hLinks₂⟩
      refine ⟨s₂, ?_, ?_, ?_⟩
      · rw [sortMerge, if_pos (hM.continues.mpr hMore), hTake]
        exact hLoop
      · rw [hMerge]
        simpa using hM₂
      · have hIn : ∀ e, e ∈ x :: P'.merge Q' (sortLe cmp) ↔ e ∈ P ∨ e ∈ Q := by
          intro e
          rw [← hMerge, List.mem_merge]
        refine (hLinks₁.mono ?_).trans (hLinks₂.mono ?_)
        · exact fun e he => List.mem_append_left _ he
        · intro e he
          have hTaken := (hIn e)
          simp only [List.mem_append, List.mem_cons, List.mem_merge, List.not_mem_nil, or_false]
            at he hTaken ⊢
          rcases he with (hOut | hx) | hRest
          · exact .inl hOut
          · exact .inr (hTaken.mp (.inl hx))
          · exact .inr (hTaken.mp (.inr hRest))
    · have hDone := mt hM.continues.mp hMore
      push Not at hMore
      rcases hMore with ⟨rfl, rfl⟩
      refine ⟨s, ?_, by simpa using hM, .refl⟩
      rw [sortMerge, if_neg hDone]

----
-- Passes
----

variable {H E : Type} [DecidableEq H] [DecidableEq E] {oldhead : E}
variable {out : List E} {rs : List (List E)} {s : SortPass H E} {mem : LinkMem H E}

/- Between two merges: `out` is relinked, `l` is left. -/
structure Passing
    (s : SortPass H E) (oldhead : E)
    (out l : List E) : Prop where
  nodup : (out ++ l).Nodup
  done : Relinked s.mem s.list s.tail out
  pAt : Ahead s.mem oldhead s.p l
  pOld : oldhead ∉ l.tail

omit [DecidableEq H] in
/- Stepping along splits off the first run. -/
theorem Passing.merging
    {insize : Nat} {x : E} {P Q R : List E}
    (hPass : Passing s oldhead out ((x :: P) ++ (Q ++ R)))
    (hP : (x :: P).length ≤ insize) (hFull : Q ++ R ≠ [] → (x :: P).length = insize)
    (hQ : Q.length ≤ insize) (hQfull : R ≠ [] → Q.length = insize) :
    s.p = some x ∧ sortStep s.mem oldhead insize 0 x = some ((x :: P).length, (Q ++ R).head?) ∧
      Merging { s with psize := (x :: P).length, q := (Q ++ R).head?, qsize := insize }
        oldhead out (x :: P) Q R := by
  have hTake : ((x :: P) ++ (Q ++ R)).take insize = x :: P := by
    by_cases hRest : Q ++ R = []
    · rw [hRest, List.append_nil, List.take_of_length_le hP]
    · rw [← hFull hRest, List.take_left']
      rfl
  have hDrop : ((x :: P) ++ (Q ++ R)).drop insize = Q ++ R := by
    by_cases hRest : Q ++ R = []
    · rw [hRest, List.append_nil, List.drop_of_length_le hP]
    · rw [← hFull hRest, List.drop_left']
      rfl
  have hAt := hPass.pAt
  have hPos : s.p = some x := hAt.1
  rw [hPos] at hAt
  have hStep : sortStep s.mem oldhead insize 0 x = some
          (0 + (((x :: P) ++ (Q ++ R)).take insize).length,
            (((x :: P) ++ (Q ++ R)).drop insize).head?) :=
    sortStep_eq hAt hPass.pOld
  rw [hTake, hDrop, Nat.zero_add] at hStep
  rcases Ahead.split hPass.pAt with ⟨hFront, hAhead⟩
  have hOld : oldhead ∉ P ∧ oldhead ∉ Q ++ R := by
    have hTail := hPass.pOld
    rw [List.cons_append, List.tail_cons, List.mem_append] at hTail
    exact not_or.mp hTail
  refine ⟨hPos, hStep, ?_⟩
  exact
    { nodup := hPass.nodup
      done := hPass.done
      pAt := hFront
      psize := rfl
      pOld := hOld.1
      qAt := hAhead
      qsize := hQ
      qFull := fun hNe => (hQfull hNe).symm
      qOld := hOld.2 }

/- One merge relinks two runs. -/
theorem Passing.merge
    (cmp : E → E → Int) {insize bound : Nat} {P Q R : List E} (hNe : P ≠ [])
    (hPass : Passing s oldhead out (P ++ (Q ++ R))) (hP : P.length ≤ insize)
    (hFull : Q ++ R ≠ [] → P.length = insize) (hQ : Q.length ≤ insize)
    (hQfull : R ≠ [] → Q.length = insize) (hBound : P.length + Q.length < bound) :
    ∃ s', (∀ fuel nmerges, sortWhile cmp insize oldhead bound (fuel + 1)
            nmerges s = sortWhile cmp insize oldhead bound fuel (nmerges + 1) s') ∧
        Passing s' oldhead (out ++ P.merge Q (sortLe cmp)) R ∧
        OnlyLinks s.mem s'.mem (out ++ (P ++ Q)) := by
  cases P with
  | nil => exact absurd rfl hNe
  | cons x P =>
    rcases hPass.merging hP hFull hQ hQfull with ⟨hPos, hStep, hM⟩
    rcases sortMerge_spec cmp hM hBound with ⟨s₁, hMerge, hM₁, hLinks⟩
    refine ⟨{ s₁ with p := s₁.q }, ?_, ?_, hLinks⟩
    · intro fuel nmerges
      rw [hPos] at hMerge
      rw [sortWhile, hPos]
      simp only [hStep, hMerge]
    · have hOld := hM₁.qOld
      have hNodup := hM₁.nodup
      have hAhead := hM₁.qAt
      rw [List.nil_append] at hOld hAhead
      rw [List.nil_append, List.nil_append] at hNodup
      exact
        { nodup := hNodup
          done := hM₁.done
          pAt := hAhead
          pOld := fun hIn =>
            hOld (List.mem_of_mem_tail hIn) }

/- A pass merges all runs two by two and counts the merges. -/
theorem sortWhile_spec
    (cmp : E → E → Int) {insize bound fuel nmerges : Nat} (hRuns : RunsOf insize rs)
    (hPass : Passing s oldhead out rs.flatten) (hBound : rs.flatten.length < bound)
    (hFuel : rs.length < fuel) :
    ∃ s', sortWhile cmp insize oldhead bound fuel nmerges s =
          some (nmerges + (mergePairs (sortLe cmp) rs).length, s') ∧
        Passing s' oldhead (out ++ (mergePairs (sortLe cmp) rs).flatten) [] ∧
        OnlyLinks s.mem s'.mem (out ++ rs.flatten) := by
  induction rs using mergePairs.induct generalizing s out fuel nmerges with
  | case1 =>
    cases fuel with
    | zero => simp at hFuel
    | succ fuel =>
      have hNone : s.p = none := hPass.pAt
      refine ⟨s, ?_, ?_, .refl⟩
      · simp only [sortWhile, hNone, mergePairs, List.length_nil, Nat.add_zero]
      · simpa [mergePairs] using hPass
  | case2 r =>
    rcases hRuns.head with ⟨hNe, hLe, _⟩
    have hPass' : Passing s oldhead out (r ++ ([] ++ [])) := by
      simpa using hPass
    have hLen : r.length + 0 < bound := by
      simpa using hBound
    rcases hPass'.merge cmp hNe hLe (by simp) (by simp)
        (by simp) hLen with
      ⟨s₁, hNext, hPass₁, hLinks₁⟩
    cases fuel with
    | zero => simp at hFuel
    | succ fuel =>
      cases fuel with
      | zero => simp at hFuel
      | succ fuel =>
        have hNone : s₁.p = none := hPass₁.pAt
        refine ⟨s₁, ?_, ?_, ?_⟩
        · rw [hNext, sortWhile, hNone]
          rfl
        · simpa [mergePairs] using hPass₁
        · simpa using hLinks₁
  | case3 r₁ r₂ rs ih =>
    rcases hRuns.head with ⟨hNe₁, hLe₁, hFull₁⟩
    rcases hRuns.tail.head with ⟨_, hLe₂, hFull₂⟩
    have hMore : rs.flatten ≠ [] → rs ≠ [] := by
      rintro hNe rfl
      exact hNe rfl
    have hSum : r₁.length + r₂.length + rs.flatten.length < bound := by
      simp only [List.flatten_cons, List.length_append] at hBound
      omega
    have hTwo : r₁.length + r₂.length < bound := by omega
    rcases Passing.merge cmp hNe₁ hPass hLe₁
        (fun _ => hFull₁ (by simp)) hLe₂
        (fun hNe => hFull₂ (hMore hNe)) hTwo with
      ⟨s₁, hNext, hPass₁, hLinks₁⟩
    cases fuel with
    | zero => simp at hFuel
    | succ fuel =>
      rw [List.length_cons, List.length_cons] at hFuel
      have hRest : rs.flatten.length < bound := by omega
      have hLeft : rs.length < fuel := by omega
      rcases @ih (out ++ r₁.merge r₂ (sortLe cmp)) s₁ fuel
          (nmerges + 1) hRuns.tail.tail hPass₁ hRest
          hLeft with
        ⟨s₂, hLoop, hPass₂, hLinks₂⟩
      refine ⟨s₂, ?_, ?_, ?_⟩
      · rw [hNext, hLoop]
        simp only [mergePairs, List.length_cons]
        congr 2
        omega
      · simpa [mergePairs] using hPass₂
      · refine (hLinks₁.mono ?_).trans (hLinks₂.mono ?_)
        · intro e he
          simp only [List.flatten_cons, List.mem_append] at he ⊢
          rcases he with hOut | h₁ | h₂
          · exact .inl hOut
          · exact .inr (.inl h₁)
          · exact .inr (.inr (.inl h₂))
        · intro e he
          simp only [List.flatten_cons, List.mem_append, List.mem_merge] at he ⊢
          rcases he with (hOut | h₁ | h₂) | hRest
          · exact .inl hOut
          · exact .inr (.inl h₁)
          · exact .inr (.inr (.inl h₂))
          · exact .inr (.inr (.inr hRest))

----
-- The Sorted List
----

variable {H E : Type} [DecidableEq H] [DecidableEq E] {mem : LinkMem H E}
variable {list : H} {l : List E} {rs : List (List E)}

/- The list that starts at `first` and returns to it. -/
structure Loop
    (mem : LinkMem H E) (first last : E)
    (l : List E) : Prop where
  nodup : l.Nodup
  tail : l.getLast? = some last
  links : Seg mem (.ref first) l (.ref first)

omit [DecidableEq H] [DecidableEq E] in
theorem circular_loop
    {x : E} {rest : List E} (hCirc : IsCircular mem list (x :: rest)) :
    ∃ last,
      mem (.head list) = .ref last ∧ mem (.entry last) = .ref x ∧ Loop mem x last (x :: rest) := by
  rcases circular_first hCirc with ⟨last, hLast, hRef, hFirst⟩
  refine ⟨last, hRef, hFirst, hCirc.1, hLast, ?_⟩
  rcases hCirc.2 with ⟨hNil, _⟩ | ⟨front, last', hEq, hRef', hSeg⟩
  · cases hNil
  · rw [hRef] at hRef'
    cases hRef'
    rw [hFirst] at hSeg
    rw [hEq, Seg.snoc_iff]
    exact ⟨hSeg, hFirst⟩

/- The reference to the last node makes it a circular list. -/
theorem Loop.circular
    {first last : E} (hLoop : Loop mem first last l) :
    IsCircular (mem.set (.head list) (.ref last)) list l := by
  rcases List.eq_nil_or_concat l with rfl | ⟨front, e, rfl⟩
  · have hTail := hLoop.tail
    simp at hTail
  · have hTail := hLoop.tail
    have hLinks := hLoop.links
    have hNodup := hLoop.nodup
    rw [List.concat_eq_append] at *
    rw [List.getLast?_append, List.getLast?_singleton] at hTail
    cases hTail
    rcases Seg.snoc_iff.mp hLinks with ⟨hSeg, hEnd⟩
    rw [IsCircular.snoc_iff]
    refine ⟨hNodup, set_same _ _ _, ?_⟩
    rw [set_head_entry, hEnd]
    exact hSeg.set_head

/- A finished pass is closed to a loop again. -/
theorem Passing.closed
    {s : SortPass H E} {oldhead : E} {out : List E}
    (hPass : Passing s oldhead out []) (hNe : out ≠ []) :
    ∃ first last, s.list = some first ∧ s.tail = some last ∧
        Loop (s.mem.set (.entry last) (.ref first)) first last out ∧
        OnlyLinks s.mem (s.mem.set (.entry last) (.ref first)) out := by
  have hNodup := hPass.nodup
  rw [List.append_nil] at hNodup
  rcases hPass.done with ⟨hNil, _⟩ | ⟨first, front, last, rfl, hList, hTail, hSeg⟩
  · exact absurd hNil hNe
  · have hNot : last ∉ front := by
      intro hIn
      exact (List.nodup_append.mp hNodup).2.2 last hIn last (by simp) rfl
    refine ⟨first, last, hList, hTail, ⟨hNodup, by simp, ?_⟩, ?_, ?_⟩
    · rw [Seg.snoc_iff]
      exact ⟨hSeg.set_of_notMem hNot, set_same _ _ _⟩
    · intro h
      exact set_entry_head s.mem last (.ref first) h
    · intro x hx
      apply set_of_ne
      intro hSame
      cases hSame
      exact hx (by simp)

omit [DecidableEq H] [DecidableEq E] in
/- A pass starts at the first node of the loop. -/
theorem Loop.passing
    {first last : E} (hLoop : Loop mem first last l) :
    Passing (sortStart mem first) first [] l := by
  have hNodup := hLoop.nodup
  have hLinks := hLoop.links
  cases l with
  | nil =>
    have hTail := hLoop.tail
    simp at hTail
  | cons x rest =>
    rcases hLinks with ⟨hFirst, hSeg⟩
    cases hFirst
    exact
      { nodup := hNodup
        done := .inl ⟨rfl, rfl, rfl⟩
        pAt := ⟨rfl, hSeg⟩
        pOld := (List.nodup_cons.mp hNodup).1 }

variable (cmp : E → E → Int) {bound insize : Nat} {first last : E}

/- One pass over the loop makes a loop of the merged runs. -/
theorem sortWhile_loop
    (hRuns : RunsOf insize rs) (hNe : rs ≠ [])
    (hLoop : Loop mem first last rs.flatten) (hBound : rs.flatten.length < bound) :
    ∃ s first' last', sortWhile cmp insize first bound bound 0
          (sortStart mem first) = some ((mergePairs (sortLe cmp) rs).length, s) ∧
        s.list = some first' ∧ s.tail = some last' ∧
        Loop (s.mem.set (.entry last') (.ref first')) first' last'
          (mergePairs (sortLe cmp) rs).flatten ∧
        OnlyLinks mem (s.mem.set (.entry last') (.ref first')) rs.flatten := by
  have hMany := hRuns.length_le_flatten
  rcases sortWhile_spec cmp hRuns hLoop.passing hBound
      (Nat.lt_of_le_of_lt hMany hBound) with
    ⟨s, hWhile, hPass, hLinks⟩
  rw [Nat.zero_add] at hWhile
  rw [List.nil_append] at hPass hLinks
  have hOut : (mergePairs (sortLe cmp) rs).flatten ≠ [] := by
    intro hNil
    have hPerm : (mergePairs (sortLe cmp) rs).flatten.Perm
          rs.flatten :=
      mergePairs_perm
    rw [hNil] at hPerm
    exact hRuns.flatten_ne_nil hNe hPerm.nil_eq.symm
  rcases hPass.closed hOut with ⟨first', last', hList, hTail, hLoop', hClose⟩
  refine ⟨s, first', last', hWhile, hList, hTail, hLoop', hLinks.trans (hClose.mono ?_)⟩
  intro e he
  exact mergePairs_perm.mem_iff.mp he

/-
  The passes go on, with runs twice as long each time, until
  one merge has made the whole list one run.
-/
theorem sortPasses_spec
    {fuel : Nat}
    (hTrans : ∀ a b c, sortLe cmp a b → sortLe cmp b c → sortLe cmp a c)
    (hTotal : ∀ a b, sortLe cmp a b || sortLe cmp b a) (hRuns : RunsOf insize rs)
    (hStable : StableRuns (sortLe cmp) l rs) (hNe : rs ≠ [])
    (hLoop : Loop mem first last rs.flatten) (hBound : rs.flatten.length < bound)
    (hFuel : rs.length ≤ fuel) :
    ∃ mem' first' last' r, sortPasses cmp bound fuel insize mem first = some (mem', last') ∧
        StableRuns (sortLe cmp) l [r] ∧ Loop mem' first' last' r ∧
        OnlyLinks mem mem' rs.flatten := by
  induction fuel generalizing rs mem insize first last with
  | zero =>
    have hNil := List.length_eq_zero_iff.mp (Nat.le_zero.mp hFuel)
    exact absurd hNil hNe
  | succ fuel ih =>
    have hPos := List.length_pos_iff.mpr hNe
    have hHalf : (mergePairs (sortLe cmp) rs).length = (rs.length + 1) / 2 := length_mergePairs
    have hPerm : (mergePairs (sortLe cmp) rs).flatten.Perm
          rs.flatten :=
      mergePairs_perm
    have hStable' := hStable.mergePairs hTrans hTotal
    rcases sortWhile_loop cmp hRuns hNe hLoop hBound with
      ⟨s, first', last', hWhile, hList, hTail, hLoop', hLinks⟩
    by_cases hOne : (mergePairs (sortLe cmp) rs).length ≤ 1
    · -- a single merge: its result is the list
      have hLen : (mergePairs (sortLe cmp) rs).length = 1 := by
        omega
      rcases List.length_eq_one_iff.mp hLen with ⟨r, hr⟩
      rw [hr] at hStable' hLoop'
      refine ⟨_, first', last', r, ?_, hStable', by simpa using hLoop', hLinks⟩
      rw [sortPasses, hWhile]
      simp only [hList, hTail, if_pos hOne]
    · have hNe' : mergePairs (sortLe cmp) rs ≠ [] := by
        intro hNil
        rw [hNil] at hOne
        exact hOne (Nat.zero_le 1)
      have hFuel' : (mergePairs (sortLe cmp) rs).length ≤ fuel := by
        omega
      rcases ih hRuns.mergePairs hStable' hNe' hLoop'
          (hPerm.length_eq ▸ hBound) hFuel' with
        ⟨mem', first'', last'', r, hRun, hSorted, hEnd, hLinks'⟩
      refine ⟨mem', first'', last'', r, ?_, hSorted, hEnd, hLinks.trans (hLinks'.mono ?_)⟩
      · rw [sortPasses, hWhile]
        simp only [hList, hTail, if_neg hOne, hRun]
      · exact fun e he => hPerm.mem_iff.mp he

/-
  A comparison function that is a total preorder: `a` is not
  larger than `b` when the result is not positive.
-/
structure TotalPreorderCmp
    (cmp : E → E → Int) : Prop where
  total : ∀ a b, cmp a b ≤ 0 ∨ cmp b a ≤ 0
  trans : ∀ a b c, cmp a b ≤ 0 → cmp b c ≤ 0 → cmp a c ≤ 0

/-
  Sorting ends in a circular list of the same nodes, in
  non-decreasing order, with the reference at its last node.
  Nodes that compare equal keep their order.
-/
theorem clistSort_stable
    (hCmp : TotalPreorderCmp cmp) (hCirc : IsCircular mem list l)
    (hBound : l.length < bound) :
    ∃ mem' l', clistSort bound cmp mem list = some mem' ∧ IsCircular mem' list l' ∧ l'.Perm l ∧
        l'.Pairwise (fun a b => cmp a b ≤ 0) ∧
        (∀ a b, cmp a b ≤ 0 → cmp b a ≤ 0 → [a, b].Sublist l → [a, b].Sublist l') ∧
        clistRpeek mem' list = some l'.getLast? ∧
        (∀ h, h ≠ list → mem' (.head h) = mem (.head h)) ∧
        (∀ e, e ∉ l → mem' (.entry e) = mem (.entry e)) := by
  cases l with
  | nil =>
    have hNull := IsCircular.nil_iff.mp hCirc
    exact ⟨mem, [], by simp [clistSort, hNull], hCirc, .refl _, .nil, fun _ _ _ _ hSub => hSub,
      clistRpeek_eq hCirc, fun _ _ => rfl, fun _ _ => rfl⟩
  | cons x rest =>
    rcases circular_loop hCirc with ⟨last, hRef, hFirst, hLoop⟩
    have hFlat : ((x :: rest).map ([·])).flatten = x :: rest := flatten_singletons _
    have hLoop' : Loop mem x last ((x :: rest).map ([·])).flatten := by
      rw [hFlat]
      exact hLoop
    have hTrans : ∀ a b c, sortLe cmp a b → sortLe cmp b c → sortLe cmp a c := by
      intro a b c hab hbc
      exact decide_eq_true (hCmp.trans a b c (of_decide_eq_true hab) (of_decide_eq_true hbc))
    have hTotal : ∀ a b, sortLe cmp a b || sortLe cmp b a := by
      intro a b
      simpa [sortLe] using hCmp.total a b
    have hFuel : ((x :: rest).map ([·])).length ≤ bound := by
      rw [List.length_map]
      exact Nat.le_of_lt hBound
    rcases sortPasses_spec cmp hTrans hTotal
        (runsOf_singletons (x :: rest))
        (stableRuns_singletons (x :: rest)) (by simp) hLoop'
        (hFlat.symm ▸ hBound) hFuel with
      ⟨mem', first', last', l', hRun, hStable, hEnd, hLinks⟩
    rw [hFlat] at hLinks
    have hOut : [l'].flatten = l' := by simp
    have hSort : clistSort bound cmp mem list = some (mem'.set (.head list) (.ref last')) := by
      simp only [clistSort, hRef, hFirst, linkTarget, clistSortList, hRun]
    have hCirc' :
        IsCircular (mem'.set (.head list) (.ref last')) list
          l' :=
      hEnd.circular
    refine ⟨_, l', hSort, hCirc', ?_, ?_, ?_, clistRpeek_eq hCirc', ?_, ?_⟩
    · exact hOut ▸ hStable.perm
    · have hSorted := hStable.sorted l' (by simp)
      exact hSorted.imp (fun hLe => of_decide_eq_true hLe)
    · intro a b hab hba hSub
      have hRefl : ∀ y, sortLe cmp y y := by
        intro y
        simpa [sortLe] using hCmp.total y y
      have hKept := hStable.pair_sublist hRefl ⟨decide_eq_true hab, decide_eq_true hba⟩ hSub
      exact hOut ▸ hKept
    · intro h hNe
      rw [set_of_ne _ _ (by simpa using hNe), hLinks.1]
    · intro e hNot
      rw [set_head_entry, hLinks.2 e hNot]

/- Sorting `[1, 2, 3]` by parity keeps `1` before `3`. -/
theorem clistSort_stable_parity :
    ∃ mem' l',
      clistSort 4 (fun a b : Nat => (a % 2 : Int) - (b % 2))
          sampleClist () = some mem' ∧ IsCircular mem' () l' ∧ l'.Perm [1, 2, 3] ∧
        [1, 3].Sublist l' := by
  have hCmp :
      TotalPreorderCmp (fun a b : Nat => (a % 2 : Int) - (b % 2)) :=
    ⟨fun a b => by omega, fun a b c _ _ => by omega⟩
  rcases clistSort_stable _ hCmp sampleClist_circular
      (Nat.lt_succ_self 3) with
    ⟨mem', l', hRun, hCirc, hPerm, _, hStable, _⟩
  exact ⟨mem', l', hRun, hCirc, hPerm, hStable 1 3 (by decide) (by decide) (by decide)⟩

end Riot
