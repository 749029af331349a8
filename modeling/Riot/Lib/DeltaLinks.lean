import Riot.Lib.DeltaList
import Riot.Lib.LinkMemory

/-
  Delta lists in linked memory: every list member has a
  pointer field and a 32-bit distance.
-/

----
-- Counters
----

namespace Counter

variable {n m : Nat}

/- The distance of two values of a counter. -/
theorem toNat_ofNat_sub_le
    (hLe : n ≤ m) :
    (BitVec.ofNat 32 m - BitVec.ofNat 32 n).toNat ≤ m - n := by
  rw [BitVec.toNat_sub, BitVec.toNat_ofNat, BitVec.toNat_ofNat]
  omega

theorem toNat_ofNat_sub
    (hLe : n ≤ m) (hLt : m < n + 2 ^ 32) :
    (BitVec.ofNat 32 m - BitVec.ofNat 32 n).toNat = m - n := by
  rw [BitVec.toNat_sub, BitVec.toNat_ofNat, BitVec.toNat_ofNat]
  omega

end Counter

----
-- Memory
----

/- Pointer fields and distances. -/
structure DeltaMem (H E : Type) where
  next : LinkMem H E
  offset : E → BitVec 32

namespace DeltaMem

variable {H E : Type}

/- The members with their distances. -/
def deltas
    (m : DeltaMem H E) (l : List E) : List (E × Nat) :=
  l.map (fun e => (e, (m.offset e).toNat))

@[simp]
theorem deltas_keys
    (m : DeltaMem H E) (l : List E) :
    (m.deltas l).map Prod.fst = l := by
  unfold deltas
  rw [List.map_map]
  exact List.map_id l

@[simp]
theorem deltas_cons
    (m : DeltaMem H E) (e : E) (l : List E) :
    m.deltas (e :: l) = (e, (m.offset e).toNat) :: m.deltas l := rfl

theorem deltas_append
    (m : DeltaMem H E) (z r : List E) :
    m.deltas (z ++ r) = m.deltas z ++ m.deltas r :=
  List.map_append

theorem deltas_congr
    {m m' : DeltaMem H E} {l : List E} (hSame : ∀ e ∈ l, m'.offset e = m.offset e) :
    m'.deltas l = m.deltas l := by
  apply List.map_congr_left
  intro e hIn
  rw [hSame e hIn]

/- The list that starts at a field, up to null. -/
def Holds
    (m : DeltaMem H E) (c : Cell H E) (l : List E) : Prop :=
  LinkMem.Seg m.next (m.next c) l .null

/- The field belongs to none of the members. -/
def Outside
    (c : Cell H E) (l : List E) : Prop :=
  ∀ e ∈ l, c ≠ .entry e

theorem Holds.congr
    {m m' : DeltaMem H E} {c : Cell H E} {l : List E} (hHolds : m.Holds c l)
    (hField : m'.next c = m.next c)
    (hSame : ∀ e ∈ l, m'.next (.entry e) = m.next (.entry e)) :
    m'.Holds c l := by
  unfold Holds
  rw [hField]
  exact LinkMem.Seg.congr hHolds hSame

/- The last member is the one that points to null. -/
theorem Holds.next_null_iff
    {m : DeltaMem H E} {c : Cell H E} {e : E} {l : List E} (hHolds : m.Holds c l)
    (hNodup : l.Nodup) (hIn : e ∈ l) :
    m.next (.entry e) = .null ↔ l.getLast? = some e := by
  induction l generalizing c with
  | nil => cases hIn
  | cons u l ih =>
    rcases hHolds with ⟨_, hRest⟩
    rcases List.nodup_cons.mp hNodup with ⟨hFresh, hNodupRest⟩
    cases l with
    | nil =>
      have hEq : e = u := by simpa using hIn
      subst hEq
      have hNull : m.next (.entry e) = .null := hRest
      simp [hNull]
    | cons w l =>
      rw [List.getLast?_cons_cons]
      rcases List.mem_cons.mp hIn with rfl | hIn
      · have hRef : m.next (.entry e) = .ref w := hRest.1
        constructor
        · intro hNull
          rw [hRef] at hNull
          cases hNull
        · intro hLast
          exact (hFresh (List.mem_of_getLast? hLast)).elim
      · exact ih hRest hNodupRest hIn

/- What lies outside of a list and one more member. -/
structure SameOutside
    (m m' : DeltaMem H E) (c : Cell H E)
    (l : List E) : Prop where
  next : ∀ d, d ≠ c → Outside d l → m'.next d = m.next d
  offset : ∀ u, u ∉ l → m'.offset u = m.offset u

end DeltaMem

----
-- Insertion
----

namespace DeltaMem

variable {H E : Type} [DecidableEq H] [DecidableEq E]

/- Take a distance off the member that a pointer names. -/
def shorten
    (offset : E → BitVec 32) (p : Link E) (v : BitVec 32) : E → BitVec 32 :=
  fun u => if p = .ref u then offset u - v else offset u

/- Link `e` in at a field, at distance `v`. -/
def insertAt
    (m : DeltaMem H E) (c : Cell H E) (e : E)
    (v : BitVec 32) : DeltaMem H E where
  next := (m.next.set (.entry e) (m.next c)).set c (.ref e)
  offset := shorten (Function.update m.offset e v) (m.next c) v

/-
  Walk past the members that are not farther than `v`, and
  link `e` in.
-/
def insertFrom
    (m : DeltaMem H E) (e : E) :
    Nat → BitVec 32 → Cell H E → Option (DeltaMem H E)
| 0, _, _ => none
| fuel + 1, v, c =>
  match m.next c with
  | .ref u =>
    if v < m.offset u then
      some (m.insertAt c e v)
    else
      insertFrom m e fuel (v - m.offset u) (.entry u)
  | .null => some (m.insertAt c e v)
  | .mark => none

variable {m m' : DeltaMem H E} {c : Cell H E} {e : E} {l : List E} {v : BitVec 32}

/- The fields after an insertion. -/
theorem insertAt_next_same :
    (m.insertAt c e v).next c = .ref e :=
  LinkMem.set_same ..

theorem insertAt_next_new
    (hSelf : c ≠ .entry e) :
    (m.insertAt c e v).next (.entry e) = m.next c := by
  unfold insertAt
  dsimp only
  rw [LinkMem.set_of_ne _ _ (Ne.symm hSelf), LinkMem.set_same]

theorem insertAt_next_of_ne
    {d : Cell H E} (hField : d ≠ c) (hNew : d ≠ .entry e) :
    (m.insertAt c e v).next d = m.next d := by
  unfold insertAt
  dsimp only
  rw [LinkMem.set_of_ne _ _ hField, LinkMem.set_of_ne _ _ hNew]

/- The distance of the new member. -/
theorem insertAt_offset_new
    (hNot : m.next c ≠ .ref e) :
    (m.insertAt c e v).offset e = v := by
  unfold insertAt shorten
  dsimp only
  rw [if_neg hNot, Function.update_self]

/- The distance of the member behind it. -/
theorem insertAt_offset_next
    {u : E} (hRef : m.next c = .ref u) (hNe : u ≠ e) :
    (m.insertAt c e v).offset u = m.offset u - v := by
  unfold insertAt shorten
  dsimp only
  rw [if_pos hRef, Function.update_of_ne hNe]

/- All other distances. -/
theorem insertAt_offset_of_ne
    {u : E} (hNe : u ≠ e) (hRef : m.next c ≠ .ref u) :
    (m.insertAt c e v).offset u = m.offset u := by
  unfold insertAt shorten
  dsimp only
  rw [if_neg hRef, Function.update_of_ne hNe]

/- The new member is first from the field on. -/
theorem insertAt_spec
    (hHolds : m.Holds c l) (hNodup : l.Nodup) (hNot : e ∉ l) (hSelf : c ≠ .entry e)
    (hOut : Outside c l) (hNear : ∀ u ∈ l.head?, v < m.offset u) :
    (m.insertAt c e v).Holds c (e :: l) ∧
      (m.insertAt c e v).deltas (e :: l) = DeltaList.insert e v.toNat (m.deltas l) ∧
      SameOutside m (m.insertAt c e v) c (e :: l) := by
  have hFields : ∀ u ∈ l, (m.insertAt c e v).next (.entry u) = m.next (.entry u) := by
    intro u hIn
    apply insertAt_next_of_ne
    · exact Ne.symm (hOut u hIn)
    · intro hEq
      cases hEq
      exact hNot hIn
  have hHolds' : (m.insertAt c e v).Holds c (e :: l) := by
    refine ⟨insertAt_next_same, ?_⟩
    rw [insertAt_next_new hSelf]
    exact LinkMem.Seg.congr hHolds hFields
  have hNext : ∀ d, d ≠ c → Outside d (e :: l) → (m.insertAt c e v).next d = m.next d := by
    intro d hNe hApart
    exact insertAt_next_of_ne hNe (hApart e List.mem_cons_self)
  cases l with
  | nil =>
    have hNull : m.next c = .null := hHolds
    refine ⟨hHolds', ?_, hNext, ?_⟩
    · rw [deltas_cons, insertAt_offset_new (by simp [hNull])]
      rfl
    · intro u hu
      apply insertAt_offset_of_ne
      · simpa using hu
      · simp [hNull]
  | cons u l =>
    have hRef : m.next c = .ref u := hHolds.1
    have hNe : u ≠ e := by
      rintro rfl
      exact hNot List.mem_cons_self
    rcases List.nodup_cons.mp hNodup with ⟨hFresh, _⟩
    have hLt : v < m.offset u := hNear u rfl
    have hLtNat : v.toNat < (m.offset u).toNat := hLt
    have hRest : (m.insertAt c e v).deltas l = m.deltas l := by
      apply deltas_congr
      intro w hw
      apply insertAt_offset_of_ne
      · rintro rfl
        exact hNot (List.mem_cons_of_mem _ hw)
      · rw [hRef]
        intro hEq
        cases hEq
        exact hFresh hw
    refine ⟨hHolds', ?_, hNext, ?_⟩
    · rw [deltas_cons, deltas_cons, deltas_cons, hRest,
        insertAt_offset_new (by simpa [hRef] using hNe), insertAt_offset_next hRef hNe,
        BitVec.toNat_sub_of_le (BitVec.le_of_lt hLt), DeltaList.insert, if_pos hLtNat]
    · intro w hw
      apply insertAt_offset_of_ne
      · rintro rfl
        exact hw List.mem_cons_self
      · rw [hRef]
        intro hEq
        cases hEq
        exact hw (by simp)

/-
  The walk inserts by distance, whatever field it starts
  from.
-/
theorem insertFrom_spec
    (fuel : Nat) (hHolds : m.Holds c l) (hNodup : l.Nodup) (hNot : e ∉ l)
    (hSelf : c ≠ .entry e) (hOut : Outside c l) (hFuel : l.length < fuel) :
    ∃ m' l', m.insertFrom e fuel v c = some m' ∧ m'.Holds c l' ∧
        m'.deltas l' = DeltaList.insert e v.toNat (m.deltas l) ∧
        SameOutside m m' c (e :: l) := by
  induction l generalizing fuel c v with
  | nil =>
    have hNull : m.next c = .null := hHolds
    rcases insertAt_spec (v := v) hHolds hNodup hNot hSelf
        hOut (by simp) with
      ⟨hHolds', hDeltas, hSame⟩
    cases fuel with
    | zero => simp at hFuel
    | succ fuel =>
      refine ⟨_, _, ?_, hHolds', hDeltas, hSame⟩
      rw [insertFrom, hNull]
  | cons u l ih =>
    rcases hHolds with ⟨hRef, hRest⟩
    rcases List.nodup_cons.mp hNodup with ⟨hFresh, hNodupRest⟩
    cases fuel with
    | zero => simp at hFuel
    | succ fuel =>
      by_cases hLt : v < m.offset u
      · rcases insertAt_spec (v := v) (c := c)
            (l := u :: l) ⟨hRef, hRest⟩ hNodup hNot hSelf
            hOut (by simpa using hLt) with
          ⟨hHolds', hDeltas, hSame⟩
        refine ⟨_, _, ?_, hHolds', hDeltas, hSame⟩
        rw [insertFrom, hRef]
        dsimp only
        rw [if_pos hLt]
      · have hSelf' : Cell.entry u ≠ Cell.entry (H := H) e := by
          intro hEq
          cases hEq
          exact hNot List.mem_cons_self
        have hOut' : Outside (H := H) (.entry u) l := by
          intro w hw hEq
          cases hEq
          exact hFresh hw
        rcases ih (v := v - m.offset u) _ hRest hNodupRest
            (fun h => hNot (List.mem_cons_of_mem _ h))
            hSelf' hOut' (by simpa using hFuel) with
          ⟨m', l', hInsert, hHolds', hDeltas, hSame⟩
        have hField : m'.next c = m.next c := by
          apply hSame.next c
          · exact hOut u List.mem_cons_self
          · intro w hw
            rcases List.mem_cons.mp hw with rfl | hIn
            · exact hSelf
            · exact hOut w (List.mem_cons_of_mem _ hIn)
        have hOffset : m'.offset u = m.offset u := by
          apply hSame.offset u
          intro hIn
          rcases List.mem_cons.mp hIn with rfl | hIn
          · exact hSelf' rfl
          · exact hFresh hIn
        refine ⟨m', u :: l', ?_, ⟨hField.trans hRef, hHolds'⟩, ?_, ?_, ?_⟩
        · rw [insertFrom, hRef]
          dsimp only
          rw [if_neg hLt]
          exact hInsert
        · have hLe : m.offset u ≤ v := by
            exact BitVec.not_lt.mp hLt
          have hNat : ¬ (v.toNat < (m.offset u).toNat) := hLt
          rw [deltas_cons, deltas_cons, hDeltas, hOffset, BitVec.toNat_sub_of_le hLe,
            DeltaList.insert, if_neg hNat]
        · intro d hNe hApart
          apply hSame.next d
          · exact hApart u (by simp)
          · intro w hw
            apply hApart w
            rcases List.mem_cons.mp hw with rfl | hIn
            · exact List.mem_cons_self
            · exact List.mem_cons_of_mem _ (List.mem_cons_of_mem _ hIn)
        · intro w hw
          apply hSame.offset w
          intro hIn
          apply hw
          rcases List.mem_cons.mp hIn with rfl | hIn
          · exact List.mem_cons_self
          · exact List.mem_cons_of_mem _ (List.mem_cons_of_mem _ hIn)

end DeltaMem

----
-- Removal
----

namespace DeltaMem

variable {H E : Type} [DecidableEq H] [DecidableEq E]

/- Add a distance to the member that a pointer names. -/
def lengthen
    (offset : E → BitVec 32) (p : Link E) (v : BitVec 32) : E → BitVec 32 :=
  fun u => if p = .ref u then offset u + v else offset u

/- Unlink `e`, which the field designates. -/
def unlinkAt
    (m : DeltaMem H E) (c : Cell H E)
    (e : E) : DeltaMem H E where
  next := m.next.set c (m.next (.entry e))
  offset := lengthen m.offset (m.next (.entry e)) (m.offset e)

/-
  Walk to the field that designates `e`, and unlink it.  The
  field is returned, if there is one.
-/
def eraseFrom
    (m : DeltaMem H E) (e : E) :
    Nat → Cell H E → Option (DeltaMem H E × Option (Cell H E))
| 0, _ => none
| fuel + 1, c =>
  match m.next c with
  | .ref u =>
    if u = e then
      some (m.unlinkAt c e, some c)
    else
      eraseFrom m e fuel (.entry u)
  | .null => some (m, none)
  | .mark => none

/- The field before `e`. -/
def before
    (e : E) :
    Cell H E → List E → Cell H E
| c, [] => c
| c, u :: l => if u = e then c else before e (.entry u) l

variable {m m' : DeltaMem H E} {c : Cell H E} {e : E} {l : List E}

/- The list goes on behind the first member. -/
theorem unlinkAt_spec
    (hHolds : m.Holds c (e :: l)) (hNodup : (e :: l).Nodup)
    (hOut : Outside c (e :: l))
    (hTotal : DeltaList.total (m.deltas (e :: l)) < 2 ^ 32) :
    (m.unlinkAt c e).Holds c l ∧
      (m.unlinkAt c e).deltas l = DeltaList.addHead (m.offset e).toNat (m.deltas l) ∧
      SameOutside m (m.unlinkAt c e) c (e :: l) := by
  rcases hHolds with ⟨_, hRest⟩
  rcases List.nodup_cons.mp hNodup with ⟨hFresh, hNodupRest⟩
  have hFields : ∀ d, d ≠ c → (m.unlinkAt c e).next d = m.next d := by
    intro d hNe
    exact LinkMem.set_of_ne _ _ hNe
  refine ⟨?_, ?_, ?_, ?_⟩
  · have hField : (m.unlinkAt c e).next c = m.next (.entry e) := LinkMem.set_same ..
    unfold Holds
    rw [hField]
    apply LinkMem.Seg.congr hRest
    intro u hu
    exact hFields _ (Ne.symm (hOut u (List.mem_cons_of_mem _ hu)))
  · cases l with
    | nil => rfl
    | cons u l =>
      have hRef : m.next (.entry e) = .ref u := hRest.1
      have hFirst : (m.unlinkAt c e).offset u = m.offset u + m.offset e := by
        unfold unlinkAt lengthen
        dsimp only
        rw [if_pos hRef]
      have hOthers : (m.unlinkAt c e).deltas l = m.deltas l := by
        apply deltas_congr
        intro w hw
        unfold unlinkAt lengthen
        dsimp only
        rw [if_neg]
        rw [hRef]
        intro hEq
        cases hEq
        exact (List.nodup_cons.mp hNodupRest).1 hw
      rw [deltas_cons, deltas_cons, DeltaList.total_cons, DeltaList.total_cons] at hTotal
      rw [deltas_cons, deltas_cons, hFirst, hOthers, BitVec.toNat_add_of_lt (by omega),
        DeltaList.addHead]
  · intro d hNe _
    exact hFields d hNe
  · intro w hw
    unfold unlinkAt lengthen
    dsimp only
    rw [if_neg]
    intro hRef
    cases l with
    | nil =>
      have hNull : m.next (.entry e) = .null := hRest
      rw [hNull] at hRef
      cases hRef
    | cons u l =>
      rw [hRest.1] at hRef
      cases hRef
      exact hw (by simp)

/- The walk removes the member, if it is there. -/
theorem eraseFrom_spec
    (fuel : Nat) (hHolds : m.Holds c l) (hNodup : l.Nodup) (hOut : Outside c l)
    (hTotal : DeltaList.total (m.deltas l) < 2 ^ 32) (hFuel : l.length < fuel) :
    ∃ m' r, m.eraseFrom e fuel c = some (m', r) ∧ m'.Holds c (l.erase e) ∧
        m'.deltas (l.erase e) = DeltaList.erase e (m.deltas l) ∧ SameOutside m m' c l ∧
        (e ∈ l → r = some (before e c l)) ∧ (e ∉ l → m' = m ∧ r = none) := by
  induction l generalizing fuel c with
  | nil =>
    have hNull : m.next c = .null := hHolds
    cases fuel with
    | zero => simp at hFuel
    | succ fuel =>
      refine ⟨m, none, ?_, hHolds, rfl, ⟨fun _ _ _ => rfl, fun _ _ => rfl⟩, ?_, fun _ => ⟨rfl, rfl⟩⟩
      · rw [eraseFrom, hNull]
      · intro hIn
        cases hIn
  | cons u l ih =>
    rcases hHolds with ⟨hRef, hRest⟩
    rcases List.nodup_cons.mp hNodup with ⟨hFresh, hNodupRest⟩
    cases fuel with
    | zero => simp at hFuel
    | succ fuel =>
      by_cases hEq : u = e
      · subst hEq
        rcases unlinkAt_spec ⟨hRef, hRest⟩ hNodup hOut hTotal with ⟨hHolds', hDeltas, hSame⟩
        refine ⟨m.unlinkAt c u, some c, ?_, ?_, ?_, hSame, ?_, ?_⟩
        · rw [eraseFrom, hRef]
          dsimp only
          rw [if_pos rfl]
        · rw [List.erase_cons_head]
          exact hHolds'
        · rw [List.erase_cons_head, hDeltas, deltas_cons, DeltaList.erase, if_pos rfl]
        · intro _
          rw [before, if_pos rfl]
        · intro hNot
          exact (hNot List.mem_cons_self).elim
      · have hOut' : Outside (H := H) (.entry u) l := by
          intro w hw hSame
          cases hSame
          exact hFresh hw
        rw [deltas_cons, DeltaList.total_cons] at hTotal
        rcases ih _ hRest hNodupRest hOut' (by omega)
            (by simpa using hFuel) with
          ⟨m', r, hErase, hHolds', hDeltas, hSame, hIn, hNot⟩
        have hTail : (u :: l).erase e = u :: l.erase e := List.erase_cons_tail (by simpa using hEq)
        have hField : m'.next c = m.next c := by
          apply hSame.next c
          · exact hOut u List.mem_cons_self
          · intro w hw
            exact hOut w (List.mem_cons_of_mem _ hw)
        have hOffset : m'.offset u = m.offset u := hSame.offset u hFresh
        refine ⟨m', r, ?_, ?_, ?_, ⟨?_, ?_⟩, ?_, ?_⟩
        · rw [eraseFrom, hRef]
          dsimp only
          rw [if_neg hEq]
          exact hErase
        · rw [hTail]
          exact ⟨hField.trans hRef, hHolds'⟩
        · rw [hTail, deltas_cons, deltas_cons, hDeltas, hOffset, DeltaList.erase, if_neg hEq]
        · intro d hNe hApart
          apply hSame.next d
          · exact hApart u List.mem_cons_self
          · intro w hw
            exact hApart w (List.mem_cons_of_mem _ hw)
        · intro w hw
          apply hSame.offset w
          intro hMem
          exact hw (List.mem_cons_of_mem _ hMem)
        · intro hMem
          rw [before, if_neg hEq]
          apply hIn
          exact List.mem_of_ne_of_mem (Ne.symm hEq) hMem
        · intro hMem
          apply hNot
          intro hw
          exact hMem (List.mem_cons_of_mem _ hw)

omit [DecidableEq H] in
/- The field before the last member is that of the one before. -/
theorem before_last
    (hNodup : l.Nodup) (hLast : l.getLast? = some e) :
    before e c l = match (l.erase e).getLast? with
      | none => c
      | some u => .entry u := by
  induction l generalizing c with
  | nil => cases hLast
  | cons u l ih =>
    rcases List.nodup_cons.mp hNodup with ⟨hFresh, hNodupRest⟩
    cases l with
    | nil =>
      cases hLast
      simp [before]
    | cons w l =>
      have hTail : (w :: l).getLast? = some e := by
        rw [List.getLast?_cons_cons] at hLast
        exact hLast
      have hNe : u ≠ e := by
        rintro rfl
        exact hFresh (List.mem_of_getLast? hTail)
      have hRest : (u :: w :: l).erase e = u :: (w :: l).erase e :=
        List.erase_cons_tail (by simpa using hNe)
      rw [before, if_neg hNe, ih hNodupRest hTail, hRest]
      cases hErase : (w :: l).erase e with
      | nil => simp
      | cons x k =>
        rw [List.getLast?_cons_cons]
        cases hEnd : (x :: k).getLast? with
        | none => simp at hEnd
        | some y => rfl

end DeltaMem

----
-- Moving the Base
----

namespace DeltaMem

variable {H E : Type}

/- The first member behind `e` that is not at distance 0. -/
def skipZero
    (m : DeltaMem H E) :
    Nat → E → Option (Link E)
| 0, _ => none
| fuel + 1, e =>
  match m.next (.entry e) with
  | .ref u =>
    if m.offset u = 0#32 then
      skipZero m fuel u
    else
      some (.ref u)
  | p => some p

variable {m : DeltaMem H E} {e : E} {l : List E}

/- The pointer to the first member. -/
def firstOf : List E → Link E
| [] => .null
| u :: _ => .ref u

/- What is skipped has distance 0; the rest goes on. -/
theorem skipZero_spec
    {fuel : Nat} (hHolds : m.Holds (.entry e) l) (hFuel : l.length < fuel) :
    ∃ z r, l = z ++ r ∧ (∀ u ∈ z, m.offset u = 0#32) ∧ m.skipZero fuel e = some (firstOf r) ∧
        LinkMem.Seg m.next (firstOf r) r .null := by
  induction l generalizing fuel e with
  | nil =>
    have hNull : m.next (.entry e) = .null := hHolds
    cases fuel with
    | zero => simp at hFuel
    | succ fuel =>
      refine ⟨[], [], rfl, by simp, ?_, rfl⟩
      rw [skipZero, hNull]
      rfl
  | cons u l ih =>
    rcases hHolds with ⟨hRef, hRest⟩
    cases fuel with
    | zero => simp at hFuel
    | succ fuel =>
      by_cases hZero : m.offset u = 0#32
      · rcases ih hRest (by simpa using hFuel) with ⟨z, r, hSplit, hZeros, hSkip, hSeg⟩
        refine ⟨u :: z, r, by simp [hSplit], ?_, ?_, hSeg⟩
        · intro w hw
          rcases List.mem_cons.mp hw with rfl | hIn
          · exact hZero
          · exact hZeros w hIn
        · rw [skipZero, hRef]
          dsimp only
          rw [if_pos hZero]
          exact hSkip
      · refine ⟨[], u :: l, rfl, by simp, ?_, rfl, hRest⟩
        rw [skipZero, hRef]
        dsimp only
        rw [if_neg hZero]
        rfl

variable [DecidableEq E]

/- Store one distance. -/
def setOffset
    (m : DeltaMem H E) (e : E) (v : BitVec 32) : DeltaMem H E :=
  { m with offset := Function.update m.offset e v }

/- Take a distance off the members, from `e` on. -/
def advanceFrom
    (m : DeltaMem H E) :
    Nat → BitVec 32 → E → Option (DeltaMem H E)
| 0, _, _ => none
| fuel + 1, diff, e =>
  if diff ≤ m.offset e then
    some (m.setOffset e (m.offset e - diff))
  else
    let rest := diff - m.offset e
    let m₁ := m.setOffset e 0#32
    if rest = 0#32 then
      some m₁
    else
      match m₁.skipZero (fuel + 1) e with
      | some (.ref u) => advanceFrom m₁ fuel rest u
      | some .null => some m₁
      | _ => none

theorem setOffset_deltas
    {v : BitVec 32} (hFresh : e ∉ l) :
    (m.setOffset e v).deltas (e :: l) = (e, v.toNat) :: m.deltas l := by
  have hRest : (m.setOffset e v).deltas l = m.deltas l := by
    apply deltas_congr
    intro u hu
    unfold setOffset
    dsimp only
    rw [Function.update_of_ne]
    rintro rfl
    exact hFresh hu
  rw [deltas_cons, hRest]
  unfold setOffset
  dsimp only
  rw [Function.update_self]

theorem setOffset_of_ne
    {v : BitVec 32} {u : E} (hNe : u ≠ e) :
    (m.setOffset e v).offset u = m.offset u :=
  Function.update_of_ne hNe ..

/- The list loses the distance from its front. -/
theorem advanceFrom_spec
    (fuel : Nat) (diff : BitVec 32) (hHolds : m.Holds (.entry e) l)
    (hNodup : (e :: l).Nodup) (hFuel : l.length < fuel) :
    ∃ m', m.advanceFrom fuel diff e = some m' ∧ m'.next = m.next ∧
        m'.deltas (e :: l) = DeltaList.advance diff.toNat (m.deltas (e :: l)) ∧
        (∀ u, u ∉ e :: l → m'.offset u = m.offset u) := by
  induction fuel generalizing m e l diff with
  | zero => simp at hFuel
  | succ fuel ih =>
    rcases List.nodup_cons.mp hNodup with ⟨hFresh, hNodupRest⟩
    have hOutside : ∀ v u, u ∉ e :: l → (m.setOffset e v).offset u = m.offset u := by
      intro v u hu
      apply setOffset_of_ne
      rintro rfl
      exact hu List.mem_cons_self
    unfold advanceFrom
    by_cases hLe : diff ≤ m.offset e
    · rw [if_pos hLe]
      have hLeNat : diff.toNat ≤ (m.offset e).toNat := hLe
      refine ⟨_, rfl, rfl, ?_, hOutside _⟩
      rw [setOffset_deltas hFresh, deltas_cons, DeltaList.advance, if_pos hLeNat,
        BitVec.toNat_sub_of_le hLe]
    · have hLt : m.offset e < diff := BitVec.not_le.mp hLe
      have hLtNat : (m.offset e).toNat < diff.toNat := hLt
      have hRest : (diff - m.offset e).toNat = diff.toNat - (m.offset e).toNat :=
        BitVec.toNat_sub_of_le (BitVec.le_of_lt hLt)
      have hPos : diff - m.offset e ≠ 0#32 := by
        intro hZero
        rw [hZero] at hRest
        simp at hRest
        omega
      -- the distance of `e` is used up, and more is left
      have hHolds₁ : (m.setOffset e 0#32).Holds (.entry e) l := hHolds
      rcases skipZero_spec hHolds₁ hFuel with ⟨z, r, hSplit, hZeros, hSkip, hSeg⟩
      have hDeltas := setOffset_deltas (m := m) (v := 0#32) hFresh
      have hZerosNat : ∀ x ∈ m.deltas z, x.2 = 0 := by
        intro x hx
        rcases List.mem_map.mp hx with ⟨u, hu, rfl⟩
        have hNe : u ≠ e := by
          rintro rfl
          exact hFresh (hSplit ▸ List.mem_append_left r hu)
        have hZero := hZeros u hu
        rw [setOffset_of_ne hNe] at hZero
        simp [hZero]
      have hAdvance : DeltaList.advance diff.toNat (m.deltas (e :: l)) =
            (e, 0) :: (m.deltas z ++ DeltaList.advance (diff - m.offset e).toNat (m.deltas r)) := by
        rw [deltas_cons, DeltaList.advance, if_neg (by omega), hSplit, deltas_append,
          DeltaList.advance_zeros (by omega) hZerosNat, hRest]
      rw [if_neg hLe]
      dsimp only
      rw [if_neg hPos, hSkip]
      cases r with
      | nil =>
        refine ⟨_, rfl, rfl, ?_, hOutside _⟩
        rw [hDeltas, hAdvance, hSplit]
        rw [deltas_append]
        rfl
      | cons u r =>
        subst hSplit
        have hNodup₁ : (u :: r).Nodup := (List.nodup_append.mp hNodupRest).2.1
        have hFuel₁ : r.length < fuel := by
          rw [List.length_append, List.length_cons] at hFuel
          omega
        rcases ih (diff - m.offset e) hSeg.2 hNodup₁ hFuel₁ with ⟨m', hRun, hNext, hDeltas', hKeep⟩
        refine ⟨m', hRun, hNext, ?_, ?_⟩
        · have hKept : ∀ w, w ∉ u :: r → w ≠ e → m'.offset w = m.offset w := by
            intro w hw hNe
            rw [hKeep w hw, setOffset_of_ne hNe]
          have hHead : m'.offset e = 0#32 := by
            rw [hKeep e ?_]
            · exact Function.update_self ..
            · intro hIn
              exact hFresh (List.mem_append_right z hIn)
          have hFront : m'.deltas z = m.deltas z := by
            apply deltas_congr
            intro w hw
            apply hKept
            · intro hIn
              exact (List.nodup_append.mp hNodupRest).2.2 w hw w hIn rfl
            · rintro rfl
              exact hFresh (List.mem_append_left _ hw)
          have hBack : (m.setOffset e 0#32).deltas (u :: r) = m.deltas (u :: r) := by
            apply deltas_congr
            intro w hw
            apply setOffset_of_ne
            rintro rfl
            exact hFresh (List.mem_append_right z hw)
          rw [hAdvance, deltas_cons, deltas_append, hHead, hFront, hDeltas', hBack]
          rfl
        · intro w hw
          rw [hKeep w, hOutside _ w hw]
          intro hIn
          exact hw (List.mem_cons_of_mem _ (List.mem_append_right z hIn))

end DeltaMem
