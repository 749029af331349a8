import Mathlib.Data.List.Basic
import Mathlib.Tactic.Common

/-
  Strings of segments, each behind a separator.
-/

namespace Segments

variable {α : Type} {sep x : α} {xs seg : List α} {segs : List (List α)}

/- The segments behind separators. -/
def joined
    (sep : α) (segs : List (List α)) : List α :=
  segs.flatMap (fun seg => sep :: seg)

@[simp]
theorem joined_nil :
    joined sep [] = [] :=
  rfl

@[simp]
theorem joined_cons :
    joined sep (seg :: segs) = sep :: (seg ++ joined sep segs) := by
  rw [joined, List.flatMap_cons, List.cons_append]
  rfl

/- A segment ends before the next separator. -/
theorem segment_prefix
    {tail part : List α} {parts : List (List α)} (hSeg : sep ∉ seg)
    (hPrefix : seg ++ tail <+: part ++ joined sep parts) :
    seg.length ≤ part.length ∧ tail <+: part.drop seg.length ++ joined sep parts := by
  have hLe : seg.length ≤ part.length := by
    by_contra hLong
    rw [Nat.not_le] at hLong
    rcases hPrefix with ⟨rest, hEq⟩
    have hStart : seg.drop part.length ++ (tail ++ rest) = joined sep parts := by
      have hDrop := congrArg (List.drop part.length) hEq
      rwa [List.drop_left, List.append_assoc, List.drop_append_of_le_length (Nat.le_of_lt hLong)]
        at hDrop
    cases parts with
    | nil =>
      have hNone := congrArg List.length hStart
      simp only [List.length_append, List.length_drop, joined_nil, List.length_nil] at hNone
      omega
    | cons part' parts =>
      have hCell := List.drop_eq_getElem_cons hLong
      rw [hCell, joined_cons, List.cons_append, List.cons.injEq] at hStart
      exact hSeg (hStart.1 ▸ List.getElem_mem hLong)
  refine ⟨hLe, ?_⟩
  rcases hPrefix with ⟨rest, hEq⟩
  have hDrop := congrArg (List.drop seg.length) hEq
  rw [List.append_assoc, List.drop_left, List.drop_append_of_le_length hLe] at hDrop
  exact ⟨rest, hDrop⟩

/-
  A text that was put together from short parts has short
  segments, wherever it was cut. By induction on the segments,
  with the rest of the current part.
-/
theorem length_le_of_joined_prefix
    {bound : Nat} {part : List α} {parts : List (List α)}
    (hSegs : ∀ seg ∈ segs, sep ∉ seg) (hPart : part.length ≤ bound)
    (hParts : ∀ p ∈ parts, p.length ≤ bound)
    (hPrefix : joined sep segs <+: part ++ joined sep parts) :
    ∀ seg ∈ segs, seg.length ≤ bound := by
  induction segs generalizing part parts with
  | nil => simp
  | cons seg segs ih =>
    have hSeg : sep ∉ seg := hSegs seg List.mem_cons_self
    have hRest : ∀ s ∈ segs, sep ∉ s := fun s hs => hSegs s (List.mem_cons_of_mem _ hs)
    -- one segment, found in a part after its separator
    have hStep :
        ∀ (p : List α) (ps : List (List α)), p.length ≤ bound → (∀ q ∈ ps, q.length ≤ bound) →
          seg ++ joined sep segs <+: p ++ joined sep ps →
          ∀ s ∈ seg :: segs, s.length ≤ bound := by
      intro p ps hp hps hFound
      rcases segment_prefix hSeg hFound with ⟨hLe, hTail⟩
      have hDrop : (p.drop seg.length).length ≤ bound := by
        rw [List.length_drop]
        omega
      intro s hs
      rcases List.mem_cons.mp hs with rfl | hs
      · exact Nat.le_trans hLe hp
      · exact ih hRest hDrop hps hTail s hs
    rw [joined_cons] at hPrefix
    cases part with
    | nil =>
      cases parts with
      | nil =>
        have hNone := hPrefix.length_le
        simp at hNone
      | cons p ps =>
        rw [List.nil_append, joined_cons, List.cons_prefix_cons] at hPrefix
        exact hStep p ps (hParts p List.mem_cons_self)
          (fun q hq =>
            hParts q (List.mem_cons_of_mem _ hq))
          hPrefix.2
    | cons x part =>
      rw [List.cons_append, List.cons_prefix_cons] at hPrefix
      rw [List.length_cons] at hPart
      exact hStep part parts (by omega) hParts hPrefix.2

variable [DecidableEq α]

/- Splitting and joining gives the string again. -/
theorem joined_splitOn :
    joined sep (xs.splitOn sep) = sep :: xs := by
  induction xs with
  | nil => rfl
  | cons x xs ih =>
    rw [List.splitOn_cons_eq_if_modifyHead]
    by_cases hSep : x == sep
    · rw [if_pos hSep, joined_cons, ih, List.nil_append, eq_of_beq hSep]
    · rw [if_neg hSep]
      cases hSplit : xs.splitOn sep with
      | nil => exact absurd hSplit (List.splitOn_ne_nil _ _)
      | cons seg segs =>
        rw [hSplit, joined_cons] at ih
        rw [List.modifyHead_cons, joined_cons, List.cons_append]
        rw [List.cons.inj ih |>.2]

/- No segment holds the separator. -/
theorem notMem_of_mem_splitOn
    (hSeg : seg ∈ xs.splitOn sep) :
    sep ∉ seg := by
  induction xs generalizing seg with
  | nil =>
    rw [List.splitOn_nil, List.mem_singleton] at hSeg
    rw [hSeg]
    exact List.not_mem_nil
  | cons x xs ih =>
    rw [List.splitOn_cons_eq_if_modifyHead] at hSeg
    by_cases hSep : x == sep
    · rw [if_pos hSep, List.mem_cons] at hSeg
      rcases hSeg with rfl | hSeg
      · exact List.not_mem_nil
      · exact ih hSeg
    · rw [if_neg hSep] at hSeg
      cases hSplit : xs.splitOn sep with
      | nil => exact absurd hSplit (List.splitOn_ne_nil _ _)
      | cons first rest =>
        rw [hSplit, List.modifyHead_cons, List.mem_cons] at hSeg
        rcases hSeg with rfl | hSeg
        · have hFirst : sep ∉ first := ih (hSplit ▸ List.mem_cons_self)
          rw [List.mem_cons]
          rintro (rfl | hMem)
          · simp at hSep
          · exact hFirst hMem
        · exact ih (hSplit ▸ List.mem_cons_of_mem _ hSeg)

end Segments
