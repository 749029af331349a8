import Riot.Core.Cib
import Mathlib.Data.List.Nodup

/-
  Runs of the circular integer buffer, with counters that
  wrap around.

  The slots returned by puts and not yet by gets form a
  queue of at most `size` slots. The size that is half of the
  range of the counters is the exception: the signed
  comparison never sees such a buffer full.
-/

----
-- Runs
----

namespace Riot

inductive CibCall where
  | put
  | get
deriving DecidableEq, Repr

/- The buffer, and the slots that the calls returned so far. -/
structure CibRun where
  cib : Cib
  puts : List Nat
  gets : List Nat

namespace CibRun

/- One call; a failed call returns no slot. -/
def step
    (r : CibRun) : CibCall → CibRun
  | .put => { r with cib := (cibPut r.cib).1, puts := r.puts ++ (cibPut r.cib).2.toList }
  | .get => { r with cib := (cibGet r.cib).1, gets := r.gets ++ (cibGet r.cib).2.toList }

def calls
    (r : CibRun) (ops : List CibCall) : CibRun :=
  ops.foldl step r

/- A buffer that was initialised and not used yet. -/
def start
    (size : Nat) : Option CibRun :=
  (cibInit (BitVec.ofNat 32 size)).map (⟨·, [], []⟩)

/- The slots that were put and not returned by a get. -/
def outstanding
    (r : CibRun) : List Nat :=
  r.puts.drop r.gets.length

/-
  The buffer is a queue of slots: gets return slots in the
  order of the puts, calls fail on a full or empty queue
  only, and no two entries share a slot.
-/
structure Fifo
    (size : Nat)
    (r : CibRun) : Prop where
  order : r.gets <+: r.puts
  put : (cibPut r.cib).2.isSome ↔ r.outstanding.length < size
  get : (cibGet r.cib).2.isSome ↔ 1 ≤ r.outstanding.length
  full : cibFull r.cib = (cibPut r.cib).2.isNone
  distinct : r.outstanding.Nodup
  below : ∀ i ∈ r.outstanding, i < size

end CibRun

/- The sizes that the documentation of `cib_init` admits. -/
def CibSize
    (size : Nat) : Prop :=
  size = 0 ∨ ∃ k, k ≤ 31 ∧ size = 2 ^ k

----
-- Sizes Below Half of the Range
----

open CibRun

variable {k : Nat} {r : CibRun}

/- The assertion of `cib_init` holds for powers of two. -/
theorem cibInit_pow
    (hSmall : k ≤ 31) :
    cibInit (BitVec.ofNat 32 (2 ^ k)) = some ⟨0#32, 0#32, BitVec.ofNat 32 (2 ^ k) - 1#32⟩ := by
  have hPow : 2 ^ k ≤ 2 ^ 31 := Nat.pow_le_pow_right (by decide) hSmall
  have hPos : 0 < 2 ^ k := Nat.two_pow_pos k
  have hMask : (BitVec.ofNat 32 (2 ^ k) - 1#32).toNat = 2 ^ k - 1 := by
    simp only [BitVec.toNat_sub, BitVec.toNat_ofNat]
    omega
  have hSize : (BitVec.ofNat 32 (2 ^ k)).toNat = 2 ^ k := by
    rw [BitVec.toNat_ofNat]
    omega
  unfold cibInit
  apply if_pos
  apply BitVec.eq_of_toNat_eq
  rw [BitVec.toNat_and, hMask, hSize, Nat.and_two_pow_sub_one_eq_mod, Nat.mod_self]
  rfl

/- The items of a buffer of slots are in different slots. -/
theorem cibItems_slots
    {cib : Cib} (hHolds : CibHolds k cib) :
    (cibItems cib id).Nodup ∧ ∀ i ∈ cibItems cib id, i < 2 ^ k := by
  rw [hHolds.items_eq]
  unfold ringItems
  constructor
  · apply List.Nodup.map_on ?_ List.nodup_range
    intro i hi j hj hEq
    have hAvail := hHolds.avail
    rw [List.mem_range] at hi hj
    by_contra hNe
    exact ring_cell_ne (Nat.lt_of_lt_of_le hi hAvail) (Nat.lt_of_lt_of_le hj hAvail) hNe hEq
  · intro i hi
    rcases List.mem_map.mp hi with ⟨j, _, rfl⟩
    exact Nat.mod_lt _ (Nat.two_pow_pos k)

/- Gets return the puts up to the slots still in the buffer. -/
structure CibRun.Tracks
    (k : Nat)
    (r : CibRun) : Prop where
  holds : CibHolds k r.cib
  puts : r.puts = r.gets ++ cibItems r.cib id

/- A call keeps track of the slots. -/
theorem CibRun.Tracks.step
    (call : CibCall) (hTracks : r.Tracks k) :
    (r.step call).Tracks k := by
  rcases hTracks with ⟨hHolds, hPuts⟩
  have hAvail := hHolds.avail
  cases call with
  | put =>
    by_cases hSpace : (cibAvail r.cib).toNat < 2 ^ k
    · have hPut := hHolds.cibPut_eq hSpace
      rcases hHolds.putUnsafe (α := Nat) hSpace with ⟨hHolds', _, hItems⟩
      have hStored := hItems id (cibPutUnsafe r.cib).2
      have hSame : Function.update id (cibPutUnsafe r.cib).2 (cibPutUnsafe r.cib).2 = id :=
        Function.update_eq_self _ id
      rw [hSame] at hStored
      unfold CibRun.step
      dsimp only
      rw [hPut]
      refine ⟨hHolds', ?_⟩
      dsimp only
      rw [hStored, hPuts, List.append_assoc]
      rfl
    · have hPut := hHolds.cibPut_full (by omega)
      unfold CibRun.step
      dsimp only
      rw [hPut]
      exact ⟨hHolds, by simpa using hPuts⟩
  | get =>
    by_cases hEmpty : (cibAvail r.cib).toNat = 0
    · have hGet := CibHolds.cibGet_empty hEmpty
      unfold CibRun.step
      dsimp only
      rw [hGet]
      exact ⟨hHolds, by simpa using hPuts⟩
    · rcases hHolds.cibGet_eq (α := Nat) hEmpty with ⟨hGet, hHolds', _, hItems⟩
      unfold CibRun.step
      dsimp only
      rw [hGet]
      refine ⟨hHolds', ?_⟩
      dsimp only
      rw [hPuts, hItems id, Option.toList_some, List.append_assoc]
      rfl

/- Whatever tracks its slots is a queue. -/
theorem CibRun.Tracks.fifo
    (hTracks : r.Tracks k) :
    r.Fifo (2 ^ k) := by
  rcases hTracks with ⟨hHolds, hPuts⟩
  have hOut : r.outstanding = cibItems r.cib id := by
    rw [outstanding, hPuts, List.drop_left]
  have hLen : r.outstanding.length = (cibAvail r.cib).toNat := by
    rw [hOut, CibHolds.items_length]
  have hAvail := hHolds.avail
  rcases cibItems_slots hHolds with ⟨hNodup, hBelow⟩
  constructor
  · rw [hPuts]
    exact List.prefix_append _ _
  · rw [hLen]
    by_cases hSpace : (cibAvail r.cib).toNat < 2 ^ k
    · simp [hHolds.cibPut_eq hSpace, hSpace]
    · simp [hHolds.cibPut_full (by omega), hSpace]
  · rw [hLen]
    by_cases hEmpty : (cibAvail r.cib).toNat = 0
    · simp [CibHolds.cibGet_empty hEmpty, hEmpty]
    · rcases hHolds.cibGet_eq (α := Nat) hEmpty with ⟨hGet, _⟩
      simp only [hGet, Option.isSome_some, true_iff]
      omega
  · rw [hHolds.signed.2]
    by_cases hSpace : (cibAvail r.cib).toNat < 2 ^ k
    · rw [hHolds.cibPut_eq hSpace]
      simpa using Nat.ne_of_lt hSpace
    · have hFull : (cibAvail r.cib).toNat = 2 ^ k := by omega
      rw [hHolds.cibPut_full hFull]
      simpa using hFull
  · rw [hOut]
    exact hNodup
  · rw [hOut]
    exact hBelow

theorem CibRun.Tracks.calls
    (ops : List CibCall) (hTracks : r.Tracks k) :
    (r.calls ops).Tracks k := by
  induction ops generalizing r with
  | nil => exact hTracks
  | cons call ops ih => exact ih (hTracks.step call)

/- Every run from the start is a queue. -/
theorem cibRun_fifo
    (ops : List CibCall) (hSmall : k ≤ 30) :
    (CibRun.calls ⟨⟨0#32, 0#32, BitVec.ofNat 32 (2 ^ k) - 1#32⟩, [], []⟩ ops).Fifo (2 ^ k) := by
  rcases cibHolds_of_pow hSmall with ⟨hHolds, hEmpty⟩
  have hStart : CibRun.Tracks k ⟨⟨0#32, 0#32, BitVec.ofNat 32 (2 ^ k) - 1#32⟩, [], []⟩ := by
    refine ⟨hHolds, ?_⟩
    have hLen :
        (cibItems ⟨0#32, 0#32, BitVec.ofNat 32 (2 ^ k) - 1#32⟩ (id : Nat → Nat)).length = 0 := by
      rw [CibHolds.items_length, hEmpty]
      rfl
    exact (List.length_eq_zero_iff.mp hLen).symm
  exact (hStart.calls ops).fifo

/- A buffer of size zero refuses every call. -/
theorem cibRun_zero
    (ops : List CibCall) :
    CibRun.calls ⟨⟨0#32, 0#32, 0#32 - 1#32⟩, [], []⟩ ops = ⟨⟨0#32, 0#32, 0#32 - 1#32⟩, [], []⟩ := by
  induction ops with
  | nil => rfl
  | cons call ops ih =>
    have hStep : CibRun.step ⟨⟨0#32, 0#32, 0#32 - 1#32⟩, [], []⟩
            call = ⟨⟨0#32, 0#32, 0#32 - 1#32⟩, [], []⟩ := by
      cases call <;> rfl
    rw [CibRun.calls, List.foldl_cons, hStep]
    exact ih

----
-- Half of the Range
----

/-
  With a mask of `2 ^ 31 - 1` the first puts succeed, up to
  the one that finds as many entries as there are slots: the
  number of entries is then negative as an `int`.
-/
theorem cibPut_half
    {n : Nat} (hLe : n ≤ 2 ^ 31) :
    cibPut ⟨0#32, BitVec.ofNat 32 n, 2147483647#32⟩ =
      (⟨0#32, BitVec.ofNat 32 (n + 1), 2147483647#32⟩, some (n % 2 ^ 31)) := by
  have hWord : (BitVec.ofNat 32 n).toNat = n := by
    rw [BitVec.toNat_ofNat]
    omega
  have hMask : (2147483647#32 : BitVec 32).toNat = 2 ^ 31 - 1 := rfl
  have hLess : (cibAvail ⟨0#32, BitVec.ofNat 32 n, 2147483647#32⟩).sle 2147483647#32 = true := by
    have hAvail : cibAvail ⟨0#32, BitVec.ofNat 32 n, 2147483647#32⟩ = BitVec.ofNat 32 n := by
      simp [cibAvail]
    rw [hAvail, BitVec.sle_eq_decide, decide_eq_true_eq]
    have hTop : (2147483647#32 : BitVec 32).toInt = 2147483647 := rfl
    rw [hTop, BitVec.toInt_eq_toNat_cond, hWord]
    split <;> omega
  have hIndex : (BitVec.ofNat 32 n &&& 2147483647#32).toNat = n % 2 ^ 31 := by
    rw [BitVec.toNat_and, hWord, hMask, Nat.and_two_pow_sub_one_eq_mod]
  unfold cibPut
  rw [if_pos hLess]
  simp only [cibPutUnsafe, hIndex]
  rw [← BitVec.ofNat_add_ofNat]

/- Puts in a row fill the buffer. -/
theorem cibRun_fills
    (n : Nat) (hLe : n ≤ 2 ^ 31) :
    ∃ puts, CibRun.calls ⟨⟨0#32, 0#32, 2147483647#32⟩, [], []⟩
          (List.replicate n .put) = ⟨⟨0#32, BitVec.ofNat 32 n, 2147483647#32⟩, puts, []⟩ ∧
      puts.length = n := by
  induction n with
  | zero => exact ⟨[], rfl, rfl⟩
  | succ n ih =>
    rcases ih (Nat.le_of_succ_le hLe) with ⟨puts, hRun, hLen⟩
    refine ⟨puts ++ [n % 2 ^ 31], ?_, by simp [hLen]⟩
    rw [List.replicate_succ', CibRun.calls, List.foldl_append]
    have hStep := cibPut_half (Nat.le_of_succ_le hLe)
    rw [CibRun.calls] at hRun
    rw [hRun, List.foldl_cons, List.foldl_nil, CibRun.step]
    simp only [hStep, Option.toList_some]

/- The full buffer takes another put. -/
theorem not_cibRun_fifo_half :
    ¬ (CibRun.calls ⟨⟨0#32, 0#32, 2147483647#32⟩, [], []⟩
        (List.replicate (2 ^ 31) .put)).Fifo (2 ^ 31) := by
  intro hFifo
  rcases cibRun_fills (2 ^ 31) (Nat.le_refl _) with ⟨puts, hRun, hLen⟩
  rw [hRun] at hFifo
  have hPut := hFifo.put
  rw [cibPut_half (Nat.le_refl _)] at hPut
  have hLess := hPut.mp rfl
  rw [CibRun.outstanding, List.length_nil, List.drop_zero, hLen] at hLess
  exact Nat.lt_irrefl _ hLess

/-
  Every run of a buffer of an admitted size is a queue of
  slots exactly when the size is below half of the range of
  the counters.
-/
theorem cib_fifo_iff
    {size : Nat} (hSize : CibSize size) :
    ∃ r, CibRun.start size = some r ∧ ((∀ ops, (r.calls ops).Fifo size) ↔ size < 2 ^ 31) := by
  rcases hSize with rfl | ⟨k, hSmall, rfl⟩
  · refine ⟨⟨⟨0#32, 0#32, 0#32 - 1#32⟩, [], []⟩, rfl, ?_⟩
    refine ⟨fun _ => by decide, fun _ ops => ?_⟩
    rw [cibRun_zero]
    exact
      { order := List.prefix_refl _
        put := by decide
        get := by decide
        full := by decide
        distinct := by decide
        below := by decide }
  · refine ⟨⟨⟨0#32, 0#32, BitVec.ofNat 32 (2 ^ k) - 1#32⟩, [], []⟩, ?_, ?_⟩
    · rw [CibRun.start, cibInit_pow hSmall]
      rfl
    · rw [Nat.pow_lt_pow_iff_right (by decide)]
      constructor
      · intro hRuns
        by_contra hNot
        have hEq : k = 31 := by omega
        subst hEq
        exact not_cibRun_fifo_half (hRuns _)
      · intro hLess ops
        exact cibRun_fifo ops (by omega)

/- The buffer of the largest size, with every slot taken. -/
theorem not_cib_fifo_half :
    CibSize (2 ^ 31) ∧ ∃ r, CibRun.start (2 ^ 31) = some r ∧
          (r.calls (List.replicate (2 ^ 31) .put)).outstanding.length = 2 ^ 31 ∧
          (cibPut (r.calls (List.replicate (2 ^ 31) .put)).cib).2 = some 0 ∧
          ¬ (r.calls (List.replicate (2 ^ 31) .put)).Fifo (2 ^ 31) := by
  refine ⟨.inr ⟨31, by decide, rfl⟩, ⟨⟨0#32, 0#32, 2147483647#32⟩, [], []⟩, rfl, ?_, ?_,
    not_cibRun_fifo_half⟩
  · rcases cibRun_fills (2 ^ 31) (Nat.le_refl _) with ⟨puts, hRun, hLen⟩
    rw [hRun, CibRun.outstanding, List.length_nil, List.drop_zero, hLen]
  · rcases cibRun_fills (2 ^ 31) (Nat.le_refl _) with ⟨puts, hRun, _⟩
    rw [hRun, cibPut_half (Nat.le_refl _)]
    rfl

/- A buffer of four slots. -/
theorem cib_fifo_iff_four :
    ∃ r, CibRun.start 4 = some r ∧ ((∀ ops, (r.calls ops).Fifo 4) ↔ 4 < 2 ^ 31) :=
  cib_fifo_iff (.inr ⟨2, by decide, rfl⟩)

end Riot
