import Riot.Lib.Ring

/-
  The ring buffer of bytes.
-/

----
-- The Buffer
----

namespace Riot

structure Ringbuffer where
  buf : Nat → UInt8
  size : Nat
  start : Nat
  avail : Nat

namespace Ringbuffer

/- The buffer that is handed over is not cleared. -/
def init
    (buf : Nat → UInt8) (size : Nat) : Ringbuffer :=
  ⟨buf, size, 0, 0⟩

def empty
    (rb : Ringbuffer) : Bool :=
  rb.avail == 0

def full
    (rb : Ringbuffer) : Bool :=
  rb.avail == rb.size

def getFree
    (rb : Ringbuffer) : Nat :=
  rb.size - rb.avail

def addTail
    (rb : Ringbuffer) (c : UInt8) : Ringbuffer :=
  let pos := rb.start + rb.avail
  let pos := if pos ≥ rb.size then pos - rb.size else pos
  { rb with buf := Function.update rb.buf pos c, avail := rb.avail + 1 }

/- Add bytes up to the size, and say how many were added. -/
def add :
    Ringbuffer → List UInt8 → Ringbuffer × Nat
| rb, [] => (rb, 0)
| rb, c :: cs =>
  if rb.full then
    (rb, 0)
  else
    let (rb', n) := add (rb.addTail c) cs
    (rb', n + 1)

/- The bytes that `memcpy` reads. -/
def read
    (rb : Ringbuffer) (pos n : Nat) : List UInt8 :=
  (List.range n).map (fun i => rb.buf (pos + i))

/- Take up to `n` bytes out. -/
def get
    (rb : Ringbuffer) (n : Nat) : Ringbuffer × List UInt8 :=
  let n := if n > rb.avail then rb.avail else n
  if n > 0 then
    let bytesTillEnd := rb.size - rb.start
    if bytesTillEnd ≥ n then
      ({ rb with
          start :=
            if bytesTillEnd = n then 0 else rb.start + n
          avail := rb.avail - n }, rb.read rb.start n)
    else
      ({ rb with start := n - bytesTillEnd, avail := rb.avail - n },
        rb.read rb.start bytesTillEnd ++ rb.read 0 (n - bytesTillEnd))
  else
    (rb, [])

----
-- Contents
----

structure Ok
    (rb : Ringbuffer) : Prop where
  start_le : rb.start ≤ rb.size - 1
  avail_le : rb.avail ≤ rb.size

/- The bytes in the buffer, oldest first. -/
def contents
    (rb : Ringbuffer) : List UInt8 :=
  ringItems rb.size rb.buf rb.start rb.avail

variable {rb : Ringbuffer}

@[simp]
theorem length_contents :
    rb.contents.length = rb.avail :=
  ringItems_length

theorem ok_init
    (buf : Nat → UInt8) (size : Nat) :
    (init buf size).Ok :=
  ⟨Nat.zero_le _, Nat.zero_le _⟩

@[simp]
theorem size_addTail
    {c : UInt8} :
    (rb.addTail c).size = rb.size := rfl

@[simp]
theorem avail_addTail
    {c : UInt8} :
    (rb.addTail c).avail = rb.avail + 1 := rfl

theorem Ok.addTail
    {c : UInt8} (hOk : rb.Ok) (hFull : rb.full = false) :
    (rb.addTail c).Ok ∧ (rb.addTail c).contents = rb.contents ++ [c] := by
  have hStart := hOk.start_le
  have hAvail := hOk.avail_le
  have hNe : rb.avail ≠ rb.size := by
    simpa [full] using hFull
  have hPos : (if rb.start + rb.avail ≥ rb.size then rb.start + rb.avail - rb.size else
        rb.start + rb.avail) = (rb.start + rb.avail) % rb.size := by
    split
    · rename_i hWrap
      rw [Nat.mod_eq_sub_mod hWrap]
      exact (Nat.mod_eq_of_lt (by omega)).symm
    · rename_i hWrap
      exact (Nat.mod_eq_of_lt (by omega)).symm
  refine ⟨⟨hStart, ?_⟩, ?_⟩
  · rw [avail_addTail, size_addTail]
    omega
  · unfold Ringbuffer.addTail contents
    dsimp only
    rw [hPos]
    exact ringItems_push (by omega)

/- The added bytes are the first ones, as far as they fit. -/
theorem add_spec
    (bs : List UInt8) (hOk : rb.Ok) :
    (rb.add bs).1.Ok ∧ (rb.add bs).1.size = rb.size ∧
    (rb.add bs).1.contents = rb.contents ++ bs.take (rb.add bs).2 ∧
    (rb.add bs).2 = min bs.length rb.getFree := by
  induction bs generalizing rb with
  | nil => simp [add, hOk]
  | cons c cs ih =>
    unfold add
    cases hFull : rb.full with
    | true =>
      have hFree : rb.getFree = 0 := by
        simp only [full, beq_iff_eq] at hFull
        simp [getFree, hFull]
      simp [hOk, hFree]
    | false =>
      have hAvail := hOk.avail_le
      have hNe : rb.avail ≠ rb.size := by
        simpa [full] using hFull
      rcases hOk.addTail (c := c) hFull with ⟨hNext, hContents⟩
      rcases ih hNext with ⟨hOk', hSize, hAll, hCount⟩
      simp only [Bool.false_eq_true, if_false]
      refine ⟨hOk', hSize, ?_, ?_⟩
      · rw [hAll, hContents, List.append_assoc, List.take_succ_cons, List.singleton_append]
      · rw [hCount, getFree, getFree, avail_addTail, size_addTail, List.length_cons]
        omega

/- The first bytes are taken out. -/
theorem get_spec
    (n : Nat) (hOk : rb.Ok) :
    (rb.get n).1.Ok ∧ (rb.get n).1.size = rb.size ∧
    rb.contents = (rb.get n).2 ++ (rb.get n).1.contents := by
  have hStart := hOk.start_le
  have hAvail := hOk.avail_le
  unfold get
  dsimp only
  generalize hk : (if n > rb.avail then rb.avail else n) = k
  have hLe : k ≤ rb.avail := by
    rw [← hk]
    split <;> omega
  have hSplit : rb.contents = ringItems rb.size rb.buf rb.start k ++
          ringItems rb.size rb.buf (rb.start + k) (rb.avail - k) := by
    unfold contents
    rw [← ringItems_add, Nat.add_sub_cancel' hLe]
  by_cases hPos : k > 0
  · rw [if_pos hPos]
    by_cases hEnd : rb.size - rb.start ≥ k
    · rw [if_pos hEnd]
      refine ⟨⟨?_, by dsimp only; omega⟩, rfl, ?_⟩
      · dsimp only
        split <;> omega
      · rw [hSplit, ringItems_eq_map (by omega)]
        congr 1
        unfold contents
        dsimp only
        split
        · rename_i hWrap
          apply ringItems_congr
          have hEq : rb.start + k = rb.size := by
            omega
          rw [hEq]
          exact (Nat.modEq_zero_iff_dvd.mpr (Nat.dvd_refl rb.size))
        · rfl
    · rw [if_neg hEnd]
      refine ⟨⟨by dsimp only; omega, by dsimp only; omega⟩, rfl, ?_⟩
      have hWrap : rb.start + (rb.size - rb.start) ≡ 0 [MOD rb.size] := by
        rw [Nat.add_sub_cancel' (by omega)]
        exact Nat.modEq_zero_iff_dvd.mpr (Nat.dvd_refl _)
      have hTwo : ringItems rb.size rb.buf rb.start k =
            rb.read rb.start (rb.size - rb.start) ++ rb.read 0 (k - (rb.size - rb.start)) := by
        have hk' : k = rb.size - rb.start + (k - (rb.size - rb.start)) := by
          omega
        rw [hk', ringItems_add, ringItems_congr hWrap, ringItems_eq_map (by omega),
          ringItems_eq_map (by omega), ← hk']
        rfl
      rw [hSplit, hTwo]
      congr 1
      unfold contents
      dsimp only
      apply ringItems_congr
      have hSum : rb.start + k = k - (rb.size - rb.start) + rb.size := by
        omega
      rw [hSum]
      exact Nat.add_modEq_right
  · have hZero : k = 0 := by
      omega
    rw [if_neg hPos]
    exact ⟨hOk, rfl, rfl⟩

end Ringbuffer

end Riot
