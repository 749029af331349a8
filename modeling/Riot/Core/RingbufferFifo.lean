import Riot.Core.Ringbuffer

/-
  The ring buffer of `ringbuffer.c` with its unsigned
  arithmetic, against a queue of bytes of bounded length.

  An access to the buffer behind its end is a fault (`none`).
-/

----
-- Calls
----

namespace Riot

namespace Ringbuffer

/- The largest value of `unsigned` is `uintMax`. -/
variable (uintMax : Nat)

/- Sum and difference of two `unsigned` values. -/
def plus
    (a b : Nat) : Nat :=
  (a + b) % (uintMax + 1)

def minus
    (a b : Nat) : Nat :=
  (a + (uintMax + 1) - b) % (uintMax + 1)

/- Load and store one byte of the buffer. -/
def load
    (rb : Ringbuffer) (pos : Nat) : Option UInt8 :=
  if pos < rb.size then some (rb.buf pos) else none

def store
    (rb : Ringbuffer) (pos : Nat) (c : UInt8) : Option Ringbuffer :=
  if pos < rb.size then
    some { rb with buf := Function.update rb.buf pos c }
  else
    none

/- `memcpy` of `n` bytes at `pos` out of the buffer. -/
def copyOut
    (rb : Ringbuffer) (pos n : Nat) : Option (List UInt8) :=
  if pos + n ≤ rb.size then some (rb.read pos n) else none

/- `add_tail` -/
def addTailWord
    (rb : Ringbuffer) (c : UInt8) : Option Ringbuffer :=
  let pos := plus uintMax rb.start rb.avail
  let rb := { rb with avail := plus uintMax rb.avail 1 }
  let pos :=
    if pos ≥ rb.size then minus uintMax pos rb.size else pos
  rb.store pos c

/- `get_head` -/
def getHeadWord
    (rb : Ringbuffer) : Option (Ringbuffer × UInt8) :=
  match rb.load rb.start with
  | none => none
  | some result =>
    let rb := { rb with avail := minus uintMax rb.avail 1 }
    if rb.avail = 0 then
      some ({ rb with start := 0 }, result)
    else
      let rb := { rb with start := plus uintMax rb.start 1 }
      if rb.start = rb.size then
        some ({ rb with start := 0 }, result)
      else
        some (rb, result)

/- `ringbuffer_add`, which returns the number of bytes added. -/
def addWord :
    Ringbuffer → List UInt8 → Option (Ringbuffer × Nat)
  | rb, [] => some (rb, 0)
  | rb, c :: cs =>
    if rb.full then
      some (rb, 0)
    else
      match rb.addTailWord uintMax c with
      | none => none
      | some rb =>
        match addWord rb cs with
        | none => none
        | some (rb, n) => some (rb, n + 1)

/-
  `ringbuffer_add_one`, which returns the dropped byte, or
  `none` for the result -1.
-/
def addOneWord
    (rb : Ringbuffer) (c : UInt8) : Option (Ringbuffer × Option UInt8) :=
  if rb.full then
    match rb.getHeadWord uintMax with
    | none => none
    | some (rb, result) => (rb.addTailWord uintMax c).map (·, some result)
  else
    (rb.addTailWord uintMax c).map (·, none)

/- `ringbuffer_get_one`, with `none` for the result -1. -/
def getOneWord
    (rb : Ringbuffer) :
    Option (Ringbuffer × Option UInt8) :=
  if rb.empty then
    some (rb, none)
  else
    (rb.getHeadWord uintMax).map (fun r => (r.1, some r.2))

/- `ringbuffer_get` -/
def getWord
    (rb : Ringbuffer) (n : Nat) : Option (Ringbuffer × List UInt8) :=
  let n := if n > rb.avail then rb.avail else n
  if n > 0 then
    let bytesTillEnd := minus uintMax rb.size rb.start
    if bytesTillEnd ≥ n then
      match rb.copyOut rb.start n with
      | none => none
      | some bytes =>
        some
          ({ rb with
              start :=
                if bytesTillEnd = n then
                  0
                else
                  plus uintMax rb.start n
              avail := minus uintMax rb.avail n }, bytes)
    else
      match rb.copyOut rb.start bytesTillEnd,
          rb.copyOut 0 (minus uintMax n bytesTillEnd) with
      | some front, some back =>
        some
          ({ rb with start := minus uintMax n bytesTillEnd, avail := minus uintMax rb.avail n },
            front ++ back)
      | _, _ => none
  else
    some (rb, [])

/- `ringbuffer_remove` -/
def removeWord
    (rb : Ringbuffer) (n : Nat) : Ringbuffer × Nat :=
  if n > rb.avail then
    ({ rb with start := 0, avail := 0 }, rb.avail)
  else
    let start := plus uintMax rb.start n
    ({ rb with
        start :=
          if start ≥ rb.size then
            minus uintMax start rb.size
          else
            start
        avail := minus uintMax rb.avail n }, n)

/- `ringbuffer_peek_one` works on a copy of the counters. -/
def peekOneWord
    (rb : Ringbuffer) : Option (Option UInt8) :=
  (rb.getOneWord uintMax).map (·.2)

/- `ringbuffer_peek` -/
def peekWord
    (rb : Ringbuffer) (n : Nat) : Option (List UInt8) :=
  (rb.getWord uintMax n).map (·.2)

end Ringbuffer

/- The calls, with their arguments. -/
inductive RingbufferCall where
  | add (bytes : List UInt8)
  | addOne (c : UInt8)
  | get (n : Nat)
  | getOne
  | remove (n : Nat)
  | peek (n : Nat)
  | peekOne

/- What a call returns, with the bytes written to `buf`. -/
inductive RingbufferResult where
  | number (n : Nat)
  | byte (c : Option UInt8)
  | bytes (l : List UInt8)
deriving DecidableEq, Repr

def RingbufferCall.run
    (uintMax : Nat) (rb : Ringbuffer) :
    RingbufferCall → Option (Ringbuffer × RingbufferResult)
  | .add bytes => (rb.addWord uintMax bytes).map (fun r => (r.1, .number r.2))
  | .addOne c => (rb.addOneWord uintMax c).map (fun r => (r.1, .byte r.2))
  | .get n => (rb.getWord uintMax n).map (fun r => (r.1, .bytes r.2))
  | .getOne => (rb.getOneWord uintMax).map (fun r => (r.1, .byte r.2))
  | .remove n => some ((rb.removeWord uintMax n).1, .number (rb.removeWord uintMax n).2)
  | .peek n => (rb.peekWord uintMax n).map (fun l => (rb, .bytes l))
  | .peekOne => (rb.peekOneWord uintMax).map (fun c => (rb, .byte c))

/- Perform calls one after the other. -/
def RingbufferCall.runAll
    (uintMax : Nat) :
    Ringbuffer → List RingbufferCall → Option (Ringbuffer × List RingbufferResult)
  | rb, [] => some (rb, [])
  | rb, call :: calls =>
    match call.run uintMax rb with
    | none => none
    | some (rb, res) =>
      match RingbufferCall.runAll uintMax rb calls with
      | none => none
      | some (rb, results) => some (rb, res :: results)

----
-- Queues of Bytes
----

/- The call on a queue of at most `size` bytes. -/
def RingbufferCall.apply
    (size : Nat) (q : List UInt8) :
    RingbufferCall → List UInt8 × RingbufferResult
  | .add bytes =>
    (q ++ bytes.take (size - q.length), .number (min bytes.length (size - q.length)))
  | .addOne c =>
    if q.length = size then
      (q.tail ++ [c], .byte q.head?)
    else
      (q ++ [c], .byte none)
  | .get n => (q.drop n, .bytes (q.take n))
  | .getOne => (q.tail, .byte q.head?)
  | .remove n => (q.drop n, .number (min n q.length))
  | .peek n => (q, .bytes (q.take n))
  | .peekOne => (q, .byte q.head?)

def RingbufferCall.applyAll
    (size : Nat) :
    List UInt8 → List RingbufferCall → List UInt8 × List RingbufferResult
  | q, [] => (q, [])
  | q, call :: calls =>
    ((RingbufferCall.applyAll size (call.apply size q).1
        calls).1,
      (call.apply size q).2 :: (RingbufferCall.applyAll size (call.apply size q).1 calls).2)

----
-- Single Calls
----

namespace Ringbuffer

variable {uintMax : Nat} {rb : Ringbuffer} {n : Nat} {c : UInt8}

/- Sums and differences in range are not reduced. -/
theorem plus_eq
    {a b : Nat} (hLe : a + b ≤ uintMax) :
    plus uintMax a b = a + b :=
  Nat.mod_eq_of_lt (Nat.lt_succ_of_le hLe)

theorem minus_eq
    {a b : Nat} (hLe : b ≤ a) (hMax : a ≤ uintMax) :
    minus uintMax a b = a - b := by
  unfold minus
  have hSum : a + (uintMax + 1) - b = a - b + (uintMax + 1) := by
    omega
  rw [hSum, Nat.add_mod_right]
  exact Nat.mod_eq_of_lt (by omega)

/- A buffer of a size that leaves room for sums of indices. -/
structure Sized
    (uintMax : Nat)
    (rb : Ringbuffer) : Prop extends rb.Ok where
  pos : 1 ≤ rb.size
  small : rb.size ≤ uintMax / 2

section

variable (hSized : rb.Sized uintMax)

include hSized

theorem Sized.start_lt :
    rb.start < rb.size := by
  have hLe := hSized.start_le
  have hPos := hSized.pos
  omega

theorem Sized.double_le :
    2 * rb.size ≤ uintMax := by
  have hSmall := hSized.small
  omega

theorem Sized.of_ok
    {rb' : Ringbuffer} (hOk : rb'.Ok) (hSize : rb'.size = rb.size) :
    rb'.Sized uintMax where
  toOk := hOk
  pos := hSize ▸ hSized.pos
  small := hSize ▸ hSized.small

/- Adding at the tail stays in the buffer. -/
theorem addTailWord_eq
    (hSpace : rb.avail < rb.size) :
    rb.addTailWord uintMax c = some (rb.addTail c) := by
  have hStart := hSized.start_lt
  have hDouble := hSized.double_le
  have hPos : plus uintMax rb.start rb.avail = rb.start + rb.avail := plus_eq (by omega)
  have hAvail : plus uintMax rb.avail 1 = rb.avail + 1 := plus_eq (by omega)
  simp only [addTailWord, addTail, hPos, hAvail, store]
  by_cases hWrap : rb.start + rb.avail ≥ rb.size
  · have hMinus : minus uintMax (rb.start + rb.avail) rb.size = rb.start + rb.avail - rb.size :=
      minus_eq hWrap (by omega)
    have hIn : rb.start + rb.avail - rb.size < rb.size := by
      omega
    simp only [if_pos hWrap, hMinus, if_pos hIn]
  · have hIn : rb.start + rb.avail < rb.size := by
      omega
    simp only [if_neg hWrap, if_pos hIn]

/- The head is the oldest byte. -/
theorem getHeadWord_spec
    (hSome : rb.avail ≠ 0) :
    ∃ rb' c, rb.getHeadWord uintMax = some (rb', c) ∧ rb'.Ok ∧ rb'.size = rb.size ∧
        rb.contents = c :: rb'.contents := by
  have hStart := hSized.start_lt
  have hDouble := hSized.double_le
  have hAvailLe := hSized.avail_le
  have hLoad : rb.load rb.start = some (rb.buf rb.start) := if_pos hStart
  have hAvail : minus uintMax rb.avail 1 = rb.avail - 1 := minus_eq (by omega) (by omega)
  have hNext : plus uintMax rb.start 1 = rb.start + 1 := plus_eq (by omega)
  have hSplit :
      rb.contents = rb.buf rb.start :: ringItems rb.size rb.buf (rb.start + 1) (rb.avail - 1) := by
    have hCount : rb.avail = rb.avail - 1 + 1 := by omega
    unfold contents
    rw [hCount, ringItems_pop, Nat.mod_eq_of_lt hStart]
    rfl
  by_cases hLast : rb.avail - 1 = 0
  · refine ⟨{ rb with start := 0, avail := 0 },
      rb.buf rb.start, ?_, ⟨Nat.zero_le _, Nat.zero_le _⟩, rfl, ?_⟩
    · simp only [getHeadWord, hLoad, hAvail, hLast, if_true]
    · rw [hSplit, hLast]
      rfl
  · by_cases hWrap : rb.start + 1 = rb.size
    · refine ⟨{ rb with start := 0, avail := rb.avail - 1 },
        rb.buf rb.start, ?_, ⟨Nat.zero_le _, ?_⟩, rfl, ?_⟩
      · simp only [getHeadWord, hLoad, hAvail, hNext, if_neg hLast, if_pos hWrap]
      · dsimp only
        omega
      · rw [hSplit]
        unfold contents
        congr 1
        apply ringItems_congr
        rw [hWrap]
        exact Nat.modEq_zero_iff_dvd.mpr (Nat.dvd_refl _)
    · refine ⟨{ rb with start := rb.start + 1, avail := rb.avail - 1 },
          rb.buf rb.start, ?_, ⟨?_, ?_⟩, rfl, hSplit⟩
      · simp only [getHeadWord, hLoad, hAvail, hNext, if_neg hLast, if_neg hWrap]
      · dsimp only
        omega
      · dsimp only
        omega

end

/- Adding bytes never faults. -/
theorem addWord_eq
    (bs : List UInt8) (hSized : rb.Sized uintMax) :
    rb.addWord uintMax bs = some (rb.add bs) := by
  induction bs generalizing rb with
  | nil => rfl
  | cons c cs ih =>
    unfold addWord add
    cases hFull : rb.full with
    | true => rfl
    | false =>
      have hNe : rb.avail ≠ rb.size := by
        simpa [full] using hFull
      have hLe := hSized.avail_le
      rcases hSized.toOk.addTail (c := c) hFull with ⟨hOk, _⟩
      simp only [Bool.false_eq_true, if_false, addTailWord_eq hSized (Nat.lt_of_le_of_ne hLe hNe),
        ih (hSized.of_ok hOk rfl)]

/- Taking bytes out never faults. -/
theorem getWord_eq
    (n : Nat) (hSized : rb.Sized uintMax) :
    rb.getWord uintMax n = some (rb.get n) := by
  have hStart := hSized.start_lt
  have hDouble := hSized.double_le
  have hAvail := hSized.avail_le
  unfold getWord get
  dsimp only
  generalize hk : (if n > rb.avail then rb.avail else n) = k
  have hLe : k ≤ rb.avail := by
    rw [← hk]
    split <;> omega
  have hEnd : minus uintMax rb.size rb.start = rb.size - rb.start := minus_eq (by omega) (by omega)
  have hLeft : minus uintMax rb.avail k = rb.avail - k := minus_eq hLe (by omega)
  rw [hEnd, hLeft]
  by_cases hPos : k > 0
  · rw [if_pos hPos, if_pos hPos]
    by_cases hOne : rb.size - rb.start ≥ k
    · have hCopy : rb.copyOut rb.start k = some (rb.read rb.start k) := if_pos (by omega)
      have hNext : plus uintMax rb.start k = rb.start + k := plus_eq (by omega)
      rw [if_pos hOne, if_pos hOne, hCopy, hNext]
    · have hRest : minus uintMax k (rb.size - rb.start) = k - (rb.size - rb.start) :=
        minus_eq (by omega) (by omega)
      have hFront :
          rb.copyOut rb.start (rb.size - rb.start) = some (rb.read rb.start (rb.size - rb.start)) :=
        if_pos (by omega)
      have hBack :
          rb.copyOut 0 (k - (rb.size - rb.start)) = some (rb.read 0 (k - (rb.size - rb.start))) :=
        if_pos (by omega)
      rw [if_neg hOne, if_neg hOne, hRest, hFront, hBack]
  · rw [if_neg hPos, if_neg hPos]

/- As many bytes are taken out as there are, up to `n`. -/
theorem get_length
    (n : Nat) :
    (rb.get n).2.length = min n rb.avail := by
  unfold get
  dsimp only
  generalize hk : (if n > rb.avail then rb.avail else n) = k
  have hMin : k = min n rb.avail := by
    rw [← hk]
    split <;> omega
  rw [← hMin]
  by_cases hPos : k > 0
  · rw [if_pos hPos]
    by_cases hOne : rb.size - rb.start ≥ k
    · rw [if_pos hOne]
      simp [read]
    · rw [if_neg hOne]
      simp only [read, List.length_append, List.length_map, List.length_range]
      omega
  · rw [if_neg hPos]
    simp only [List.length_nil]
    omega

/- The first bytes are taken out, the others stay. -/
theorem get_contents
    (n : Nat) (hOk : rb.Ok) :
    (rb.get n).2 = rb.contents.take n ∧ (rb.get n).1.contents = rb.contents.drop n := by
  rcases get_spec n hOk with ⟨_, _, hSplit⟩
  have hLen : (rb.get n).2.length = min n rb.avail := get_length n
  by_cases hLe : n ≤ rb.avail
  · have hEq : (rb.get n).2.length = n := by omega
    rw [hSplit]
    exact ⟨(List.take_left' hEq).symm, (List.drop_left' hEq).symm⟩
  · have hAll : rb.contents.length ≤ n := by
      rw [length_contents]
      omega
    have hNil : (rb.get n).1.contents = [] := by
      have hSum := congrArg List.length hSplit
      rw [List.length_append, length_contents, hLen] at hSum
      apply List.length_eq_zero_iff.mp
      omega
    rw [hNil, List.append_nil] at hSplit
    rw [List.take_of_length_le hAll, List.drop_of_length_le hAll]
    exact ⟨hSplit.symm, hNil⟩

/- Removal drops the first bytes. -/
theorem removeWord_spec
    (n : Nat) (hSized : rb.Sized uintMax) :
    (rb.removeWord uintMax n).1.Ok ∧ (rb.removeWord uintMax n).1.size = rb.size ∧
      (rb.removeWord uintMax n).1.contents = rb.contents.drop n ∧
      (rb.removeWord uintMax n).2 = min n rb.avail := by
  have hStart := hSized.start_lt
  have hDouble := hSized.double_le
  have hAvail := hSized.avail_le
  unfold removeWord
  dsimp only
  by_cases hMore : n > rb.avail
  · rw [if_pos hMore]
    refine ⟨⟨Nat.zero_le _, Nat.zero_le _⟩, rfl, ?_, by omega⟩
    rw [List.drop_of_length_le (by rw [length_contents]; omega)]
    rfl
  · have hSum : plus uintMax rb.start n = rb.start + n := plus_eq (by omega)
    have hLeft : minus uintMax rb.avail n = rb.avail - n := minus_eq (by omega) (by omega)
    have hDrop : rb.contents.drop n = ringItems rb.size rb.buf (rb.start + n) (rb.avail - n) := by
      have hCount : rb.avail = n + (rb.avail - n) := by omega
      unfold contents
      rw [hCount, ringItems_add, List.drop_left' (by simp), Nat.add_sub_cancel_left]
    rw [if_neg hMore, hSum, hLeft, hDrop]
    by_cases hWrap : rb.start + n ≥ rb.size
    · have hBack : minus uintMax (rb.start + n) rb.size = rb.start + n - rb.size :=
        minus_eq hWrap (by omega)
      rw [if_pos hWrap, hBack]
      refine ⟨⟨by dsimp only; omega, by dsimp only; omega⟩, rfl, ?_, by omega⟩
      unfold contents
      apply ringItems_congr
      have hMod : rb.start + n - rb.size + rb.size ≡ rb.start + n - rb.size [MOD rb.size] :=
        Nat.add_modEq_right
      rw [Nat.sub_add_cancel hWrap] at hMod
      exact hMod.symm
    · rw [if_neg hWrap]
      exact ⟨⟨by dsimp only; omega, by dsimp only; omega⟩, rfl, rfl, by omega⟩

end Ringbuffer

----
-- Runs of Calls
----

open Ringbuffer

variable {uintMax : Nat} {rb : Ringbuffer}

/-
  A call acts on the contents as on a queue of bounded
  length. It accesses no byte outside the buffer.
-/
theorem ringbufferCall_refines
    (call : RingbufferCall) (hSized : rb.Sized uintMax) :
    ∃ rb', call.run uintMax rb = some (rb', (call.apply rb.size rb.contents).2) ∧
        rb'.Sized uintMax ∧ rb'.size = rb.size ∧
        rb'.contents = (call.apply rb.size rb.contents).1 := by
  have hAvail := hSized.avail_le
  have hPos := hSized.pos
  have hHead :
      rb.avail ≠ 0 → ∃ rb' c, rb.getHeadWord uintMax = some (rb', c) ∧ rb'.Sized uintMax ∧
            rb'.size = rb.size ∧ rb.contents = c :: rb'.contents := by
    intro hNe
    rcases getHeadWord_spec hSized hNe with ⟨rb', c, hGet, hOk, hSize, hContents⟩
    exact ⟨rb', c, hGet, hSized.of_ok hOk hSize, hSize, hContents⟩
  have hGetOne :
      ∃ rb', rb.getOneWord uintMax = some (rb', rb.contents.head?) ∧ rb'.Sized uintMax ∧
          rb'.size = rb.size ∧ rb'.contents = rb.contents.tail := by
    by_cases hEmpty : rb.avail = 0
    · have hNil : rb.contents = [] := by
        apply List.length_eq_zero_iff.mp
        rw [length_contents, hEmpty]
      refine ⟨rb, ?_, hSized, rfl, by simp [hNil]⟩
      simp [getOneWord, empty, hEmpty, hNil]
    · rcases hHead hEmpty with ⟨rb', c, hGet, hSized', hSize, hContents⟩
      refine ⟨rb', ?_, hSized', hSize, by simp [hContents]⟩
      simp [getOneWord, empty, hEmpty, hGet, hContents]
  cases call with
  | add bytes =>
    rcases add_spec bytes hSized.toOk with ⟨hOk, hSize, hContents, hCount⟩
    rw [getFree] at hCount
    refine ⟨(rb.add bytes).1, ?_, hSized.of_ok hOk hSize, hSize, ?_⟩
    · simp only [RingbufferCall.run, RingbufferCall.apply, addWord_eq bytes hSized, Option.map_some,
        hCount, length_contents]
    · simp only [RingbufferCall.apply, length_contents]
      rw [hContents, hCount]
      congr 1
      by_cases hLe : bytes.length ≤ rb.size - rb.avail
      · rw [Nat.min_eq_left hLe, List.take_length, List.take_of_length_le hLe]
      · rw [Nat.min_eq_right (Nat.le_of_not_le hLe)]
  | addOne c =>
    by_cases hFull : rb.avail = rb.size
    · rcases hHead (by omega) with ⟨rb₁, old, hGet, hSized₁, hSize₁, hContents₁⟩
      have hLen := congrArg List.length hContents₁
      rw [length_contents, List.length_cons, length_contents] at hLen
      have hSpace : rb₁.avail < rb₁.size := by omega
      have hNotFull : rb₁.full = false := by
        simpa [full] using Nat.ne_of_lt hSpace
      rcases hSized₁.toOk.addTail (c := c) hNotFull with ⟨hOk, hContents⟩
      refine ⟨rb₁.addTail c, ?_, hSized₁.of_ok hOk rfl, hSize₁, ?_⟩
      · simp [RingbufferCall.run, RingbufferCall.apply, addOneWord, full, hFull, hGet, hContents₁,
          addTailWord_eq hSized₁ hSpace, hLen.symm]
      · simp [RingbufferCall.apply, hFull, hContents, hContents₁, hLen.symm]
    · have hSpace : rb.avail < rb.size := by omega
      have hNotFull : rb.full = false := by
        simpa [full] using hFull
      rcases hSized.toOk.addTail (c := c) hNotFull with ⟨hOk, hContents⟩
      refine ⟨rb.addTail c, ?_, hSized.of_ok hOk rfl, rfl, ?_⟩
      · simp [RingbufferCall.run, RingbufferCall.apply, addOneWord, hNotFull, hFull,
          addTailWord_eq hSized hSpace]
      · simp [RingbufferCall.apply, hFull, hContents]
  | get n =>
    rcases get_spec n hSized.toOk with ⟨hOk, hSize, _⟩
    rcases get_contents n hSized.toOk with ⟨hTake, hDrop⟩
    refine ⟨(rb.get n).1, ?_, hSized.of_ok hOk hSize, hSize, hDrop⟩
    simp only [RingbufferCall.run, RingbufferCall.apply,
      getWord_eq n hSized, Option.map_some, hTake]
  | getOne =>
    rcases hGetOne with ⟨rb', hGet, hSized', hSize, hContents⟩
    refine ⟨rb', ?_, hSized', hSize, hContents⟩
    simp only [RingbufferCall.run, RingbufferCall.apply, hGet, Option.map_some]
  | remove n =>
    rcases removeWord_spec n hSized with ⟨hOk, hSize, hContents, hCount⟩
    refine ⟨(rb.removeWord uintMax n).1, ?_, hSized.of_ok hOk hSize, hSize, hContents⟩
    simp only [RingbufferCall.run, RingbufferCall.apply, hCount, length_contents]
  | peek n =>
    rcases get_contents n hSized.toOk with ⟨hTake, _⟩
    refine ⟨rb, ?_, hSized, rfl, rfl⟩
    simp only [RingbufferCall.run, RingbufferCall.apply,
      peekWord, getWord_eq n hSized, Option.map_some, hTake]
  | peekOne =>
    rcases hGetOne with ⟨rb', hGet, _⟩
    refine ⟨rb, ?_, hSized, rfl, rfl⟩
    simp only [RingbufferCall.run, RingbufferCall.apply, peekOneWord, hGet, Option.map_some]

/- A run acts on the contents as on a queue. -/
theorem ringbufferCalls_refine
    (calls : List RingbufferCall) (hSized : rb.Sized uintMax) :
    ∃ rb', RingbufferCall.runAll uintMax rb calls =
          some (rb', (RingbufferCall.applyAll rb.size rb.contents calls).2) ∧
        rb'.Sized uintMax ∧ rb'.size = rb.size ∧
        rb'.contents = (RingbufferCall.applyAll rb.size rb.contents calls).1 := by
  induction calls generalizing rb with
  | nil => exact ⟨rb, rfl, hSized, rfl, rfl⟩
  | cons call calls ih =>
    rcases ringbufferCall_refines call hSized with ⟨rb₁, hRun, hSized₁, hSize, hContents⟩
    rcases ih hSized₁ with ⟨rb₂, hAll, hSized₂, hSize₂, hContents₂⟩
    rw [hSize, hContents] at hAll hContents₂
    refine ⟨rb₂, ?_, hSized₂, hSize₂.trans hSize, hContents₂⟩
    simp only [RingbufferCall.runAll, RingbufferCall.applyAll, hRun, hAll]

/-
  From an empty buffer on, whatever bytes it holds, every run
  returns what a queue of at most `size` bytes returns.
-/
theorem ringbuffer_fifo
    {size : Nat} (buf : Nat → UInt8) (calls : List RingbufferCall) (hPos : 1 ≤ size)
    (hSmall : size ≤ uintMax / 2) :
    ∃ rb', RingbufferCall.runAll uintMax (init buf size) calls =
          some (rb', (RingbufferCall.applyAll size [] calls).2) ∧ rb'.start < size ∧
        rb'.avail ≤ size ∧ rb'.size = size ∧
        rb'.contents = (RingbufferCall.applyAll size [] calls).1 := by
  have hSized : (init buf size).Sized uintMax :=
    { toOk := ok_init buf size
      pos := hPos
      small := hSmall }
  rcases ringbufferCalls_refine calls hSized with ⟨rb', hRun, hSized', hSize, hContents⟩
  have hSize' : rb'.size = size := hSize
  refine ⟨rb', hRun, ?_, ?_, hSize', hContents⟩
  · rw [← hSize']
    exact hSized'.start_lt
  · rw [← hSize']
    exact hSized'.avail_le

/- Three bytes into a buffer of two, and one more. -/
theorem ringbuffer_fifo_two :
    ∃ rb',
      RingbufferCall.runAll 4294967295
          (init (fun _ => 0) 2)
          [.add [1, 2, 3], .addOne 4, .get 5] =
          some (rb', [.number 2, .byte (some 1), .bytes [2, 4]]) ∧ rb'.start < 2 ∧
        rb'.contents = [] := by
  have hSmall : 2 ≤ 4294967295 / 2 := by decide
  rcases ringbuffer_fifo (fun _ => 0)
      [.add [1, 2, 3], .addOne 4, .get 5] (by decide)
      hSmall with
    ⟨rb', hRun, hStart, _, _, hContents⟩
  exact ⟨rb', hRun, hStart, hContents⟩

end Riot
