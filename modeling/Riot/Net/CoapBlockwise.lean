import Riot.Lib.Windows
import Riot.Net.CoapBlock

/-
  Generating the content of a block: whatever calls a handler
  makes, the buffer receives the block that the slicer was
  made for.
-/

open ByteBuffer Windows

----
-- Calls
----

namespace Riot

/- A call that adds to the content. -/
inductive BlockwiseCall
| putBytes (c : List UInt8)
| putChar (c : UInt8)
deriving DecidableEq, Repr

/- What a handler keeps between its calls. -/
structure BlockwiseState where
  slicer : BlockSlicer
  buf : List UInt8
  bufpos : Nat
deriving DecidableEq, Repr

namespace BlockwiseCall

/- The bytes of the content. -/
def bytes : BlockwiseCall → List UInt8
| putBytes c => c
| putChar c => [c]

/- The call, after which the position moves by its result. -/
def run
    (st : BlockwiseState)
    (call : BlockwiseCall) : Option BlockwiseState := do
  let (n, buf, slicer) ←
    match call with
    | putBytes c => coapBlockwisePutBytes st.slicer st.buf st.bufpos c
    | putChar c => coapBlockwisePutChar st.slicer st.buf st.bufpos c
  some ⟨slicer, buf, st.bufpos + n⟩

end BlockwiseCall

def runCalls
    (st : BlockwiseState) (calls : List BlockwiseCall) : Option BlockwiseState :=
  calls.foldlM BlockwiseCall.run st

/- The same bytes, one by one. -/
def asChars
    (c : List UInt8) : List BlockwiseCall :=
  c.map .putChar

/- What the calls add at a position of a buffer. -/
def blockOutput
    (slicer : BlockSlicer) (buf : List UInt8) (bufpos : Nat)
    (calls : List BlockwiseCall) : Option (List UInt8) := do
  let st ← runCalls ⟨slicer, buf, bufpos⟩ calls
  readBytes st.buf bufpos (st.bufpos - bufpos)

----
-- One Call
----

/-
  A window that may wrap, but that does not reach below 2^31
  when it does.
-/
structure BlockSlicer.Sound
    (slicer : BlockSlicer) : Prop where
  start_lt : slicer.start < 2 ^ 32
  endOffset_lt : slicer.endOffset < 2 ^ 32
  wraps : slicer.start ≤ slicer.endOffset ∨ 2 ^ 31 ≤ slicer.start

/- The slicer is sound and has room for `n` more bytes. -/
structure BlockwiseState.Ready
    (st : BlockwiseState)
    (n : Nat) : Prop where
  slicer : st.slicer.Sound
  cur_lt : st.slicer.cur + n < 2 ^ 31
  bufpos_le : st.bufpos ≤ st.buf.length

/- The part of the bytes that lies in the window. -/
def BlockSlicer.visible
    (slicer : BlockSlicer) (c : List UInt8) : List UInt8 :=
  window slicer.start slicer.endOffset slicer.cur c

def BlockSlicer.advance
    (slicer : BlockSlicer) (n : Nat) : BlockSlicer :=
  { slicer with cur := slicer.cur + n }

/- Adding bytes, whatever calls are made for it. -/
def BlockwiseState.generate
    (st : BlockwiseState) (c : List UInt8) : Option BlockwiseState :=
  let bs := st.slicer.visible c
  (writeBytes st.buf st.bufpos bs).map
    (fun buf =>
      ⟨st.slicer.advance c.length, buf, st.bufpos + bs.length⟩)

variable {slicer : BlockSlicer} {st st' : BlockwiseState} {call : BlockwiseCall}
variable {buf buf' a b c : List UInt8} {pos bufpos n blksize : Nat}

theorem BlockSlicer.Sound.init
    (hSize : blksize ≤ 2 ^ 31) (blknum : Nat) :
    (coapBlockSlicerInit slicer blknum blksize).Sound := by
  have hStart : blknum * blksize % 2 ^ 32 < 2 ^ 32 := Nat.mod_lt _ (Nat.two_pow_pos 32)
  generalize hGen : blknum * blksize % 2 ^ 32 = start at hStart
  constructor
  · simp only [coapBlockSlicerInit, hGen]
    exact hStart
  · exact Nat.mod_lt _ (Nat.two_pow_pos 32)
  · simp only [coapBlockSlicerInit, hGen]
    omega

/- A character is copied when it is in the window. -/
theorem coapBlockwisePutChar_spec
    {x : UInt8} (hCur : slicer.cur + 1 < 2 ^ 31) (hPos : bufpos ≤ buf.length) :
    coapBlockwisePutChar slicer buf bufpos x = (writeBytes buf bufpos (slicer.visible [x])).map
        (fun buf =>
          ((slicer.visible [x]).length, buf, slicer.advance 1)) := by
  have hMod : (slicer.cur + 1) % 2 ^ 32 = slicer.cur + 1 := by
    omega
  unfold coapBlockwisePutChar
  simp only [hMod]
  by_cases hIn : slicer.start ≤ slicer.cur ∧ slicer.cur < slicer.endOffset
  · have hVisible : slicer.visible [x] = [x] := window_singleton hIn
    rw [if_pos hIn, hVisible]
    cases writeBytes buf bufpos [x] <;> rfl
  · have hVisible : slicer.visible [x] = [] := by
      refine window_eq_nil ?_
      rw [List.length_singleton]
      omega
    rw [if_neg hIn, hVisible, writeBytes_nil hPos]
    rfl

/-
  The part of a string that is copied is the part within the
  window, however the two lie.
-/
theorem coapBlockwisePutBytes_spec
    (hSound : slicer.Sound) (hCur : slicer.cur + c.length < 2 ^ 31)
    (hPos : bufpos ≤ buf.length) :
    coapBlockwisePutBytes slicer buf bufpos c = (writeBytes buf bufpos (slicer.visible c)).map
        (fun buf =>
          ((slicer.visible c).length, buf, slicer.advance c.length)) := by
  have hStart := hSound.start_lt
  have hEnd := hSound.endOffset_lt
  have hWraps := hSound.wraps
  have hOffset : (if slicer.start > slicer.cur then slicer.start - slicer.cur
        else 0) = slicer.start - slicer.cur := by
    split <;> omega
  have hMod : (slicer.cur + c.length) % 2 ^ 32 = slicer.cur + c.length := by
    omega
  unfold coapBlockwisePutBytes
  simp only [hOffset, hMod]
  by_cases hOut : slicer.cur ≥ slicer.endOffset ∨ slicer.start - slicer.cur > c.length
  · have hVisible : slicer.visible c = [] := by
      refine window_eq_nil ?_
      omega
    rw [if_pos hOut, hVisible, writeBytes_nil hPos]
    rfl
  rw [if_neg hOut]
  -- the window starts no later than the string ends
  have hReached : slicer.start - slicer.cur ≤ c.length ∧ slicer.cur < slicer.endOffset ∧
        slicer.start ≤ slicer.endOffset := by
    omega
  have hFirst :
      (slicer.cur + (slicer.start - slicer.cur)) % 2 ^ 32 = max slicer.start slicer.cur := by
    omega
  -- the length that is copied is the length of the window
  have hLength : (if slicer.cur + c.length ≥ slicer.endOffset then
          (slicer.endOffset + 2 ^ 32 - (slicer.cur + (slicer.start - slicer.cur)) % 2 ^ 32) % 2 ^ 32
        else c.length - (slicer.start - slicer.cur)) = (slicer.visible c).length := by
    rw [BlockSlicer.visible, window, List.length_take, List.length_drop, hFirst]
    by_cases hOver : slicer.cur + c.length ≥ slicer.endOffset
    · rw [if_pos hOver]
      omega
    · rw [if_neg hOver]
      omega
  have hRead : readBytes c (slicer.start - slicer.cur)
          (slicer.visible c).length = some (slicer.visible c) := by
    have hFits : slicer.start - slicer.cur + (slicer.visible c).length ≤ c.length := by
      rw [BlockSlicer.visible, window, List.length_take, List.length_drop]
      omega
    rw [readBytes, if_pos hFits, BlockSlicer.visible, take_length_window]
  rw [hLength, hRead, Option.bind_eq_bind, Option.bind_some]
  cases writeBytes buf bufpos (slicer.visible c) <;> rfl

----
-- Runs
----

variable {calls : List BlockwiseCall}
variable {k blknum : Nat}

/- The bytes of a list of calls. -/
def content
    (calls : List BlockwiseCall) : List UInt8 :=
  calls.flatMap BlockwiseCall.bytes

@[simp]
theorem content_nil :
    content [] = [] :=
  rfl

@[simp]
theorem content_cons :
    content (call :: calls) = call.bytes ++ content calls :=
  List.flatMap_cons

@[simp]
theorem content_asChars :
    content (asChars c) = c := by
  induction c with
  | nil => rfl
  | cons x c ih =>
    change [x] ++ content (asChars c) = x :: c
    rw [ih, List.singleton_append]

/- A call adds its bytes. -/
theorem run_eq_generate
    (hReady : st.Ready call.bytes.length) :
    call.run st = st.generate call.bytes := by
  have hCur := hReady.cur_lt
  cases call with
  | putBytes c =>
    have hSpec := coapBlockwisePutBytes_spec (c := c) hReady.slicer hCur hReady.bufpos_le
    simp only [BlockwiseCall.run, BlockwiseCall.bytes, hSpec, BlockwiseState.generate]
    cases writeBytes st.buf st.bufpos (st.slicer.visible c) <;> rfl
  | putChar x =>
    have hSpec := coapBlockwisePutChar_spec (x := x) hCur hReady.bufpos_le
    simp only [BlockwiseCall.run, BlockwiseCall.bytes, hSpec, BlockwiseState.generate]
    cases writeBytes st.buf st.bufpos (st.slicer.visible [x]) <;> rfl

/- Adding bytes leaves a state ready for those that remain. -/
theorem ready_generate
    (hReady : st.Ready (c.length + n)) (hRun : st.generate c = some st') :
    st'.Ready n := by
  have hCur := hReady.cur_lt
  rcases Option.map_eq_some_iff.mp hRun with ⟨buf, hWrite, rfl⟩
  rcases writeBytes_eq_some hWrite with ⟨hFits, hBuf⟩
  refine ⟨⟨hReady.slicer.1, hReady.slicer.2, hReady.slicer.3⟩, ?_, ?_⟩
  · change st.slicer.cur + c.length + n < 2 ^ 31
    omega
  · simp only [hBuf, List.length_append, List.length_take, List.length_drop]
    omega

/- Adding bytes in two parts. -/
theorem generate_bind :
    (st.generate a).bind (fun st => st.generate b) = st.generate (a ++ b) := by
  have hParts :
      st.slicer.visible (a ++ b) = st.slicer.visible a ++ (st.slicer.advance a.length).visible b :=
    window_append
  have hCur :
      (st.slicer.advance a.length).advance b.length = st.slicer.advance (a.length + b.length) := by
    simp only [BlockSlicer.advance, Nat.add_assoc]
  unfold BlockwiseState.generate
  dsimp only
  rw [hParts, ← writeBytes_bind, List.length_append]
  cases writeBytes st.buf st.bufpos (st.slicer.visible a) with
  | none => rfl
  | some buf =>
    simp only [Option.map_some, Option.bind_some]
    cases writeBytes buf
      (st.bufpos + (st.slicer.visible a).length)
      ((st.slicer.advance a.length).visible b) with
    | none => rfl
    | some buf => simp only [Option.map_some, hCur, List.length_append, Nat.add_assoc]

theorem generate_nil
    (hPos : st.bufpos ≤ st.buf.length) :
    st.generate [] = some st := by
  simp [BlockwiseState.generate, BlockSlicer.visible, writeBytes_nil hPos, BlockSlicer.advance]

/-
  A run adds the bytes of its calls, by induction on the
  calls.
-/
theorem runCalls_eq_generate
    (hReady : st.Ready (content calls).length) :
    runCalls st calls = st.generate (content calls) := by
  induction calls generalizing st with
  | nil =>
    rw [content_nil, generate_nil hReady.bufpos_le]
    rfl
  | cons call calls ih =>
    rw [content_cons, List.length_append] at hReady
    have hFirst : st.Ready call.bytes.length := by
      refine ⟨hReady.slicer, ?_, hReady.bufpos_le⟩
      have hCur := hReady.cur_lt
      omega
    have hStep : runCalls st (call :: calls) = (call.run st).bind (fun st => runCalls st calls) :=
      List.foldlM_cons
    rw [content_cons, ← generate_bind, hStep, run_eq_generate hFirst]
    cases hRun : st.generate call.bytes with
    | none => rfl
    | some st' => exact ih (ready_generate hReady hRun)

----
-- Blocks
----

/- A new slicer is ready for all of the content. -/
theorem ready_init
    (slicer : BlockSlicer) (blknum : Nat) (hSize : blksize ≤ 2 ^ 31)
    (hCursor : (content calls).length < 2 ^ 31) (hPos : bufpos ≤ buf.length) :
    BlockwiseState.Ready
      ⟨coapBlockSlicerInit slicer blknum blksize, buf, bufpos⟩
      (content calls).length where
  slicer := .init hSize blknum
  cur_lt := by
    rw [coapBlockSlicerInit, Nat.zero_add]
    exact hCursor
  bufpos_le := hPos

/- The slicer of a block that starts below 2^31. -/
theorem visible_init
    {c : List UInt8} (hSize : blksize ≤ 2 ^ 31) (hStart : k * blksize < 2 ^ 31) :
    (coapBlockSlicerInit slicer k blksize).visible c = block blksize k c := by
  have hMod : k * blksize % 2 ^ 32 = k * blksize := by
    omega
  have hEnd : (k * blksize + blksize) % 2 ^ 32 = k * blksize + blksize := by
    omega
  rw [BlockSlicer.visible, coapBlockSlicerInit, hMod, hEnd, window_block]

/- The calls put a block of their content into the buffer. -/
theorem blockOutput_eq
    (hSize : blksize ≤ 2 ^ 31) (hCursor : (content calls).length < 2 ^ 31)
    (hStart : k * blksize < 2 ^ 31) (hRoom : bufpos + blksize ≤ buf.length) :
    blockOutput (coapBlockSlicerInit slicer k blksize) buf bufpos
        calls = some (block blksize k (content calls)) := by
  have hReady := ready_init slicer k hSize hCursor (Nat.le_of_add_right_le hRoom)
  have hLen := length_block_le blksize k (content calls)
  obtain ⟨buf', hWrite, hLength⟩ :=
    length_writeBytes buf (block blksize k (content calls)) bufpos (by omega)
  have hRun := runCalls_eq_generate hReady
  simp only [BlockwiseState.generate, visible_init hSize hStart, hWrite, Option.map_some] at hRun
  rw [blockOutput, hRun, Option.bind_eq_bind, Option.bind_some]
  dsimp only
  rcases writeBytes_eq_some hWrite with ⟨hFits, hBuf⟩
  have hDrop : buf'.drop bufpos = block blksize k (content calls) ++
          buf.drop (bufpos + (block blksize k (content calls)).length) := by
    have hTake : (buf.take bufpos).length = bufpos := by
      rw [List.length_take]
      omega
    rw [hBuf, List.append_assoc]
    exact List.drop_left' hTake
  rw [Nat.add_sub_cancel_left]
  exact readBytes_of_drop hDrop (by omega)

/-
  Whatever calls make the content and wherever their strings
  are cut by the window: a call copies and returns what its
  bytes do one by one, for any block number, and the blocks of
  the content are what the runs for the block numbers from
  zero on put into the buffer.
-/
theorem coapBlockwise_lossless
    (calls : List BlockwiseCall) (blksize : Nat) (hPos : 0 < blksize)
    (hSize : blksize ≤ 2 ^ 31) (hCursor : (content calls).length < 2 ^ 31) :
    (∀ slicer blknum buf bufpos done call rest st, bufpos ≤ buf.length →
      calls = done ++ call :: rest →
      runCalls ⟨coapBlockSlicerInit slicer blknum blksize, buf, bufpos⟩ done = some st →
      call.run st = runCalls st (asChars call.bytes)) ∧ ∃ outputs : Nat → List UInt8,
      (∀ slicer k buf bufpos, k < blockCount blksize (content calls).length →
        bufpos + blksize ≤ buf.length →
        blockOutput (coapBlockSlicerInit slicer k blksize) buf bufpos calls = some (outputs k)) ∧
      (List.range (blockCount blksize (content calls).length)).flatMap outputs = content calls ∧
      ∀ k, k + 1 < blockCount blksize (content calls).length → (outputs k).length = blksize := by
  constructor
  · intro slicer blknum buf bufpos done call rest st hIn hSplit hDone
    have hContent :
        (content calls).length =
          (content done).length + (call.bytes.length + (content rest).length) := by
      rw [hSplit]
      simp [content]
    have hBefore :
        BlockwiseState.Ready
          ⟨coapBlockSlicerInit slicer blknum blksize, buf, bufpos⟩
          ((content done).length + (call.bytes.length + (content rest).length)) := by
      rw [← hContent]
      exact ready_init _ _ hSize hCursor hIn
    have hReadyDone :
        BlockwiseState.Ready
          ⟨coapBlockSlicerInit slicer blknum blksize, buf, bufpos⟩ (content done).length := by
      refine ⟨hBefore.slicer, ?_, hIn⟩
      have hCur := hBefore.cur_lt
      omega
    rw [runCalls_eq_generate hReadyDone] at hDone
    have hAfter := ready_generate hBefore hDone
    have hReady : st.Ready call.bytes.length := by
      refine ⟨hAfter.slicer, ?_, hAfter.bufpos_le⟩
      have hCur := hAfter.cur_lt
      omega
    rw [run_eq_generate hReady, runCalls_eq_generate, content_asChars]
    rw [content_asChars]
    exact hReady
  · refine ⟨fun k => block blksize k (content calls), ?_, ?_, ?_⟩
    · intro slicer k buf bufpos hk hRoom
      have hStart := mul_lt_of_lt_blockCount hPos hk
      exact blockOutput_eq hSize hCursor (by omega) hRoom
    · exact flatMap_block (le_blockCount_mul hPos)
    · intro k hk
      exact length_block (mul_le_of_lt_blockCount hPos hk)

/- Two strings and a comma in blocks of sixteen bytes. -/
theorem coapBlockwise_lossless_sample :
    (content [.putBytes (List.replicate 20 0x61), .putChar 0x2c,
      .putBytes [0x62]]).length < 2 ^ 31 ∧ ∃ outputs : Nat → List UInt8,
      (List.range 2).flatMap outputs =
        content [.putBytes (List.replicate 20 0x61), .putChar 0x2c, .putBytes [0x62]] ∧
      (outputs 0).length = 16 := by
  have hCursor :
      (content [.putBytes (List.replicate 20 0x61),
        .putChar 0x2c, .putBytes [0x62]]).length < 2 ^ 31 := by
    decide
  rcases (coapBlockwise_lossless _ 16 (by decide) (by decide)
      hCursor).2 with ⟨outputs, _, hAll, hFull⟩
  exact ⟨hCursor, outputs, hAll, hFull 0 (by decide)⟩

end Riot
