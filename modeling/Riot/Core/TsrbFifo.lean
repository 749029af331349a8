import Mathlib.Data.UInt
import Riot.Lib.Ring
import Riot.Lib.System

/-
  The thread-safe ring buffer of `tsrb.c`, with one thread that
  adds bytes and one that gets them.

  Each test, access to the buffer and increment of a counter is
  a step of its own. The counters wrap around, and each is
  written by one of the threads only.
-/

----
-- The Buffer
----

namespace Riot

structure Tsrb where
  buf : Nat → UInt8
  size : UInt32
  reads : UInt32
  writes : UInt32

namespace Tsrb

def empty
    (rb : Tsrb) : Bool :=
  rb.reads == rb.writes

def avail
    (rb : Tsrb) : UInt32 :=
  rb.writes - rb.reads

def full
    (rb : Tsrb) : Bool :=
  rb.writes - rb.reads == rb.size

/- The access of _push. -/
def store
    (rb : Tsrb) (c : UInt8) : Tsrb :=
  { rb with buf := Function.update rb.buf (rb.writes &&& (rb.size - 1)).toNat c }

/- The access of _pop. -/
def load
    (rb : Tsrb) : UInt8 :=
  rb.buf (rb.reads &&& (rb.size - 1)).toNat

end Tsrb

----
-- The Threads
----

/- What a thread does next. -/
inductive TsrbPc where
  | idle
  | test
  | access
  | increment
deriving DecidableEq

/-
  A call of tsrb_add, or of tsrb_add_one for a single byte, and
  how many bytes it has added.
-/
structure TsrbAdd where
  pc : TsrbPc
  one : Bool
  src : List UInt8
  moved : Nat

inductive TsrbGetKind where
  | getOne
  | get
  | drop
deriving DecidableEq

/- A call that takes up to `n` bytes, and those it has taken. -/
structure TsrbGet where
  pc : TsrbPc
  kind : TsrbGetKind
  n : Nat
  out : List UInt8
  byte : UInt8

/- A size_t as an int. -/
def sizeToInt
    (n : Nat) : Int :=
  if n < 2 ^ 31 then n else n - 2 ^ 32

def TsrbAdd.result
    (p : TsrbAdd) : Int :=
  if p.one then (if p.moved = 1 then 0 else -1) else sizeToInt p.moved

def TsrbGet.result
    (c : TsrbGet) : Int :=
  match c.kind with
  | .getOne =>
    match c.out with
    | [] => -1
    | byte :: _ => byte.toNat
  | _ => sizeToInt c.out.length

/-
  The buffer, both threads, and the history: the bytes that were
  added and taken, and for each call that has returned its bytes
  and its result.
-/
structure TsrbRun where
  rb : Tsrb
  adder : TsrbAdd
  getter : TsrbGet
  added : List UInt8
  taken : List UInt8
  adds : List (Bool × List UInt8 × Int)
  gets : List (TsrbGetKind × List UInt8 × Int)

inductive TsrbEvent where
  | add
      (one : Bool)
      (src : List UInt8)
  | get
      (kind : TsrbGetKind)
      (n : Nat)
  | adderStep
  | getterStep

namespace TsrbRun

def stepAdder
    (s : TsrbRun) : Option TsrbRun :=
  let p := s.adder
  match p.pc with
  | .idle => none
  | .test =>
    if p.moved < p.src.length ∧ s.rb.full = false then
      some { s with adder := { p with pc := .access } }
    else
      some
        { s with
          adder := { p with pc := .idle }
          adds := s.adds ++ [(p.one, p.src.take p.moved, p.result)] }
  | .access =>
    some
      { s with rb := s.rb.store (p.src.getD p.moved 0), adder := { p with pc := .increment } }
  | .increment =>
    some
      { s with
        rb := { s.rb with writes := s.rb.writes + 1 }
        adder := { p with pc := .test, moved := p.moved + 1 }
        added := s.added ++ [p.src.getD p.moved 0] }

def stepGetter
    (s : TsrbRun) : Option TsrbRun :=
  let c := s.getter
  match c.pc with
  | .idle => none
  | .test =>
    if c.out.length < c.n ∧ s.rb.empty = false then
      some { s with getter := { c with pc := .access } }
    else
      some
        { s with getter := { c with pc := .idle }, gets := s.gets ++ [(c.kind, c.out, c.result)] }
  | .access => some { s with getter := { c with pc := .increment, byte := s.rb.load } }
  | .increment =>
    some
      { s with
        rb := { s.rb with reads := s.rb.reads + 1 }
        getter := { c with pc := .test, out := c.out ++ [c.byte] }
        taken := s.taken ++ [c.byte] }

def exec
    (s : TsrbRun) : TsrbEvent → Option TsrbRun
| .add one src => some { s with adder := ⟨.test, one, src, 0⟩ }
| .get kind n => some { s with getter := ⟨.test, kind, n, [], 0⟩ }
| .adderStep => s.stepAdder
| .getterStep => s.stepGetter

end TsrbRun

/- A thread is in one call at a time, for at most SIZE_MAX bytes. -/
def TsrbEvent.Enabled
    (s : TsrbRun) : TsrbEvent → Prop
| .add one src => s.adder.pc = .idle ∧ (one = true → src.length = 1) ∧ src.length < 2 ^ 32
| .get kind n => s.getter.pc = .idle ∧ (kind = .getOne → n = 1) ∧ n < 2 ^ 32
| _ => True

/- A call is for at most INT_MAX bytes. -/
def TsrbEvent.FitsInt : TsrbEvent → Prop
| .add _ src => src.length < 2 ^ 31
| .get _ n => n < 2 ^ 31
| _ => True

/- Runs from a buffer after tsrb_init. -/
def tsrbSystem : System TsrbRun TsrbEvent where
  Start := fun s =>
    (∃ k < 31, s.rb.size.toNat = 2 ^ k) ∧ s.rb.reads = 0 ∧ s.rb.writes = 0 ∧
      s.adder.pc = .idle ∧ s.adder.moved = 0 ∧ s.getter.pc = .idle ∧ s.getter.out = [] ∧
      s.added = [] ∧ s.taken = [] ∧ s.adds = [] ∧ s.gets = []
  Enabled := TsrbEvent.Enabled
  exec := TsrbRun.exec

----
-- Counters
----

variable {a b k : Nat} {size : UInt32}

theorem ofNat_succ
    (a : Nat) :
    UInt32.ofNat a + 1 = UInt32.ofNat (a + 1) := by
  rw [UInt32.ofNat_add]
  rfl

theorem sizeToInt_of_lt
    (hLt : a < 2 ^ 31) :
    sizeToInt a = a :=
  if_pos hLt

/- The cell of a counter, whether it has wrapped or not. -/
theorem cell_eq
    (hk : k < 31) (hSize : size.toNat = 2 ^ k) :
    (UInt32.ofNat a &&& (size - 1)).toNat = a % size.toNat := by
  have hPos : 1 ≤ size.toNat := hSize ▸ Nat.one_le_two_pow
  have hMask : (size - 1).toNat = 2 ^ k - 1 := by
    have hLe : (1 : UInt32) ≤ size := UInt32.le_iff_toNat_le.mpr hPos
    rw [UInt32.toNat_sub_of_le _ _ hLe, hSize]
    rfl
  have hDvd : 2 ^ k ∣ 2 ^ 32 := Nat.pow_dvd_pow 2 (by omega)
  rw [UInt32.toNat_and, hMask, Nat.and_two_pow_sub_one_eq_mod,
    UInt32.toNat_ofNat', Nat.mod_mod_of_dvd _ hDvd, hSize]

----
-- Runs
----

/- The result of a call of tsrb_add or tsrb_add_one. -/
def AddRight : Bool × List UInt8 × Int → Prop
| (true, bytes, ret) => ret = 0 ∧ bytes.length = 1 ∨ ret = -1 ∧ bytes = []
| (false, bytes, ret) => ret = bytes.length

/- The result of a call that takes bytes. -/
def GetRight : TsrbGetKind × List UInt8 × Int → Prop
| (.getOne, bytes, ret) => ret = -1 ∧ bytes = [] ∨ ∃ b : UInt8, ret = b.toNat ∧ bytes = [b]
| (_, bytes, ret) => ret = bytes.length

namespace TsrbRun

/- The bytes of the calls that have not returned. -/
def adding
    (s : TsrbRun) : List UInt8 :=
  if s.adder.pc = .idle then [] else s.adder.src.take s.adder.moved

def getting
    (s : TsrbRun) : List UInt8 :=
  if s.getter.pc = .idle then [] else s.getter.out

/- The bytes in the buffer, from the next one to be taken on. -/
def contents
    (s : TsrbRun) : List UInt8 :=
  ringItems s.rb.size.toNat s.rb.buf s.taken.length s.rb.avail.toNat

/-
  What was added is what was taken, in this order, and then the
  contents of the buffer. The bytes of all calls are those that
  were added and taken, and each result is the number of bytes.
-/
structure Fifo
    (s : TsrbRun) : Prop where
  fifo : s.added = s.taken ++ s.contents
  level : s.rb.avail ≤ s.rb.size
  added : s.added = s.adds.flatMap (·.2.1) ++ s.adding
  taken : s.taken = s.gets.flatMap (·.2.1) ++ s.getting
  adds : ∀ r ∈ s.adds, AddRight r
  gets : ∀ r ∈ s.gets, GetRight r

/- What the position of the thread that adds says. -/
structure AdderSound
    (s : TsrbRun) : Prop where
  moved : s.adder.moved ≤ s.adder.src.length
  call :
    s.adder.pc ≠ .idle → (s.adder.one = true → s.adder.src.length = 1) ∧ s.adder.src.length < 2 ^ 31
  room :
    s.adder.pc = .access ∨ s.adder.pc = .increment →
      s.adder.moved < s.adder.src.length ∧ s.added.length < s.taken.length + s.rb.size.toNat
  stored :
    s.adder.pc = .increment →
      s.rb.buf (s.added.length % s.rb.size.toNat) = s.adder.src.getD s.adder.moved 0

structure GetterSound
    (s : TsrbRun) : Prop where
  out : s.getter.out.length ≤ s.getter.n
  call : s.getter.pc ≠ .idle → (s.getter.kind = .getOne → s.getter.n = 1) ∧ s.getter.n < 2 ^ 31
  some :
    s.getter.pc = .access ∨ s.getter.pc = .increment →
      s.getter.out.length < s.getter.n ∧ s.taken.length < s.added.length
  loaded : s.getter.pc = .increment → s.getter.byte = s.rb.buf (s.taken.length % s.rb.size.toNat)

/- The counters have no bound, and the buffer has them wrapped. -/
structure Sound
    (s : TsrbRun) : Prop where
  size : ∃ k < 31, s.rb.size.toNat = 2 ^ k
  reads : s.rb.reads = UInt32.ofNat s.taken.length
  writes : s.rb.writes = UInt32.ofNat s.added.length
  notLess : s.taken.length ≤ s.added.length
  notMore : s.added.length ≤ s.taken.length + s.rb.size.toNat
  fifo :
    s.added =
      s.taken ++ ringItems s.rb.size.toNat s.rb.buf s.taken.length (s.added.length - s.taken.length)
  adder : s.AdderSound
  getter : s.GetterSound
  added : s.added = s.adds.flatMap (·.2.1) ++ s.adding
  taken : s.taken = s.gets.flatMap (·.2.1) ++ s.getting
  adds : ∀ r ∈ s.adds, AddRight r
  gets : ∀ r ∈ s.gets, GetRight r

variable {s s' : TsrbRun}

theorem Sound.avail
    (h : s.Sound) :
    s.rb.avail.toNat = s.added.length - s.taken.length := by
  rcases h.size with ⟨k, hk, hSize⟩
  have hPow : 2 ^ k ≤ 2 ^ 31 := Nat.pow_le_pow_right (by decide) (by omega)
  have hMore := h.notMore
  have hLess := h.notLess
  rw [Tsrb.avail, h.reads, h.writes, UInt32.toNat_sub, UInt32.toNat_ofNat', UInt32.toNat_ofNat']
  omega

theorem Sound.full_iff
    (h : s.Sound) :
    s.rb.full = false ↔ s.added.length < s.taken.length + s.rb.size.toNat := by
  have hAvail := h.avail
  have hMore := h.notMore
  have hLess := h.notLess
  have hFull : s.rb.full = (s.rb.avail == s.rb.size) := rfl
  rw [hFull, beq_eq_false_iff_ne, ne_eq, ← UInt32.toNat_inj, hAvail]
  omega

theorem Sound.empty_iff
    (h : s.Sound) :
    s.rb.empty = false ↔ s.taken.length < s.added.length := by
  have hAvail := h.avail
  have hLess := h.notLess
  rw [Tsrb.empty, beq_eq_false_iff_ne]
  constructor
  · intro hNe
    by_contra hNot
    refine hNe ?_
    rw [h.reads, h.writes, Nat.le_antisymm h.notLess (Nat.not_lt.mp hNot)]
  · intro hLt hEq
    rw [Tsrb.avail, hEq, UInt32.sub_self] at hAvail
    change 0 = _ at hAvail
    omega

theorem Sound.fifo_of
    (h : s.Sound) :
    s.Fifo := by
  refine ⟨?_, ?_, h.added, h.taken, h.adds, h.gets⟩
  · rw [contents, h.avail]
    exact h.fifo
  · rw [UInt32.le_iff_toNat_le, h.avail]
    have hMore := h.notMore
    omega

end TsrbRun

----
-- Steps
----

namespace TsrbRun

variable {s s' : TsrbRun}

theorem AddRight.result
    (h : s.AdderSound) (hPc : s.adder.pc ≠ .idle) :
    AddRight (s.adder.one, s.adder.src.take s.adder.moved, s.adder.result) := by
  have hMoved := h.moved
  have hLen : (s.adder.src.take s.adder.moved).length = s.adder.moved := by
    rw [List.length_take, Nat.min_eq_left hMoved]
  rcases h.call hPc with ⟨hSingle, hFits⟩
  cases hOne : s.adder.one with
  | false =>
    rw [TsrbAdd.result, hOne, sizeToInt_of_lt (by omega)]
    exact congrArg Int.ofNat hLen.symm
  | true =>
    replace hSingle := hSingle hOne
    rw [TsrbAdd.result, hOne]
    by_cases hAll : s.adder.moved = 1
    · exact Or.inl ⟨by simp [hAll], hLen.trans hAll⟩
    · have hNone : s.adder.moved = 0 := by omega
      exact Or.inr ⟨by simp [hNone], by simp [hNone]⟩

theorem GetRight.result
    (h : s.GetterSound) (hPc : s.getter.pc ≠ .idle) :
    GetRight (s.getter.kind, s.getter.out, s.getter.result) := by
  have hOut := h.out
  rcases h.call hPc with ⟨hOne, hFits⟩
  unfold TsrbGet.result
  cases hKind : s.getter.kind with
  | get => exact sizeToInt_of_lt (by omega)
  | drop => exact sizeToInt_of_lt (by omega)
  | getOne =>
    rw [hOne hKind] at hOut
    cases hBytes : s.getter.out with
    | nil => exact Or.inl ⟨rfl, rfl⟩
    | cons b rest =>
      rw [hBytes, List.length_cons] at hOut
      have hRest : rest = [] := List.length_eq_zero_iff.mp (by omega)
      exact Or.inr ⟨b, rfl, by rw [hRest]⟩

theorem Sound.stepAdder
    (h : s.Sound) (hExec : s.stepAdder = some s') :
    s'.Sound := by
  rcases h.size with ⟨k, hk, hSize⟩
  have hLess := h.notLess
  have hAdder := h.adder
  have hAdded := h.added
  unfold TsrbRun.stepAdder at hExec
  unfold adding at hAdded
  cases hPc : s.adder.pc with
  | idle => simp [hPc] at hExec
  | test =>
    simp only [hPc] at hExec
    rw [if_neg (by simp [hPc])] at hAdded
    by_cases hGo : s.adder.moved < s.adder.src.length ∧ s.rb.full = false
    · rw [if_pos hGo] at hExec
      cases hExec
      exact { h with
          adder := ⟨hAdder.moved, fun _ => hAdder.call (by simp [hPc]),
            fun _ => ⟨hGo.1, h.full_iff.mp hGo.2⟩, by simp⟩
          getter := { h.getter with }
          added := hAdded }
    · rw [if_neg hGo] at hExec
      cases hExec
      refine { h with
          adder := ⟨hAdder.moved, by simp, by simp, by simp⟩
          getter := { h.getter with }
          added := ?_
          adds := ?_ }
      · simpa [adding] using hAdded
      · intro r hr
        rcases List.mem_append.mp hr with hOld | hNew
        · exact h.adds r hOld
        · rw [List.mem_singleton.mp hNew]
          exact AddRight.result hAdder (by simp [hPc])
  | access =>
    simp only [hPc] at hExec
    rw [if_neg (by simp [hPc])] at hAdded
    rcases hAdder.room (Or.inl hPc) with ⟨hMoved, hRoom⟩
    have hCell : (s.rb.writes &&& (s.rb.size - 1)).toNat =
          (s.taken.length + (s.added.length - s.taken.length)) % s.rb.size.toNat := by
      rw [h.writes, cell_eq hk hSize, Nat.add_sub_cancel' hLess]
    cases hExec
    refine { h with
        fifo := ?_
        adder := ⟨hAdder.moved, fun _ => hAdder.call (by simp [hPc]),
          fun _ => ⟨hMoved, hRoom⟩, fun _ => ?_⟩
        getter := { h.getter with loaded := fun hLoad => ?_ }
        added := hAdded }
    · dsimp only [Tsrb.store]
      rw [hCell, ringItems_update (by omega)]
      exact h.fifo
    · dsimp only [Tsrb.store]
      rw [hCell, Nat.add_sub_cancel' hLess, Function.update_self]
    · have hSome := (h.getter.some (Or.inr hLoad)).2
      have hNe : s.taken.length % s.rb.size.toNat ≠ _ :=
        @ring_cell_ne s.rb.size.toNat s.taken.length 0
          (s.added.length - s.taken.length) (by omega) (by omega) (by omega)
      dsimp only [Tsrb.store]
      rw [hCell, Function.update_of_ne hNe]
      exact h.getter.loaded hLoad
  | increment =>
    simp only [hPc] at hExec
    rw [if_neg (by simp [hPc])] at hAdded
    rcases hAdder.room (Or.inr hPc) with ⟨hMoved, hRoom⟩
    have hStored := hAdder.stored hPc
    cases hExec
    refine { h with
        writes := ?_
        notLess := ?_
        notMore := ?_
        fifo := ?_
        adder := ⟨hMoved, fun _ => hAdder.call (by simp [hPc]), by simp, by simp⟩
        getter := { h.getter with some := fun hPc' => ?_ }
        added := ?_ }
    · rw [List.length_append, h.writes, ofNat_succ]
      rfl
    · simp only [List.length_append, List.length_singleton]
      omega
    · rw [List.length_append]
      exact hRoom
    · rw [List.length_append, List.length_singleton, Nat.sub_add_comm hLess, ringItems_add,
        ← List.append_assoc, ← h.fifo, ringItems_pop, Nat.add_sub_cancel' hLess, hStored]
      rfl
    · have hSome := h.getter.some hPc'
      simp only [List.length_append, List.length_singleton]
      exact ⟨hSome.1, by omega⟩
    · have hTake : s.adder.src.take (s.adder.moved + 1) =
            s.adder.src.take s.adder.moved ++ [s.adder.src.getD s.adder.moved 0] := by
        rw [List.take_add_one, List.getD_eq_getElem?_getD, List.getElem?_eq_getElem hMoved]
        rfl
      simp only [adding, reduceCtorEq, if_false]
      rw [hTake, ← List.append_assoc, ← hAdded]

theorem Sound.stepGetter
    (h : s.Sound) (hExec : s.stepGetter = some s') :
    s'.Sound := by
  rcases h.size with ⟨k, hk, hSize⟩
  have hGetter := h.getter
  have hTaken := h.taken
  unfold TsrbRun.stepGetter at hExec
  unfold getting at hTaken
  cases hPc : s.getter.pc with
  | idle => simp [hPc] at hExec
  | test =>
    simp only [hPc] at hExec
    rw [if_neg (by simp [hPc])] at hTaken
    by_cases hGo : s.getter.out.length < s.getter.n ∧ s.rb.empty = false
    · rw [if_pos hGo] at hExec
      cases hExec
      exact { h with
          adder := { h.adder with }
          getter := ⟨hGetter.out, fun _ => hGetter.call (by simp [hPc]),
            fun _ => ⟨hGo.1, h.empty_iff.mp hGo.2⟩, by simp⟩
          taken := hTaken }
    · rw [if_neg hGo] at hExec
      cases hExec
      refine { h with
          adder := { h.adder with }
          getter := ⟨hGetter.out, by simp, by simp, by simp⟩
          taken := ?_
          gets := ?_ }
      · simpa [getting] using hTaken
      · intro r hr
        rcases List.mem_append.mp hr with hOld | hNew
        · exact h.gets r hOld
        · rw [List.mem_singleton.mp hNew]
          exact GetRight.result hGetter (by simp [hPc])
  | access =>
    simp only [hPc] at hExec
    rw [if_neg (by simp [hPc])] at hTaken
    cases hExec
    refine { h with
        adder := { h.adder with }
        getter := ⟨hGetter.out, fun _ => hGetter.call (by simp [hPc]),
          fun _ => hGetter.some (Or.inl hPc), fun _ => ?_⟩
        taken := hTaken }
    dsimp only [Tsrb.load]
    rw [h.reads, cell_eq hk hSize]
  | increment =>
    simp only [hPc] at hExec
    rw [if_neg (by simp [hPc])] at hTaken
    rcases hGetter.some (Or.inr hPc) with ⟨hRoom, hSome⟩
    have hLoaded := hGetter.loaded hPc
    have hMore := h.notMore
    cases hExec
    refine { h with
        reads := ?_
        notLess := ?_
        notMore := ?_
        fifo := ?_
        adder := { h.adder with room := fun hPc' => ?_ }
        getter := ⟨?_, fun _ => hGetter.call (by simp [hPc]), by simp, by simp⟩
        taken := ?_ }
    · rw [List.length_append, h.reads, ofNat_succ]
      rfl
    · rw [List.length_append]
      exact hSome
    · simp only [List.length_append, List.length_singleton]
      omega
    · have hLen : s.added.length - s.taken.length = s.added.length - (s.taken.length + 1) + 1 := by
        omega
      have hFifo := h.fifo
      rw [hLen, ringItems_pop, ← hLoaded] at hFifo
      rw [List.append_assoc, List.length_append]
      exact hFifo
    · have hRoom' := h.adder.room hPc'
      simp only [List.length_append, List.length_singleton]
      exact ⟨hRoom'.1, by omega⟩
    · rw [List.length_append]
      exact hRoom
    · simp only [getting, reduceCtorEq, if_false]
      rw [← List.append_assoc, ← hTaken]

theorem Sound.exec
    {e : TsrbEvent} (h : s.Sound) (hFits : e.FitsInt) (hEnabled : e.Enabled s)
    (hExec : s.exec e = some s') :
    s'.Sound := by
  cases e with
  | add one src =>
    cases hExec
    refine { h with
        adder := ⟨Nat.zero_le _, fun _ => ⟨hEnabled.2.1, hFits⟩, by simp, by simp⟩
        getter := { h.getter with }
        added := ?_ }
    have hAdded := h.added
    rw [adding, if_pos hEnabled.1] at hAdded
    exact hAdded
  | get kind n =>
    cases hExec
    refine { h with
        adder := { h.adder with }
        getter := ⟨Nat.zero_le _, fun _ => ⟨hEnabled.2.1, hFits⟩, by simp, by simp⟩
        taken := ?_ }
    have hTaken := h.taken
    rw [getting, if_pos hEnabled.1] at hTaken
    exact hTaken
  | adderStep => exact h.stepAdder hExec
  | getterStep => exact h.stepGetter hExec

theorem Sound.start
    (hStart : tsrbSystem.Start s) :
    s.Sound := by
  rcases hStart with
    ⟨hSize, hReads, hWrites, hAdd, hMoved, hGet, hOut, hAdded, hTaken, hAdds, hGets⟩
  refine ⟨hSize, ?_, ?_, ?_, ?_, ?_, ⟨?_, ?_, ?_, ?_⟩, ⟨?_, ?_, ?_, ?_⟩, ?_, ?_, ?_, ?_⟩ <;>
    simp [hReads, hWrites, hAdd, hMoved, hGet, hOut, hAdded, hTaken, hAdds, hGets, adding, getting,
      ringItems]

end TsrbRun

----
-- The Ring Buffer is a Queue
----

/- Whatever the order of the steps, and however many there are. -/
theorem tsrb_fifo
    {s : TsrbRun} (hReach : tsrbSystem.ReachableVia (fun _ e => e.FitsInt) s) :
    s.Fifo :=
  (hReach.invariant (I := TsrbRun.Sound) (fun _ hStart => TsrbRun.Sound.start hStart)
    (fun _ _ _ h hFits hEnabled hExec => h.exec hFits hEnabled hExec)).fifo_of

instance
    (s : TsrbRun) (e : TsrbEvent) :
    Decidable (e.Enabled s) := by
  cases e <;> unfold TsrbEvent.Enabled <;> infer_instance

instance
    (e : TsrbEvent) :
    Decidable e.FitsInt := by
  cases e <;> unfold TsrbEvent.FitsInt <;> infer_instance

instance
    (s : TsrbRun) (e : TsrbEvent) :
    Decidable (tsrbSystem.Enabled s e) :=
  inferInstanceAs (Decidable (e.Enabled s))

/- A byte is taken while the next one is stored. -/
theorem tsrb_fifo_two :
    ∃ s : TsrbRun, s.added = [5, 6] ∧ s.taken = [5] ∧ s.Fifo := by
  let init : TsrbRun :=
    ⟨⟨fun _ => 0, 2, 0, 0⟩, ⟨.idle, false, [], 0⟩, ⟨.idle, .get, 0, [], 0⟩, [], [], [], []⟩
  have hStart : tsrbSystem.Start init :=
    ⟨⟨1, by decide, rfl⟩, rfl, rfl, rfl, rfl, rfl, rfl, rfl, rfl, rfl, rfl⟩
  have hRun :
      (tsrbSystem.runVia (fun _ e => e.FitsInt) init
          [.add false [5, 6], .adderStep, .adderStep, .adderStep, .get .get 1, .getterStep,
            .adderStep, .getterStep, .adderStep, .getterStep, .adderStep]).any
        (fun s => decide (s.added = [5, 6] ∧ s.taken = [5])) = true := by
    decide +kernel
  rcases System.exists_reachableVia_of_runVia hStart hRun with ⟨s, _, hReach, hAdded, hTaken⟩
  exact ⟨s, hAdded, hTaken, tsrb_fifo hReach⟩

/-
  A buffer of one byte in which `k` bytes have been added and
  dropped, by calls for `n` bytes.
-/
def dropping
    (n k : Nat) : TsrbRun :=
  { rb := ⟨fun _ => 0, 1, UInt32.ofNat k, UInt32.ofNat k⟩
    adder := ⟨.test, false, List.replicate n 0, k⟩
    getter := ⟨.test, .drop, n, List.replicate k 0, 0⟩
    added := List.replicate k 0
    taken := List.replicate k 0
    adds := []
    gets := [] }

theorem dropping_succ
    {n k : Nat} (hLt : k < n) :
    tsrbSystem.runVia (fun _ _ => True) (dropping n k)
        [.adderStep, .adderStep, .adderStep, .getterStep, .getterStep, .getterStep] =
      some (dropping n (k + 1)) := by
  simp [System.runVia, tsrbSystem, TsrbEvent.Enabled, TsrbRun.exec, TsrbRun.stepAdder,
    TsrbRun.stepGetter, dropping, Tsrb.full, Tsrb.empty, Tsrb.store, Tsrb.load, hLt,
    List.replicate_succ']

theorem dropping_reachable
    {n k : Nat} (hSize : n < 2 ^ 32) (hLe : k ≤ n) :
    tsrbSystem.Reachable (dropping n k) := by
  induction k with
  | zero =>
    let init : TsrbRun :=
      { dropping n 0 with adder := ⟨.idle, false, [], 0⟩, getter := ⟨.idle, .drop, 0, [], 0⟩ }
    have hStart : tsrbSystem.Start init :=
      ⟨⟨0, by decide, rfl⟩, rfl, rfl, rfl, rfl, rfl, rfl, rfl, rfl, rfl, rfl⟩
    have hRun : tsrbSystem.runVia (fun _ _ => True) init
            [.add false (List.replicate n 0), .get .drop n] = some (dropping n 0) := by
      simpa [System.runVia, tsrbSystem, TsrbEvent.Enabled, TsrbRun.exec, dropping, init] using hSize
    exact System.reachableVia_of_runVia (.start hStart) hRun
  | succ k ih =>
    exact System.reachableVia_of_runVia (ih (Nat.le_of_succ_le hLe)) (dropping_succ hLe)

/- More than INT_MAX bytes are dropped in one call, and the number returned is negative. -/
theorem not_tsrb_fifo :
    ¬∀ s : TsrbRun, tsrbSystem.Reachable s → s.Fifo := by
  intro hAll
  have hReach : ∀ n, n < 2 ^ 32 → tsrbSystem.Reachable (dropping n n) :=
    fun n hSize => dropping_reachable hSize le_rfl
  have hReturn : ∀ n, (dropping n n).stepGetter =
        some
          { dropping n n with
            getter := ⟨.idle, .drop, n, List.replicate n 0, 0⟩
            gets := [(.drop, List.replicate n 0, sizeToInt n)] } := by
    intro n
    simp [dropping, TsrbRun.stepGetter, TsrbGet.result]
  have hRight : ∀ n, n < 2 ^ 32 → sizeToInt n = n := by
    intro n hSize
    have hFifo := hAll _ (.step (e := .getterStep) (hReach n hSize) trivial trivial (hReturn n))
    exact (hFifo.gets _ (List.mem_singleton.mpr rfl)).trans (by rw [List.length_replicate])
  exact absurd (hRight (2 ^ 31) (by decide)) (by decide)

end Riot
