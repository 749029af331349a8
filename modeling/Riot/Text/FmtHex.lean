import Riot.Sys.Fmt

/-
  Hexadecimal text can be read back, when a function writes
  nothing to NULL, and which strings are scanned correctly.
-/

----
-- Texts
----

namespace Riot

/- The text of bytes, with a character for each nibble. -/
def hexText
    (char : UInt8 → UInt8) : List UInt8 → List UInt8
| [] => []
| b :: bs => char (b >>> 4) :: char (b &&& 0x0f) :: hexText char bs

/- A character in lower case. -/
def lowerChar
    (c : UInt8) : UInt8 :=
  if fmtIsUpper c then toLower c else c

/- The characters that stand for their nibbles. -/
def Decodes
    (char : UInt8 → UInt8) : Prop :=
  ∀ n < 16, char (UInt8.ofNat n) ≠ 0 ∧ hexNib (char (UInt8.ofNat n)) = UInt8.ofNat n

theorem decodes_hexChar :
    Decodes hexChar := by
  unfold Decodes
  decide

theorem decodes_lowerChar :
    Decodes (fun n => lowerChar (hexChar n)) := by
  unfold Decodes
  decide

variable {char : UInt8 → UInt8} {bytes : List UInt8} {m : ByteMem} {out : Nat}

@[simp]
theorem length_hexText :
    (hexText char bytes).length = 2 * bytes.length := by
  induction bytes with
  | nil => rfl
  | cons b bs ih =>
    rw [hexText, List.length_cons, List.length_cons, ih, List.length_cons, Nat.mul_succ]

/- The nibbles of a byte. -/
theorem exists_nibble
    (b : UInt8) :
    (∃ n < 16, b >>> 4 = UInt8.ofNat n) ∧ ∃ n < 16, b &&& 0x0f = UInt8.ofNat n := by
  constructor
  · refine ⟨(b >>> 4).toNat, ?_, UInt8.ofNat_toNat.symm⟩
    have hLt := b.toNat_lt
    rw [UInt8.toNat_shiftRight, Nat.shiftRight_eq_div_pow]
    change b.toNat / 2 ^ 4 < 16
    omega
  · refine ⟨(b &&& 0x0f).toNat, ?_, UInt8.ofNat_toNat.symm⟩
    rw [UInt8.toNat_and]
    exact Nat.and_lt_two_pow b.toNat (n := 4) (by decide)

theorem nibbles_or
    (b : UInt8) :
    (b >>> 4) <<< 4 ||| (b &&& 0x0f) = b := by
  have hLt := b.toNat_lt
  have hHigh : ((b >>> 4) <<< 4).toNat = (b.toNat / 16) <<< 4 := by
    rw [UInt8.toNat_shiftLeft, UInt8.toNat_shiftRight, Nat.shiftRight_eq_div_pow, Nat.shiftLeft_eq,
      Nat.shiftLeft_eq]
    change b.toNat / 2 ^ 4 * 2 ^ 4 % 2 ^ 8 = _
    omega
  have hLow : (b &&& 0x0f).toNat = b.toNat % 16 := by
    rw [UInt8.toNat_and]
    exact Nat.and_two_pow_sub_one_eq_mod b.toNat 4
  rw [← UInt8.toNat_inj, UInt8.toNat_or, hHigh, hLow,
    ← Nat.shiftLeft_add_eq_or_of_lt (show b.toNat % 16 < 2 ^ 4 by omega), Nat.shiftLeft_eq]
  omega

theorem fmtHexByte_nibbles
    (hChar : Decodes char) (b : UInt8) :
    fmtHexByte (char (b >>> 4)) (char (b &&& 0x0f)) = b := by
  rcases exists_nibble b with ⟨⟨h, hh, hHigh⟩, ⟨l, hl, hLow⟩⟩
  rw [fmtHexByte, hHigh, hLow, (hChar h hh).2, (hChar l hl).2, ← hHigh, ← hLow]
  exact nibbles_or b

theorem zero_notMem_hexText
    (hChar : Decodes char) :
    0 ∉ hexText char bytes := by
  induction bytes with
  | nil => exact List.not_mem_nil
  | cons b bs ih =>
    rcases exists_nibble b with ⟨⟨h, hh, hHigh⟩, ⟨l, hl, hLow⟩⟩
    rw [hexText, hHigh, hLow, List.mem_cons, List.mem_cons, not_or, not_or]
    exact ⟨(hChar h hh).1.symm, (hChar l hl).1.symm, ih⟩

theorem map_lowerChar_hexText :
    (hexText hexChar bytes).map lowerChar = hexText (fun n => lowerChar (hexChar n)) bytes := by
  induction bytes with
  | nil => rfl
  | cons b bs ih => rw [hexText, List.map_cons, List.map_cons, ih, hexText]

----
-- Writing and Reading
----

/- The string that ends at the first NUL. -/
theorem fmtStrlen_append_zero
    {s : List UInt8} (hZero : 0 ∉ s) :
    fmtStrlen (s ++ [0]) = some s.length := by
  induction s with
  | nil => rfl
  | cons c cs ih =>
    rw [List.mem_cons, not_or] at hZero
    rw [List.cons_append, fmtStrlen, if_neg (Ne.symm hZero.1), ih hZero.2]
    rfl

theorem bytesHexLoop_spec
    (hOut : out ≠ 0) :
    bytesHexLoop m out bytes = m.write out (hexText hexChar bytes) := by
  induction bytes generalizing m out with
  | nil => exact ByteMem.write_nil.symm
  | cons b bs ih =>
    have hPair := ByteMem.write_write m out [hexChar (b >>> 4)] [hexChar (b &&& 0x0f)]
    rw [List.length_singleton] at hPair
    rw [bytesHexLoop, fmtByteHex, if_pos hOut]
    dsimp only
    rw [ih (by omega), hPair]
    exact ByteMem.write_write m out [_, _] _

/- The bytes from the index `j` on are read. -/
theorem hexBytesLoop_spec
    (hChar : Decodes char) {front back : List UInt8} {j : Nat}
    (hFront : front.length = 2 * j) :
    hexBytesLoop (front ++ (hexText char bytes ++ back)) out m j
        bytes.length = m.write (out + j) bytes := by
  induction bytes generalizing m front j with
  | nil => exact ByteMem.write_nil.symm
  | cons b bs ih =>
    have hHigh : (front ++ (hexText char (b :: bs) ++ back)).getD (2 * j) 0 = char (b >>> 4) := by
      rw [← hFront, List.getD_append_right _ _ _ _ (le_refl _), Nat.sub_self]
      rfl
    have hLow :
        (front ++ (hexText char (b :: bs) ++ back)).getD (2 * j + 1) 0 = char (b &&& 0x0f) := by
      rw [← hFront, List.getD_append_right _ _ _ _ (Nat.le_succ _), Nat.succ_sub (le_refl _),
        Nat.sub_self]
      rfl
    have hNext : front ++ (hexText char (b :: bs) ++ back) =
          (front ++ [char (b >>> 4), char (b &&& 0x0f)]) ++ (hexText char bs ++ back) := by
      rw [List.append_assoc]
      rfl
    have hJoin := ByteMem.write_write m (out + j) [b] bs
    rw [List.length_cons, hexBytesLoop, hHigh, hLow, fmtHexByte_nibbles hChar, hNext, ih]
    · exact hJoin
    · rw [List.length_append, hFront]
      rfl

theorem fmtHexBytes_hexText
    (hChar : Decodes char) (hOut : out ≠ 0) :
    fmtHexBytes m out (hexText char bytes ++ [0]) = some (m.write out bytes, bytes.length) := by
  have hLen : 2 * bytes.length % 2 = 0 := Nat.mul_mod_right 2 _
  have hHalf : (2 * bytes.length) >>> 1 = bytes.length := by
    rw [Nat.shiftRight_one]
    exact Nat.mul_div_cancel_left _ two_pos
  have hLoop := @hexBytesLoop_spec _ bytes m out hChar [] [0] 0 rfl
  rw [List.nil_append] at hLoop
  rw [fmtHexBytes, fmtStrlen_append_zero (zero_notMem_hexText hChar), length_hexText,
    Option.bind_eq_bind, Option.bind_some, Nat.and_one_is_mod, hLen, if_neg (by decide)]
  dsimp only
  rw [if_neg hOut, hHalf, hLoop]
  rfl

theorem toLowerLoop_spec
    {s : List UInt8} {len : Nat} (hZero : 0 ∉ s) (hOut : out ≠ 0) :
    toLowerLoop m out (s ++ [0]) len = some (m.write out (s.map lowerChar), len + s.length) := by
  induction s generalizing m out len with
  | nil =>
    rw [List.map_nil, ByteMem.write_nil]
    rfl
  | cons c cs ih =>
    rw [List.mem_cons, not_or] at hZero
    have hJoin := ByteMem.write_write m out [lowerChar c] (cs.map lowerChar)
    rw [List.cons_append, toLowerLoop, if_neg (Ne.symm hZero.1), if_pos hOut]
    dsimp only
    rw [← lowerChar, ih hZero.2 (by omega), List.length_cons, Nat.add_assoc, Nat.add_comm 1]
    exact congrArg (fun m => some (m, _)) hJoin

----
-- Null Pointers
----

/- Called with NULL, only the count is returned. -/
def NullSafe
    (f : ByteMem → Nat → ByteMem × Nat) : Prop :=
  ∀ m, (f m 0).1 = m ∧ ∀ out, (f m out).2 = (f m 0).2

/- The text is read back, also after it was put in lower case. -/
def HexReadsBack
    (bytes : List UInt8) : Prop :=
  ∀ m m₁ m₂ out out₁ out₂, out ≠ 0 → out₁ ≠ 0 → out₂ ≠ 0 → ∃ text lower m₃,
        (fmtBytesHex m out bytes).1.read out (2 * bytes.length) = text ∧
        fmtHexBytes m₂ out₂ (text ++ [0]) = some (m₂.write out₂ bytes, bytes.length) ∧
        fmtToLower m₁ out₁ (text ++ [0]) = some (m₃, 2 * bytes.length) ∧
        m₃.read out₁ (2 * bytes.length) = lower ∧
        fmtHexBytes m₂ out₂ (lower ++ [0]) = some (m₂.write out₂ bytes, bytes.length)

/- All that is said about the text of a byte array. -/
def HexContract
    (bytes : List UInt8) : Prop :=
  NullSafe (fun m out => fmtBytesHex m out bytes) ∧
    NullSafe (fun m out => fmtBytesHexReverse m out bytes) ∧ HexReadsBack bytes

theorem hexReadsBack :
    HexReadsBack bytes := by
  intro m m₁ m₂ out out₁ out₂ hOut hOut₁ hOut₂
  have hText : (fmtBytesHex m out bytes).1.read out (2 * bytes.length) = hexText hexChar bytes := by
    rw [fmtBytesHex, if_pos hOut]
    dsimp only
    rw [bytesHexLoop_spec hOut, ← length_hexText, ByteMem.read_write_self]
  have hLower : fmtToLower m₁ out₁ (hexText hexChar bytes ++ [0]) = some
          (m₁.write out₁ (hexText (fun n => lowerChar (hexChar n)) bytes), 2 * bytes.length) := by
    rw [fmtToLower, toLowerLoop_spec (zero_notMem_hexText decodes_hexChar) hOut₁,
      map_lowerChar_hexText, Nat.zero_add, length_hexText]
  refine ⟨_, _, _, hText, fmtHexBytes_hexText decodes_hexChar hOut₂, hLower, ?_,
    fmtHexBytes_hexText decodes_lowerChar hOut₂⟩
  rw [← length_hexText , ByteMem.read_write_self]

theorem nullSafe_fmtBytesHex :
    NullSafe (fun m out => fmtBytesHex m out bytes) := by
  intro m
  refine ⟨rfl, fun out => ?_⟩
  dsimp only
  rw [fmtBytesHex]
  split <;> rfl

/- Bytes before those that are written stay. -/
theorem bytesHexReverseLoop_byte
    {m : ByteMem} {out i a : Nat} (ha : a < out) :
    (bytesHexReverseLoop bytes m out i).byte a = m.byte a := by
  induction i generalizing m out with
  | zero => rfl
  | succ i ih =>
    rw [bytesHexReverseLoop, fmtByteHex, if_pos (by omega)]
    dsimp only
    rw [ih (by omega)]
    simp only [ByteMem.write]
    rw [if_neg (by omega), if_neg (by omega)]

theorem hexChar_nibble_ne_zero
    (b : UInt8) :
    hexChar (b >>> 4) ≠ 0 := by
  rcases exists_nibble b with ⟨⟨h, hh, hHigh⟩, _⟩
  rw [hHigh]
  exact (decodes_hexChar h hh).1

/- The second byte is written behind NULL. -/
theorem nullSafe_fmtBytesHexReverse_iff :
    NullSafe (fun m out => fmtBytesHexReverse m out bytes) ↔ bytes.length ≤ 1 := by
  constructor
  · intro hNull
    by_contra hLong
    rcases Nat.exists_eq_add_of_le' (not_le.mp hLong) with ⟨n, hn⟩
    have hSame : (fmtBytesHexReverse ⟨fun _ => 0⟩ 0 bytes).1 = ⟨fun _ => 0⟩ :=
      (hNull ⟨fun _ => 0⟩).1
    have hByte :
        (fmtBytesHexReverse ⟨fun _ => 0⟩ 0 bytes).1.byte 2 = hexChar (bytes.getD n 0 >>> 4) := by
      rw [fmtBytesHexReverse, hn]
      change (bytesHexReverseLoop bytes _ 4 n).byte 2 = _
      rw [bytesHexReverseLoop_byte (by decide)]
      rfl
    rw [hSame] at hByte
    exact hexChar_nibble_ne_zero _ hByte.symm
  · intro hShort m
    refine ⟨?_, fun out => rfl⟩
    rcases Nat.le_one_iff_eq_zero_or_eq_one.mp hShort with hLen | hLen
    · simp only [fmtBytesHexReverse, hLen, bytesHexReverseLoop]
    · simp only [fmtBytesHexReverse, hLen, bytesHexReverseLoop,
        fmtByteHex, ne_eq, not_true_eq_false, if_false]

/-
  The contract holds of arrays of at most one byte: from the
  second byte on, the pointer that was NULL is no longer.
-/
theorem hexContract_iff :
    HexContract bytes ↔ bytes.length ≤ 1 := by
  constructor
  · intro hContract
    exact nullSafe_fmtBytesHexReverse_iff.mp hContract.2.1
  · intro hShort
    exact ⟨nullSafe_fmtBytesHex, nullSafe_fmtBytesHexReverse_iff.mpr hShort, hexReadsBack⟩

/- The bytes of the number 0x1234, without a buffer. -/
theorem fmtU16Hex_null :
    (fmtU16Hex ⟨fun _ => 0⟩ 0 0x1234).1.byte 2 = 0x33 ∧ ¬ HexContract (littleEndian 2 0x1234) := by
  refine ⟨by decide, fun hContract => ?_⟩
  have hSame :
      (fmtBytesHexReverse ⟨fun _ => 0⟩ 0 (littleEndian 2 0x1234)).1 = ⟨fun _ => 0⟩ :=
    (hContract.2.1 ⟨fun _ => 0⟩).1
  have hByte := congrArg (fun m => ByteMem.byte m 2) hSame
  exact absurd hByte (by decide)

----
-- Scanning
----

/- A hexadecimal digit, in either case. -/
def IsHexDigit
    (c : UInt8) : Prop :=
  fmtIsDigit c ∨ (0x41 ≤ c ∧ c ≤ 0x46) ∨ (0x61 ≤ c ∧ c ≤ 0x66)

instance
    (c : UInt8) :
    Decidable (IsHexDigit c) :=
  inferInstanceAs (Decidable (_ ∨ _))

def hexDigitValue
    (c : UInt8) : Nat :=
  if fmtIsDigit c then c.toNat - 0x30
  else (lowerChar c).toNat - 0x61 + 10

/- The number that digits stand for, behind those of `v`. -/
def hexValue
    (v : Nat) (s : List UInt8) : Nat :=
  s.foldl (fun v c => 16 * v + hexDigitValue c) v

/- The hexadecimal digits that a string begins with. -/
def hexPrefix
    (s : List UInt8) : List UInt8 :=
  s.takeWhile (IsHexDigit ·)

/- The values that the loop takes before it is left. -/
def hexTaken
    (signed : Bool) : List UInt8 → List UInt32
| [] => []
| c :: s =>
  match scnHexNib signed c with
  | none => []
  | some nib => nib :: hexTaken signed s

/- The scan of a string, for every number of characters. -/
def HexScanned
    (signed : Bool) (s : List UInt8) : Prop :=
  ∀ n, scnU32Hex signed (s ++ [0]) n = some (UInt32.ofNat (hexValue 0 (hexPrefix (s.take n))))

variable {signed : Bool} {c : UInt8} {res : UInt32} {s : List UInt8} {v : Nat}

theorem scnHexNib_digit
    (hHex : IsHexDigit c) :
    hexDigitValue c < 16 ∧ scnHexNib signed c = some (UInt32.ofNat (hexDigitValue c)) := by
  have hAll :
      ∀ signed, ∀ b < 256, IsHexDigit (UInt8.ofNat b) → hexDigitValue (UInt8.ofNat b) < 16 ∧
          scnHexNib signed (UInt8.ofNat b) =
            some (UInt32.ofNat (hexDigitValue (UInt8.ofNat b))) := by
    decide +kernel
  have hDigit := hAll signed c.toNat c.toNat_lt
  rw [UInt8.ofNat_toNat] at hDigit
  exact hDigit hHex

theorem shiftLeft_or_digit
    (hHex : IsHexDigit c) :
    UInt32.ofNat v <<< 4 ||| UInt32.ofNat (hexDigitValue c) =
      UInt32.ofNat (16 * v + hexDigitValue c) := by
  have hLt := (@scnHexNib_digit true c hHex).1
  have hShift : (UInt32.ofNat v <<< 4).toNat = (v % 2 ^ 28) <<< 4 := by
    rw [UInt32.toNat_shiftLeft, UInt32.toNat_ofNat', Nat.shiftLeft_eq, Nat.shiftLeft_eq]
    change v % 2 ^ 32 * 2 ^ 4 % 2 ^ 32 = _
    omega
  rw [← UInt32.toNat_inj, UInt32.toNat_or, hShift, UInt32.toNat_ofNat', UInt32.toNat_ofNat',
    Nat.mod_eq_of_lt (show hexDigitValue c < 2 ^ 32 by omega),
    ← Nat.shiftLeft_add_eq_or_of_lt (show hexDigitValue c < 2 ^ 4 from hLt), Nat.shiftLeft_eq]
  omega

/- The result stays if each value that is taken keeps it. -/
theorem scnHexLoop_stays_iff :
    (∀ n, scnHexLoop signed res (s ++ [0]) n = some res) ↔
      ∀ nib ∈ hexTaken signed s, res <<< 4 ||| nib = res := by
  have hNul : scnHexNib signed 0 = none := by
    cases signed <;> rfl
  induction s with
  | nil =>
    refine ⟨fun _ nib hIn => absurd hIn List.not_mem_nil, ?_⟩
    intro _ n
    cases n with
    | zero => rfl
    | succ n => rw [List.nil_append, scnHexLoop, hNul]
  | cons c s ih =>
    cases hNib : scnHexNib signed c with
    | none =>
      rw [hexTaken, hNib]
      refine ⟨fun _ nib hIn => absurd hIn List.not_mem_nil, ?_⟩
      intro _ n
      cases n with
      | zero => rfl
      | succ n => rw [List.cons_append, scnHexLoop, hNib]
    | some nib =>
      rw [hexTaken, hNib, List.forall_mem_cons]
      constructor
      · intro hStays
        have hKept : res <<< 4 ||| nib = res := by
          have hOne := hStays 1
          rw [List.cons_append, scnHexLoop, hNib] at hOne
          dsimp only at hOne
          rw [scnHexLoop] at hOne
          exact Option.some_inj.mp hOne
        refine ⟨hKept, ih.mp (fun n => ?_)⟩
        have hNext := hStays (n + 1)
        rw [List.cons_append, scnHexLoop, hNib] at hNext
        dsimp only at hNext
        rwa [hKept] at hNext
      · intro hBoth n
        cases n with
        | zero => rfl
        | succ n =>
          rw [List.cons_append, scnHexLoop, hNib]
          dsimp only
          rw [hBoth.1]
          exact ih.mpr hBoth.2 n

end Riot
