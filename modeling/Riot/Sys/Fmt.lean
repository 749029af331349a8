import Riot.Lib.ByteMemory

/-
  The functions of the fmt module that write numbers and
  bytes as text, and those that read them.

  A pointer is an address, and zero is NULL. The bytes that a
  function reads are given as a list: they are no part of the
  output. The result `none` says that a loop does not come to
  an end, a string has no end, or an assertion fails.
-/

----
-- Characters
----

namespace Riot

def fmtIsDigit
    (c : UInt8) : Bool :=
  c ≥ 0x30 ∧ c ≤ 0x39

def fmtIsUpper
    (c : UInt8) : Bool :=
  c ≥ 0x41 ∧ c ≤ 0x5a

/- _to_lower -/
def toLower
    (c : UInt8) : UInt8 :=
  0x61 + (c - 0x41)

/- _hex_chars -/
def hexChars : List UInt8 :=
  [0x30, 0x31, 0x32, 0x33, 0x34, 0x35, 0x36, 0x37, 0x38, 0x39, 0x41, 0x42, 0x43, 0x44, 0x45, 0x46]

def hexChar
    (nib : UInt8) : UInt8 :=
  hexChars.getD nib.toNat 0

/- The number of characters before the NUL. -/
def fmtStrlen : List UInt8 → Option Nat
| [] => none
| c :: cs => if c = 0 then some 0 else (fmtStrlen cs).map (· + 1)

----
-- Hexadecimal Text
----

def fmtByteHex
    (m : ByteMem) (out : Nat) (byte : UInt8) : ByteMem × Nat :=
  if out ≠ 0 then
    ((m.write out [hexChar (byte >>> 4)]).write (out + 1) [hexChar (byte &&& 0x0f)], 2)
  else
    (m, 2)

/- The loop of fmt_bytes_hex. -/
def bytesHexLoop : ByteMem → Nat → List UInt8 → ByteMem
| m, _, [] => m
| m, out, byte :: bytes =>
  let (m, k) := fmtByteHex m out byte
  bytesHexLoop m (out + k) bytes

def fmtBytesHex
    (m : ByteMem) (out : Nat) (bytes : List UInt8) : ByteMem × Nat :=
  let len := bytes.length * 2
  if out ≠ 0 then
    (bytesHexLoop m out bytes, len)
  else
    (m, len)

/- The loop of fmt_bytes_hex_reverse. -/
def bytesHexReverseLoop
    (bytes : List UInt8) : ByteMem → Nat → Nat → ByteMem
| m, _, 0 => m
| m, out, i + 1 =>
  let (m, k) := fmtByteHex m out (bytes.getD i 0)
  bytesHexReverseLoop bytes m (out + k) i

/- The pointer is not tested before the loop. -/
def fmtBytesHexReverse
    (m : ByteMem) (out : Nat) (bytes : List UInt8) : ByteMem × Nat :=
  (bytesHexReverseLoop bytes m out bytes.length, bytes.length <<< 1)

/- The bytes of a number, the lowest one first. -/
def littleEndian : Nat → Nat → List UInt8
| 0, _ => []
| k + 1, v => UInt8.ofNat v :: littleEndian k (v >>> 8)

def fmtU16Hex
    (m : ByteMem) (out : Nat) (val : UInt16) : ByteMem × Nat :=
  fmtBytesHexReverse m out (littleEndian 2 val.toNat)

def fmtU32Hex
    (m : ByteMem) (out : Nat) (val : UInt32) : ByteMem × Nat :=
  fmtBytesHexReverse m out (littleEndian 4 val.toNat)

def fmtU64Hex
    (m : ByteMem) (out : Nat) (val : UInt64) : ByteMem × Nat :=
  fmtBytesHexReverse m out (littleEndian 8 val.toNat)

/- The divisors of the loop go from 200 down to 25. -/
def byteMod25
    (x : UInt8) : UInt8 :=
  [200, 100, 50, 25].foldl (fun x divisor => if x ≥ divisor then x - divisor else x) x

def hexNib
    (nib : UInt8) : UInt8 :=
  byteMod25 ((nib &&& 0x1f) + 9)

def fmtHexByte
    (high low : UInt8) : UInt8 :=
  (hexNib high <<< 4) ||| hexNib low

/- The loop of fmt_hex_bytes. -/
def hexBytesLoop
    (hex : List UInt8)
    (out : Nat) : ByteMem → Nat → Nat → ByteMem
| m, _, 0 => m
| m, j, k + 1 =>
  let byte := fmtHexByte (hex.getD (2 * j) 0) (hex.getD (2 * j + 1) 0)
  hexBytesLoop hex out (m.write (out + j) [byte]) (j + 1) k

def fmtHexBytes
    (m : ByteMem) (out : Nat) (hex : List UInt8) : Option (ByteMem × Nat) := do
  let len ← fmtStrlen hex
  if len &&& 1 ≠ 0 then
    some (m, 0)
  else
    let finalLen := len >>> 1
    if out = 0 then
      some (m, finalLen)
    else
      some (hexBytesLoop hex out m 0 finalLen, finalLen)

/- The loop of fmt_to_lower. -/
def toLowerLoop :
    ByteMem → Nat → List UInt8 → Nat → Option (ByteMem × Nat)
| _, _, [], _ => none
| m, out, c :: cs, len =>
  if c = 0 then
    some (m, len)
  else if out ≠ 0 then
    let c := if fmtIsUpper c then toLower c else c
    toLowerLoop (m.write out [c]) (out + 1) cs (len + 1)
  else
    toLowerLoop m out cs (len + 1)

def fmtToLower
    (m : ByteMem) (out : Nat) (str : List UInt8) : Option (ByteMem × Nat) :=
  toLowerLoop m out str 0

----
-- Decimal Text
----

/- Count needed characters. -/
def countDigits
    (val : UInt32) : Nat → UInt32 → Nat → Option Nat
| 0, _, _ => none
| fuel + 1, tmp, len =>
  if tmp ≤ val then
    countDigits val fuel (tmp * 10) (len + 1)
  else
    some len

/- The digits are written from the last one on. -/
def writeDigits
    (m : ByteMem) (ptr : Nat) (val : Nat) : ByteMem :=
  let m := m.write (ptr - 1) [UInt8.ofNat (val % 10) + 0x30]
  if val / 10 = 0 then
    m
  else
    writeDigits m (ptr - 1) (val / 10)
termination_by val
decreasing_by omega

/- The length, without a multiplication that overflows. -/
def u32DecLen
    (val : UInt32) : Option Nat :=
  if val ≥ 1000000000 then some 10
  else countDigits val 10 10 1

def fmtU32Dec
    (m : ByteMem) (out : Nat) (val : UInt32) : Option (ByteMem × Nat) := do
  let len ← u32DecLen val
  if out ≠ 0 then
    some (writeDigits m (out + len) val.toNat, len)
  else
    some (m, len)

/- The sums of the limbs, before they are cut to 32 bits. -/
structure U64Sums where
  s₀ : Nat
  s₁ : Nat
  s₂ : Nat
  s₃ : Nat
deriving DecidableEq, Repr

def u64Sums
    (val : UInt64) : U64Sums :=
  let d₀ := (val &&& 0xffff).toNat
  let d₁ := ((val >>> 16) &&& 0xffff).toNat
  let d₂ := ((val >>> 32) &&& 0xffff).toNat
  let d₃ := ((val >>> 48) &&& 0xffff).toNat
  let s₀ := 656 * d₃ + 7296 * d₂ + 5536 * d₁ + d₀
  let s₁ := s₀ % 2 ^ 32 / 10000 + 7671 * d₃ + 9496 * d₂ + 6 * d₁
  let s₂ := s₁ % 2 ^ 32 / 10000 + 4749 * d₃ + 42 * d₂
  let s₃ := s₂ % 2 ^ 32 / 10000 + 281 * d₃
  ⟨s₀, s₁, s₂, s₃⟩

/- The digits in base 10000. -/
def u64Limbs
    (val : UInt64) : List Nat :=
  let s := u64Sums val
  [s.s₀ % 2 ^ 32 % 10000, s.s₁ % 2 ^ 32 % 10000, s.s₂ % 2 ^ 32 % 10000, s.s₃ % 2 ^ 32 % 10000,
    s.s₃ % 2 ^ 32 / 10000]

/- The first limb that is not zero. -/
def firstLimb
    (d : List Nat) : Nat → Nat
| 0 => 0
| k + 1 => if d.getD (k + 1) 0 = 0 then firstLimb d k else k + 1

/- The loop over the limbs after the first one. -/
def writeLimbs
    (d : List Nat) : ByteMem → Nat → Nat → Option ByteMem
| m, _, 0 => some m
| m, out, first + 1 =>
  let limb := UInt32.ofNat (d.getD first 0)
  if limb ≠ 0 then do
    let (_, tmp) ← fmtU32Dec m 0 limb
    let (m, _) ← fmtU32Dec m (out + (4 - tmp)) limb
    writeLimbs d m (out + 4) first
  else
    writeLimbs d m (out + 4) first

def fmtU64Dec
    (m : ByteMem) (out : Nat) (val : UInt64) : Option (ByteMem × Nat) := do
  let d := u64Limbs val
  let first := firstLimb d 4
  let (m, len) ← fmtU32Dec m out (UInt32.ofNat (d.getD first 0))
  let totalLen := len + first * 4
  if out ≠ 0 then do
    let out := out + len
    let m := m.write out (List.replicate (totalLen - len) 0x30)
    let m ← writeLimbs d m out first
    some (m, totalLen)
  else
    some (m, totalLen)

/- What both functions for signed numbers do. -/
def fmtSigned
    (negative : Bool) (dec : ByteMem → Nat → Option (ByteMem × Nat)) (m : ByteMem)
    (out : Nat) : Option (ByteMem × Nat) :=
  if negative then do
    let (m, out) :=
      if out ≠ 0 then (m.write out [0x2d], out + 1) else (m, out)
    let (m, len) ← dec m out
    some (m, len + 1)
  else
    dec m out

def fmtS64Dec
    (m : ByteMem) (out : Nat) (val : Int64) : Option (ByteMem × Nat) :=
  let negative := val < 0
  let sval := if negative then -val.toUInt64 else val.toUInt64
  fmtSigned negative (fun m out => fmtU64Dec m out sval) m out

def fmtS32Dec
    (m : ByteMem) (out : Nat) (val : Int32) : Option (ByteMem × Nat) :=
  let negative := val < 0
  let sval := if negative then -val.toUInt32 else val.toUInt32
  fmtSigned negative (fun m out => fmtU32Dec m out sval) m out

/- The loop of scn_u32_dec. -/
def scnLoop : UInt32 → List UInt8 → Nat → Option UInt32
| res, _, 0 => some res
| _, [], _ + 1 => none
| res, c :: str, n + 1 =>
  if fmtIsDigit c then
    scnLoop (res * 10 + (c - 0x30).toUInt32) str n
  else
    some res

def scnU32Dec
    (str : List UInt8) (n : Nat) : Option UInt32 :=
  scnLoop 0 str n

/-
  The value of a character in scn_u32_hex. The result `none`
  leaves the loop, and `signed` says whether char is signed.
-/
def scnHexNib
    (signed : Bool) (c : UInt8) : Option UInt32 :=
  if fmtIsDigit c then
    some (c - 0x30).toUInt32
  else
    let c := if fmtIsUpper c then toLower c else c
    let int :=
      if signed then c.toInt8.toInt32 else c.toUInt32.toInt32
    if int = 0 ∨ int > 0x66 then none
    else some (int - 0x61 + 0xa).toUInt32

/- The loop of scn_u32_hex. -/
def scnHexLoop
    (signed : Bool) : UInt32 → List UInt8 → Nat → Option UInt32
| res, _, 0 => some res
| _, [], _ + 1 => none
| res, c :: str, n + 1 =>
  match scnHexNib signed c with
  | none => some res
  | some nib => scnHexLoop signed (res <<< 4 ||| nib) str n

def scnU32Hex
    (signed : Bool) (str : List UInt8) (n : Nat) : Option UInt32 :=
  scnHexLoop signed 0 str n

----
-- Fixed-Point Text
----

/- _tenmap -/
def tenmap : List Nat :=
  [0, 10, 100, 1000, 10000, 100000, 1000000, 10000000]

def fmtLpad
    (m : ByteMem) (out : Nat) (inLen padLen : Nat) (padChar : UInt8) : ByteMem × Nat :=
  if inLen ≥ padLen then
    (m, inLen)
  else if out ≠ 0 then
    let n := padLen - inLen
    let m := m.write (out + n) (m.read out inLen)
    (m.write out (List.replicate n padChar), padLen)
  else
    (m, padLen)

/- The case of digits after the decimal point. -/
def fmtFraction
    (m : ByteMem) (out : Nat) (val : Int32) (fpDigits : Nat) : Option (ByteMem × Nat) := do
  let e := tenmap.getD fpDigits 0
  let abs := val / Int32.ofInt e
  let div := val - abs * Int32.ofInt e
  -- the divisor should never be negative
  let div := if div < 0 then div * -1 else div
  -- a negative number with zero as absolute value
  let (m, pos) :=
    if abs = 0 ∧ val < 0 then
      (if out ≠ 0 then m.write out [0x2d] else m, 1)
    else
      (m, 0)
  if out = 0 then do
    let (m, len) ← fmtS32Dec m 0 abs
    some (m, pos + (len + 1) + fpDigits)
  else do
    let (m, len) ← fmtS32Dec m (out + pos) abs
    let pos := pos + len
    let m := m.write (out + pos) [0x2e]
    let pos := pos + 1
    let (m, divLen) ← fmtS32Dec m (out + pos) div
    let (m, _) := fmtLpad m (out + pos) divLen fpDigits 0x30
    some (m, pos + fpDigits)

def fmtS32Dfp
    (m : ByteMem) (out : Nat) (val : Int32) (fpDigits : Int) : Option (ByteMem × Nat) :=
  if fpDigits ≤ -(tenmap.length : Int) then
    none
  else if fpDigits = 0 then
    fmtS32Dec m out val
  else if fpDigits > 0 then do
    let (m, pos) ← fmtS32Dec m out val
    let m :=
      if out ≠ 0 then
        m.write (out + pos) (List.replicate fpDigits.toNat 0x30)
      else m
    some (m, pos + fpDigits.toNat)
  else
    fmtFraction m out val (-fpDigits).toNat

end Riot
