import Mathlib.Algebra.Ring.Nat
import Riot.Lib.Outcome

/-
  The parser of DNS replies, `dns.c`.

  A reply is a list of bytes; positions are pointers into it.
-/

----
-- Reads
----

namespace Riot

def ebadmsg : Int := 74

/-
  A function returns early, or it is stuck: it reads a byte
  outside of the reply, or has a loop that does not end.
-/
inductive DnsEnd where
  | ret (res : Int)
  | stuck
deriving DecidableEq

inductive DnsFamily where
  | inet
  | inet6
  | unspec
deriving DecidableEq

variable (buf : List UInt8) (family : DnsFamily)

def dnsReadByte
    (i : Nat) : Except DnsEnd Nat :=
  match buf[i]? with
  | some b => .ok b.toNat
  | none => .error .stuck

/- `ntohs(_get_short(..))`. -/
def dnsGetShort
    (i : Nat) : Except DnsEnd Nat := do
  let high ← dnsReadByte buf i
  let low ← dnsReadByte buf (i + 1)
  return high * 256 + low

----
-- Parser
----

/- The loop of `_skip_hostname`; every turn gets further. -/
def skipLabels
    (bufpos : Nat) : Nat → Nat → Except DnsEnd Nat
| 0, _ => .error .stuck
| turns + 1, res => do
  let len ← dnsReadByte buf (bufpos + res)
  if len = 0 then
    return res + 1
  if buf.length ≤ bufpos + (res + (len + 1)) then
    throw (.ret (-ebadmsg))
  skipLabels bufpos turns (res + (len + 1))

def skipHostname
    (bufpos : Nat) : Except DnsEnd Nat := do
  if buf.length ≤ bufpos then
    throw (.ret (-ebadmsg))
  let first ← dnsReadByte buf bufpos
  if 192 ≤ first then
    if buf.length ≤ bufpos + 2 then
      throw (.ret (-ebadmsg))
    return 2
  skipLabels buf bufpos buf.length 0

/- `n` queries; 4 bytes are the type and the class. -/
def skipQueries : Nat → Nat → Except DnsEnd Nat
| 0, bufpos => pure bufpos
| n + 1, bufpos => do
  let tmp ← skipHostname buf bufpos
  skipQueries n (bufpos + tmp + (2 + 2))

/- An unwanted answer. -/
def dnsUnwanted
    (type cls : Nat) : Bool :=
  cls ≠ 1 || (type = 1 && family = .inet6) || (type = 28 && family = .inet) ||
    !(type = 1 || type = 28)

/- The position after an unwanted answer, or an address. -/
def dnsAnswer
    (bufpos : Nat) : Except DnsEnd (Nat ⊕ List UInt8) := do
  let tmp ← skipHostname buf bufpos
  let bufpos := bufpos + tmp
  if buf.length ≤ bufpos + 2 + 2 + 4 then
    throw (.ret (-ebadmsg))
  let type ← dnsGetShort buf bufpos
  let cls ← dnsGetShort buf (bufpos + 2)
  let bufpos := bufpos + 2 + 2 + 4
  let addrlen ← dnsGetShort buf bufpos
  if dnsUnwanted family type cls then
    if buf.length < addrlen then
      throw (.ret (-ebadmsg))
    return .inl (bufpos + addrlen)
  if (addrlen ≠ 4 ∧ family = .inet) ∨ (addrlen ≠ 16 ∧ family = .inet6) ∨
      (addrlen ≠ 16 ∧ addrlen ≠ 4 ∧ family = .unspec) then
    throw (.ret (-ebadmsg))
  if buf.length < bufpos + 2 + addrlen then
    throw (.ret (-ebadmsg))
  return .inr ((buf.drop (bufpos + 2)).take addrlen)

def dnsAnswers : Nat → Nat → Except DnsEnd (List UInt8)
| 0, _ => .error (.ret (-1))
| n + 1, bufpos => do
  match ← dnsAnswer buf family bufpos with
  | .inl next => dnsAnswers n next
  | .inr addr => return addr

/- The address, whose length is returned. -/
def parseDnsReply : Except DnsEnd (List UInt8) := do
  let qdcount ← dnsGetShort buf 4
  let ancount ← dnsGetShort buf 6
  let bufpos ← skipQueries buf qdcount 12
  dnsAnswers buf family ancount bufpos

----
-- Bounds
----

variable {buf family} {α β : Type} {bufpos i n : Nat}

/- Everything ends, and nothing outside of the reply is read. -/
def DnsInBounds : Except DnsEnd α → Prop
| .ok _ => True
| .error e => e ≠ .stuck

@[simp]
theorem dnsInBounds_pure
    {a : α} :
    DnsInBounds (pure a) :=
  trivial

@[simp]
theorem dnsInBounds_throw
    {res : Int} :
    DnsInBounds (throw (.ret res) : Except DnsEnd α) := by
  intro h
  cases h

theorem dnsInBounds_bind
    {r : Except DnsEnd α} {f : α → Except DnsEnd β} :
    DnsInBounds (r >>= f) ↔ DnsInBounds r ∧ ∀ a, r = .ok a → DnsInBounds (f a) := by
  cases r with
  | ok a =>
    constructor
    · intro h
      refine ⟨trivial, fun _ hEq => ?_⟩
      cases hEq
      exact h
    · exact fun h => h.2 a rfl
  | error e =>
    constructor
    · intro h
      refine ⟨h, fun _ hEq => ?_⟩
      cases hEq
    · exact fun h => h.1

/- A byte is read in bounds exactly if the reply has it. -/
theorem dnsReadByte_inBounds :
    DnsInBounds (dnsReadByte buf i) ↔ i < buf.length := by
  unfold dnsReadByte
  cases hGet : buf[i]? with
  | some b =>
    have hLt := (List.getElem?_eq_some_iff.mp hGet).1
    exact ⟨fun _ => hLt, fun _ => trivial⟩
  | none =>
    have hLe := List.getElem?_eq_none_iff.mp hGet
    exact ⟨fun h => absurd rfl h, fun h => absurd h (by omega)⟩

theorem dnsGetShort_inBounds :
    DnsInBounds (dnsGetShort buf i) ↔ i + 1 < buf.length := by
  simp only [dnsGetShort, dnsInBounds_bind, dnsReadByte_inBounds, dnsInBounds_pure,
    implies_true, and_true]
  refine ⟨fun h => ?_, fun h => ⟨by omega, fun _ _ => h⟩⟩
  refine h.2 buf[i].toNat ?_
  rw [dnsReadByte, List.getElem?_eq_getElem h.1]

/- A read that is not in bounds is not followed by others. -/
theorem dnsGetShort_ok
    (hLt : i + 1 < buf.length) :
    ∃ a, dnsGetShort buf i = .ok a := by
  refine ⟨buf[i].toNat * 256 + buf[i + 1].toNat, ?_⟩
  rw [dnsGetShort, dnsReadByte, List.getElem?_eq_getElem (by omega), dnsReadByte,
    List.getElem?_eq_getElem hLt]
  rfl

/- A name is skipped in bounds, wherever it is. -/
theorem skipLabels_inBounds
    {turns res : Nat} (hLt : bufpos + res < buf.length)
    (hTurns : buf.length - (bufpos + res) ≤ turns) :
    DnsInBounds (skipLabels buf bufpos turns res) := by
  induction turns generalizing res with
  | zero => omega
  | succ turns ih =>
    unfold skipLabels
    rw [dnsInBounds_bind, dnsReadByte_inBounds]
    refine ⟨hLt, fun len _ => ?_⟩
    by_cases hEnd : len = 0
    · simp [hEnd]
    simp only [if_neg hEnd]
    by_cases hOut : buf.length ≤ bufpos + (res + (len + 1))
    · simp only [if_pos hOut]
      exact dnsInBounds_throw
    · simp only [if_neg hOut]
      exact ih (by omega) (by omega)

theorem skipHostname_inBounds :
    DnsInBounds (skipHostname buf bufpos) := by
  unfold skipHostname
  by_cases hOut : buf.length ≤ bufpos
  · simp only [if_pos hOut]
    exact dnsInBounds_throw
  simp only [if_neg hOut]
  show DnsInBounds (dnsReadByte buf bufpos >>= _)
  rw [dnsInBounds_bind, dnsReadByte_inBounds]
  refine ⟨by omega, fun first _ => ?_⟩
  by_cases hPointer : 192 ≤ first
  · simp only [if_pos hPointer]
    split
    · exact dnsInBounds_throw
    · exact dnsInBounds_pure
  · simp only [if_neg hPointer]
    exact skipLabels_inBounds (by omega) (by omega)

/- Only the last byte of the length of an answer is missed. -/
theorem dnsAnswer_inBounds_iff :
    DnsInBounds (dnsAnswer buf family bufpos) ↔
      ∀ tmp, skipHostname buf bufpos = .ok tmp → bufpos + tmp + 9 ≠ buf.length := by
  unfold dnsAnswer
  rw [dnsInBounds_bind, and_iff_right skipHostname_inBounds]
  refine forall₂_congr (fun tmp _ => ?_)
  by_cases hShort : buf.length ≤ bufpos + tmp + 2 + 2 + 4
  · simp only [if_pos hShort]
    exact ⟨fun _ => by omega, fun _ => dnsInBounds_throw⟩
  simp only [if_neg hShort]
  show DnsInBounds (dnsGetShort buf (bufpos + tmp) >>= _) ↔ _
  rcases dnsGetShort_ok (show bufpos + tmp + 1 < buf.length by omega) with ⟨type, hType⟩
  rcases dnsGetShort_ok (show bufpos + tmp + 2 + 1 < buf.length by omega) with ⟨cls, hCls⟩
  rw [hType]
  show DnsInBounds (dnsGetShort buf (bufpos + tmp + 2) >>= _) ↔ _
  rw [hCls]
  show DnsInBounds (dnsGetShort buf (bufpos + tmp + 2 + 2 + 4) >>= _) ↔ _
  rw [dnsInBounds_bind, dnsGetShort_inBounds]
  refine ⟨fun h => by omega, fun h => ⟨by omega, fun addrlen _ => ?_⟩⟩
  split_ifs
  all_goals first | exact dnsInBounds_throw | exact dnsInBounds_pure

/-
  The answers that are reached from a position: none of them
  has its length at the last byte of the reply.
-/
def DnsAnswersFit
    (buf : List UInt8)
    (family : DnsFamily) : Nat → Nat → Prop
| 0, _ => True
| n + 1, bufpos =>
  (∀ tmp, skipHostname buf bufpos = .ok tmp → bufpos + tmp + 9 ≠ buf.length) ∧
    ∀ next, dnsAnswer buf family bufpos = .ok (.inl next) → DnsAnswersFit buf family n next

theorem dnsAnswers_inBounds_iff :
    DnsInBounds (dnsAnswers buf family n bufpos) ↔ DnsAnswersFit buf family n bufpos := by
  induction n generalizing bufpos with
  | zero => exact ⟨fun _ => trivial, fun _ => dnsInBounds_throw⟩
  | succ n ih =>
    rw [dnsAnswers, dnsInBounds_bind, dnsAnswer_inBounds_iff, DnsAnswersFit]
    refine and_congr_right (fun _ => ⟨fun h next hNext => ih.mp (h _ hNext), ?_⟩)
    intro h r hAnswer
    cases r with
    | inl next => exact ih.mpr (h next hAnswer)
    | inr addr => exact dnsInBounds_pure

theorem skipQueries_inBounds :
    DnsInBounds (skipQueries buf n bufpos) := by
  induction n generalizing bufpos with
  | zero => exact dnsInBounds_pure
  | succ n ih =>
    rw [skipQueries, dnsInBounds_bind]
    exact ⟨skipHostname_inBounds, fun tmp _ => ih⟩

/-
  A reply that is long enough is parsed in bounds if and only
  if no answer that is reached is cut off in its length.
-/
theorem parseDnsReply_inBounds_iff
    (buf : List UInt8) (family : DnsFamily) (hLen : 12 + 7 < buf.length) :
    DnsInBounds (parseDnsReply buf family) ↔
      ∀ qdcount ancount start, dnsGetShort buf 4 = .ok qdcount → dnsGetShort buf 6 = .ok ancount →
        skipQueries buf qdcount 12 = .ok start → DnsAnswersFit buf family ancount start := by
  simp only [parseDnsReply, dnsInBounds_bind, dnsGetShort_inBounds, dnsAnswers_inBounds_iff,
    skipQueries_inBounds, true_and, and_iff_right (by omega : 4 + 1 < buf.length),
    and_iff_right (by omega : 6 + 1 < buf.length)]
  exact ⟨fun h q a s hQ hA hS => h q hQ a hA s hS, fun h q hQ a hA s hS => h q a s hQ hA hS⟩

/- An answer for the root, up to the first byte of its length. -/
def cutReply : List UInt8 :=
  [0, 0, 0, 0, 0, 0, 0, 1, 0, 0, 0, 0, 0, 0, 1, 0, 1, 0, 0, 0, 0, 0]

theorem parseDnsReply_inBounds_iff_cutReply :
    DnsInBounds (parseDnsReply cutReply .unspec) ↔
      ∀ qdcount ancount start, dnsGetShort cutReply 4 = .ok qdcount →
        dnsGetShort cutReply 6 = .ok ancount → skipQueries cutReply qdcount 12 = .ok start →
          DnsAnswersFit cutReply .unspec ancount start :=
  parseDnsReply_inBounds_iff cutReply .unspec (by decide)

theorem not_parseDnsReply_inBounds :
    ¬ ∀ buf family, 12 + 7 < buf.length → DnsInBounds (parseDnsReply buf family) := by
  intro h
  exact h cutReply .unspec (by decide) rfl

end Riot
