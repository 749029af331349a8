import Mathlib.Algebra.Order.Ring.Nat
import Mathlib.Tactic.Common

/-
  Buffers of bytes with checked reads and writes, and numbers
  in network byte order.
-/

namespace ByteBuffer

----
-- Reading
----

section

/- The bytes from `pos` on, as far as they are in the buffer. -/
def readBytes
    (buf : List UInt8) (pos n : Nat) : Option (List UInt8) :=
  if pos + n ≤ buf.length then
    some ((buf.drop pos).take n)
  else
    none

variable {buf rest : List UInt8} {pos : Nat}

/- Reading a byte or a byte string from a known rest. -/
theorem getElem?_of_drop
    {b : UInt8} (hDrop : buf.drop pos = b :: rest) :
    buf[pos]? = some b := by
  have hHead : (buf.drop pos)[0]? = some b := by
    rw [hDrop]
    rfl
  rwa [List.getElem?_drop] at hHead

theorem length_of_drop
    {bs : List UInt8} (hDrop : buf.drop pos = bs) (hPos : pos ≤ buf.length) :
    buf.length = pos + bs.length := by
  have hLen := congrArg List.length hDrop
  rw [List.length_drop] at hLen
  omega

theorem drop_of_drop
    {bs : List UInt8} (hDrop : buf.drop pos = bs ++ rest) :
    buf.drop (pos + bs.length) = rest := by
  rw [← List.drop_drop, hDrop, List.drop_left]

theorem drop_succ_of_drop
    {b : UInt8} (hDrop : buf.drop pos = b :: rest) :
    buf.drop (pos + 1) = rest := by
  rw [← List.drop_drop, hDrop]
  rfl

theorem readBytes_of_drop
    {bs : List UInt8} (hDrop : buf.drop pos = bs ++ rest)
    (hEnd : pos + bs.length ≤ buf.length) :
    readBytes buf pos bs.length = some bs := by
  rw [readBytes, if_pos hEnd, hDrop, List.take_left]

theorem length_of_readBytes
    {bs : List UInt8} (hRead : readBytes buf pos n = some bs) :
    bs.length = n := by
  unfold readBytes at hRead
  by_cases hFits : pos + n ≤ buf.length
  · rw [if_pos hFits, Option.some.injEq] at hRead
    rw [← hRead, List.length_take, List.length_drop]
    omega
  · rw [if_neg hFits] at hRead
    cases hRead

end

----
-- Writing
----

section

/- Write the bytes at `pos`. -/
def writeBytes
    (buf : List UInt8) (pos : Nat) (bs : List UInt8) : Option (List UInt8) :=
  if pos + bs.length ≤ buf.length then
    some (buf.take pos ++ bs ++ buf.drop (pos + bs.length))
  else
    none

variable {buf buf' pre old post bs : List UInt8} {pos : Nat}

theorem writeBytes_append
    (hPos : pos = pre.length) (hLen : old.length = bs.length) :
    writeBytes (pre ++ (old ++ post)) pos bs = some (pre ++ (bs ++ post)) := by
  subst hPos
  have hFits : pre.length + bs.length ≤ (pre ++ (old ++ post)).length := by
    rw [List.length_append, List.length_append]
    omega
  rw [writeBytes, if_pos hFits, List.take_left, List.append_assoc, ← List.drop_drop, List.drop_left,
    ← hLen, List.drop_left]

section

variable (hWrite : writeBytes buf pos bs = some buf')

include hWrite

theorem writeBytes_eq_some :
    pos + bs.length ≤ buf.length ∧ buf' = buf.take pos ++ bs ++ buf.drop (pos + bs.length) := by
  unfold writeBytes at hWrite
  split at hWrite
  · rename_i hFits
    exact ⟨hFits, (Option.some.inj hWrite).symm⟩
  · cases hWrite

theorem length_of_writeBytes :
    buf'.length = buf.length := by
  rcases writeBytes_eq_some hWrite with ⟨hFits, rfl⟩
  simp only [List.length_append, List.length_take, List.length_drop]
  omega

/- Only the written positions change. -/
theorem getElem?_writeBytes
    (x : Nat) :
    buf'[x]? = if pos ≤ x ∧ x < pos + bs.length then bs[x - pos]? else buf[x]? := by
  rcases writeBytes_eq_some hWrite with ⟨hFits, rfl⟩
  have hTake : (buf.take pos).length = pos := by
    rw [List.length_take]
    omega
  rw [List.append_assoc]
  by_cases hLeft : x < pos
  · rw [if_neg (by omega), List.getElem?_append_left (by omega), List.getElem?_take_of_lt hLeft]
  · rw [List.getElem?_append_right (by omega), hTake]
    by_cases hMid : x < pos + bs.length
    · rw [if_pos (by omega), List.getElem?_append_left (by omega)]
    · rw [if_neg (by omega), List.getElem?_append_right (by omega), List.getElem?_drop]
      congr 1
      omega

end

/- Writing nothing changes nothing. -/
theorem writeBytes_nil
    (hPos : pos ≤ buf.length) :
    writeBytes buf pos [] = some buf := by
  simp [writeBytes, hPos]

variable (buf pos bs) in
theorem length_writeBytes
    (hFits : pos + bs.length ≤ buf.length) :
    ∃ buf', writeBytes buf pos bs = some buf' ∧ buf'.length = buf.length := by
  refine ⟨_, if_pos hFits, ?_⟩
  simp only [List.length_append, List.length_take, List.length_drop]
  omega

/- Two writes in a row are one. -/
theorem writeBytes_bind
    {a b : List UInt8} :
    (writeBytes buf pos a).bind
        (fun buf => writeBytes buf (pos + a.length) b) = writeBytes buf pos (a ++ b) := by
  by_cases hFits : pos + (a ++ b).length ≤ buf.length
  · obtain ⟨both, hBoth, _⟩ := length_writeBytes buf (a ++ b) pos hFits
    rw [List.length_append] at hFits
    obtain ⟨one, hOne, hLen⟩ := length_writeBytes buf a pos (by omega)
    obtain ⟨two, hTwo, _⟩ := length_writeBytes one b (pos + a.length) (by omega)
    rw [hOne, Option.bind_some, hTwo, hBoth]
    congr 1
    refine List.ext_getElem? ?_
    intro x
    rw [getElem?_writeBytes hTwo, getElem?_writeBytes hOne,
      getElem?_writeBytes hBoth, List.length_append]
    by_cases hIn : pos ≤ x ∧ x < pos + (a.length + b.length)
    · rw [if_pos hIn]
      by_cases hFirst : x < pos + a.length
      · rw [if_neg (by omega), if_pos (by omega), List.getElem?_append_left (by omega)]
      · rw [if_pos (by omega), List.getElem?_append_right (by omega)]
        congr 1
        omega
    · rw [if_neg (by omega), if_neg (by omega), if_neg hIn]
  · rw [writeBytes.eq_def buf pos (a ++ b), if_neg hFits]
    rw [List.length_append] at hFits
    by_cases hOne : pos + a.length ≤ buf.length
    · obtain ⟨one, hOne, hLen⟩ := length_writeBytes buf a pos hOne
      rw [hOne, Option.bind_some, writeBytes, if_neg (by omega)]
    · rw [writeBytes, if_neg hOne, Option.bind_none]

end

----
-- Network Byte Order
----

/- The two bytes of a number in network byte order. -/
def htons
    (v : Nat) : List UInt8 :=
  [UInt8.ofNat (v >>> 8), UInt8.ofNat v]

/- The four bytes of a number in network byte order. -/
def htonl
    (v : Nat) : List UInt8 :=
  htons (v >>> 16) ++ htons v

/- The number written in network byte order. -/
def fromNetwork
    (bs : List UInt8) : Nat :=
  bs.foldl (fun acc b => acc * 256 + b.toNat) 0

variable {v : Nat}

theorem fromNetwork_htons
    (hv : v < 2 ^ 16) :
    fromNetwork (htons v) = v := by
  simp only [fromNetwork, htons, List.foldl_cons,
    List.foldl_nil, UInt8.toNat_ofNat', Nat.shiftRight_eq_div_pow]
  omega

theorem htons_fromNetwork
    (b c : UInt8) :
    htons (fromNetwork [b, c]) = [b, c] := by
  have hb := b.toNat_lt
  have hc := c.toNat_lt
  simp only [fromNetwork, htons, List.foldl_cons, List.foldl_nil, Nat.shiftRight_eq_div_pow,
    List.cons.injEq, and_true, ← UInt8.toNat_inj, UInt8.toNat_ofNat']
  omega

----
-- Strings
----

section

/- The number of characters before the first NUL. -/
def strlen : List UInt8 → Option Nat
| [] => none
| c :: cs => if c = 0 then some 0 else (strlen cs).map (· + 1)

theorem strlen_append
    {s rest : List UInt8} (hText : 0 ∉ s) :
    strlen (s ++ 0 :: rest) = some s.length := by
  induction s with
  | nil => rfl
  | cons c s ih =>
    rw [List.mem_cons, not_or] at hText
    have hc : c ≠ 0 := fun h => hText.1 h.symm
    rw [List.cons_append, strlen, if_neg hc, ih hText.2]
    rfl

end

----
-- What Stands Behind
----

section

variable {α β : Type}

/- What is computed from a buffer stays when bytes follow. -/
def IgnoresRest
    (f : List UInt8 → Option α) : Prop :=
  ∀ buf rest x, f buf = some x → f (buf ++ rest) = some x

theorem ignoresRest_const
    {x : Option α} :
    IgnoresRest (fun _ => x) :=
  fun _ _ _ hx => hx

theorem ignoresRest_getElem
    {i : Nat} :
    IgnoresRest (fun buf => buf[i]?) := by
  intro buf rest x hx
  rcases List.getElem?_eq_some_iff.mp hx with ⟨hi, _⟩
  dsimp only
  rwa [List.getElem?_append_left hi]

theorem ignoresRest_bind
    {f : List UInt8 → Option α} {g : α → List UInt8 → Option β} (hf : IgnoresRest f)
    (hg : ∀ a, IgnoresRest (g a)) :
    IgnoresRest (fun buf => (f buf).bind (fun a => g a buf)) := by
  intro buf rest x hx
  rcases Option.bind_eq_some_iff.mp hx with ⟨a, ha, hx⟩
  exact Option.bind_eq_some_iff.mpr ⟨a, hf buf rest a ha, hg a buf rest x hx⟩

theorem ignoresRest_ite
    {p : Prop} [Decidable p]
    {f g : List UInt8 → Option α} (hf : IgnoresRest f) (hg : IgnoresRest g) :
    IgnoresRest (fun buf => if p then f buf else g buf) := by
  by_cases hp : p
  · simp only [if_pos hp]
    exact hf
  · simp only [if_neg hp]
    exact hg

end

end ByteBuffer
