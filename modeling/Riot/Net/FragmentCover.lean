import Riot.Net.SixlowpanFrag

/-
  The fragments of a datagram cover it.
-/

open ByteBuffer

----
-- Copying
----

namespace Riot

variable {data pre old post : List UInt8} {snips : List (List UInt8)}
variable {maxFrag offset count n : Nat}

/- What is taken of two lists, from each of them. -/
theorem take_append_of_min
    {a b : List UInt8} {k : Nat} (hMin : k = min n a.length) :
    (a ++ b).take n = a.take k ++ b.take (n - k) := by
  rw [List.take_append]
  rcases Nat.le_total a.length n with hLe | hLe
  · rw [hMin, Nat.min_eq_right hLe, List.take_of_length_le hLe, List.take_length]
  · have hNone : n - a.length = 0 := by
      omega
    rw [hMin, Nat.min_eq_left hLe, hNone, Nat.sub_self]

/- As much as there is room for follows what is there. -/
theorem copyPktToFrag_spec
    (hPre : offset = pre.length) (hMax : offset ≤ maxFrag)
    (hOld : old.length = min (maxFrag - offset) snips.flatten.length) :
    copyPktToFrag maxFrag (pre ++ (old ++ post)) snips offset =
      some (pre ++ (snips.flatten.take old.length ++ post), offset + old.length) := by
  induction snips generalizing pre old offset with
  | nil =>
    have hNil : old = [] := by
      simpa using hOld
    simp [copyPktToFrag, hNil]
  | cons s snips ih =>
    rw [List.flatten_cons, List.length_append] at hOld
    unfold copyPktToFrag
    by_cases hRoom : offset < maxFrag
    · -- the bytes of this snip, and the rest of the room
      generalize hLen : min (maxFrag - offset) s.length = len
      have hSplit : old = old.take len ++ old.drop len := (List.take_append_drop len old).symm
      have hTake : (old.take len).length = len := by
        rw [List.length_take]
        omega
      have hPart : (s.take len).length = len := by
        rw [List.length_take]
        omega
      have hWrite : writeBytes (pre ++ (old ++ post)) offset (s.take len) =
            some (pre ++ (s.take len ++ (old.drop len ++ post))) := by
        have hBuf : pre ++ (old ++ post) = pre ++ (old.take len ++ (old.drop len ++ post)) := by
          rw [← List.append_assoc (old.take len), ← hSplit]
        rw [hBuf]
        exact writeBytes_append hPre (hTake.trans hPart.symm)
      have hRest : copyPktToFrag maxFrag
              ((pre ++ s.take len) ++ (old.drop len ++ post))
              snips (offset + len) = some ((pre ++ s.take len) ++
              (snips.flatten.take (old.drop len).length ++ post),
              offset + len + (old.drop len).length) := by
        refine ih ?_ ?_ ?_
        · rw [List.length_append, hPre, hPart]
        · omega
        · rw [List.length_drop]
          omega
      have hDrop : (old.drop len).length = old.length - len := List.length_drop
      rw [hDrop] at hRest
      have hFlat : (s ++ snips.flatten).take old.length =
            s.take len ++ snips.flatten.take (old.length - len) := by
        refine take_append_of_min ?_
        omega
      rw [if_pos hRoom, List.flatten_cons, hFlat]
      simp only [hWrite, Option.bind_eq_bind, Option.bind_some]
      rw [← List.append_assoc, hRest]
      simp only [List.append_assoc, Option.some.injEq, Prod.mk.injEq, true_and]
      omega
    · have hNil : old = [] := by
        rw [← List.length_eq_zero_iff]
        omega
      simp [hRoom, hNil]

/-
  The data of a later fragment is cut out of the datagram at
  the offset, by induction on the snips before it.
-/
theorem copyFrom_spec
    (hCount : count ≤ offset) (hOffset : offset ≤ count + snips.flatten.length)
    (hSmall : count + snips.flatten.length < 2 ^ 16)
    (hData : data.length = min maxFrag (count + snips.flatten.length - offset)) :
    (copyPartlySent maxFrag offset data snips count).bind
        (fun r => copyPktToFrag maxFrag r.1 r.2.2 r.2.1) =
      some ((snips.flatten.drop (offset - count)).take data.length, data.length) := by
  induction snips generalizing count with
  | nil =>
    have hNil : data = [] := by
      rw [← List.length_eq_zero_iff, hData, List.flatten_nil]
      simp only [List.length_nil] at hOffset ⊢
      omega
    simp [copyPartlySent, copyPktToFrag, hNil]
  | cons s snips ih =>
    rw [List.flatten_cons, List.length_append] at *
    unfold copyPartlySent
    by_cases hAt : count = offset
    · -- the offset is at the start of a snip
      subst hAt
      have hCopy : copyPktToFrag maxFrag ([] ++ (data ++ []))
              (s :: snips) 0 =
            some ([] ++ ((s :: snips).flatten.take data.length ++ []), 0 + data.length) := by
        refine copyPktToFrag_spec rfl (Nat.zero_le _) ?_
        rw [List.flatten_cons, List.length_append]
        omega
      simp only [List.nil_append, List.append_nil, Nat.zero_add] at hCopy
      simp [hCopy]
    · have hMod : (count + s.length) % 2 ^ 16 = count + s.length := Nat.mod_eq_of_lt (by omega)
      rw [if_neg hAt, hMod]
      by_cases hOver : count + s.length > offset
      · -- the offset is within this snip
        have hPktOffset : (((offset : Int) -
                ((count + s.length : Nat) - ((s.length : Nat) : Int) % 2 ^ 16)) %
                2 ^ 16).toNat = offset - count := by
          omega
        generalize hClen : min maxFrag (s.length - (offset - count)) = clen
        have hRead :
            readBytes s (offset - count) clen = some ((s.drop (offset - count)).take clen) :=
          if_pos (by omega)
        have hPart : ((s.drop (offset - count)).take clen).length = clen := by
          rw [List.length_take, List.length_drop]
          omega
        have hTake : (data.take clen).length = clen := by
          rw [List.length_take]
          omega
        have hWrite : writeBytes data 0
                ((s.drop (offset - count)).take clen) =
              some ((s.drop (offset - count)).take clen ++ data.drop clen) := by
          have hBuf : data = [] ++ (data.take clen ++ data.drop clen) := by
            rw [List.nil_append, List.take_append_drop]
          have hCopied : writeBytes
                  ([] ++ (data.take clen ++ data.drop clen)) 0
                  ((s.drop (offset - count)).take clen) = _ :=
            writeBytes_append rfl (hTake.trans hPart.symm)
          rwa [← hBuf] at hCopied
        have hRest : copyPktToFrag maxFrag
                ((s.drop (offset - count)).take clen ++ (data.drop clen ++ [])) snips clen =
              some ((s.drop (offset - count)).take clen ++
                (snips.flatten.take (data.drop clen).length ++
                  []), clen + (data.drop clen).length) := by
          refine copyPktToFrag_spec hPart.symm (by omega) ?_
          rw [List.length_drop]
          omega
        rw [List.length_drop, List.append_nil, List.append_nil] at hRest
        have hFlat : ((s ++ snips.flatten).drop (offset - count)).take
                data.length =
              (s.drop (offset - count)).take clen ++ snips.flatten.take (data.length - clen) := by
          rw [List.drop_append_of_le_length (by omega)]
          refine take_append_of_min ?_
          rw [List.length_drop]
          omega
        rw [if_pos hOver, hFlat]
        simp only [hPktOffset, hClen, hRead, hWrite, hRest, Option.bind_eq_bind, Option.bind_some,
          Option.some.injEq, Prod.mk.injEq, true_and]
        omega
      · rw [if_neg hOver]
        have hSkip : (s ++ snips.flatten).drop (offset - count) =
              snips.flatten.drop (offset - (count + s.length)) := by
          rw [List.drop_append, List.drop_eq_nil_of_le (by omega), List.nil_append]
          congr 1
          omega
        rw [hSkip]
        refine ih (by omega) (by omega) (by omega) ?_
        rw [hData]
        congr 1
        omega

----
-- One Fragment
----

/-
  A datagram that is fragmented: its compressed form in snips
  does not fit into a frame. What compression adds to it, such
  as the dispatch of an uncompressed datagram, is no more than
  the first fragment has room for.
-/
structure FragInput where
  snips : List (List UInt8)
  datagramSize : Nat
  tag : Nat
  maxFrag : Nat
  datagramSize_le : datagramSize ≤ 2047
  maxFrag_ge : 16 ≤ maxFrag
  maxFrag_le : maxFrag ≤ 255
  maxFrag_lt : maxFrag < snips.flatten.length
  length_le : snips.flatten.length + sizeofSixlowpanFrag ≤ datagramSize + maxFrag

namespace FragInput

/- The datagram in its compressed form. -/
def datagram
    (x : FragInput) : List UInt8 :=
  x.snips.flatten

/- How much longer the uncompressed datagram is. -/
def diff
    (x : FragInput) : Int :=
  (x.datagramSize : Int) - x.datagram.length

/- The entry after `offset` bytes were sent. -/
def entry
    (x : FragInput) (offset : Nat) : FragFb :=
  ⟨some x.snips, x.datagramSize, x.tag, offset⟩

/- The data of the first and of the other fragments. -/
def firstSize
    (x : FragInput) : Nat :=
  firstMaxFrag x.maxFrag (x.entry 0) x.datagram.length

def nthSize
    (x : FragInput) : Nat :=
  nthMaxFrag x.maxFrag

variable (x : FragInput) {env : FragEnv}

theorem bounds :
    x.maxFrag < x.datagram.length ∧ x.datagram.length + 4 ≤ x.datagramSize + x.maxFrag :=
  ⟨x.maxFrag_lt, x.length_le⟩

theorem gnrcPktLen_eq :
    gnrcPktLen x.snips = x.datagram.length :=
  List.length_flatten.symm

theorem floor8_eq
    {a : Nat} (ha : a < 2 ^ 16) :
    floor8 a = a / 8 * 8 :=
  and_mask_eq ha (show 3 ≤ 16 by decide)

/- The first fragment ends at a multiple of eight. -/
theorem firstSize_spec :
    5 ≤ x.firstSize ∧ x.firstSize + sizeofSixlowpanFrag ≤ x.maxFrag ∧
    (8 : Int) ∣ x.firstSize + x.diff ∧ 0 ≤ x.firstSize + x.diff := by
  have hSize := x.datagramSize_le
  have hGe := x.maxFrag_ge
  have hLe := x.maxFrag_le
  rcases x.bounds with ⟨hLt, hGrowth⟩
  have hDiff : payloadDiff (x.entry 0) x.datagram.length = x.diff := rfl
  have hRoom : (((maxFragSize x.maxFrag : Int) + x.diff - sizeofSixlowpanFrag) % 2 ^ 16).toNat =
        x.maxFrag + x.datagramSize - x.datagram.length - 4 := by
    unfold maxFragSize sizeofSixlowpanFrag diff
    omega
  have hFirst : x.firstSize = ((((x.maxFrag + x.datagramSize - x.datagram.length - 4) /
          8 * 8 : Nat) - x.diff) % 2 ^ 16).toNat := by
    unfold firstSize firstMaxFrag
    simp only [hDiff, hRoom]
    rw [floor8_eq (by omega)]
  rw [hFirst]
  unfold sizeofSixlowpanFrag diff
  omega

theorem nthSize_spec :
    8 ≤ x.nthSize ∧ x.nthSize + sizeofSixlowpanFragN ≤ x.maxFrag ∧ 8 ∣ x.nthSize := by
  have hGe := x.maxFrag_ge
  have hLe := x.maxFrag_le
  have hRoom : (((x.maxFrag : Int) - sizeofSixlowpanFragN) % 2 ^ 16).toNat = x.maxFrag - 5 := by
    unfold sizeofSixlowpanFragN
    omega
  have hNth : x.nthSize = (x.maxFrag - 5) / 8 * 8 := by
    unfold nthSize nthMaxFrag
    rw [hRoom, floor8_eq (by omega)]
  rw [hNth]
  unfold sizeofSixlowpanFragN
  omega

theorem length_fresh
    (f : Nat → UInt8) (n : Nat) :
    ((List.range n).map f).length = n := by
  simp

/- The first fragment. -/
def firstFragment : Fragment where
  dispSize := dispSize (x.entry 0) sixlowpanFrag1Disp
  tag := x.tag
  offset := none
  data := x.datagram.take x.firstSize
  moreData := true

/- How much is sent from the offset on. -/
def nthLength
    (offset : Nat) : Nat :=
  min x.nthSize (x.datagram.length - offset)

/- The fragment at an offset. -/
def nthFragment
    (offset : Nat) : Fragment where
  dispSize := dispSize (x.entry offset) sixlowpanFragNDisp
  tag := x.tag
  offset := some (((offset + x.diff) / 8) % 2 ^ 8).toNat
  data := (x.datagram.drop offset).take (x.nthLength offset)
  moreData :=
    decide (offset + x.nthLength offset < x.datagram.length)

section

variable (hBuilt : env.built = true)

include hBuilt

theorem sendFirstFragment_eq :
    sendFirstFragment x.maxFrag env (x.entry 0) x.snips
        x.datagram.length = some (x.firstSize, some x.firstFragment) := by
  rcases x.firstSize_spec with ⟨hPos, hFits, _, _⟩
  rcases x.bounds with ⟨hLt, _⟩
  have hMin : min (x.firstSize + sizeofSixlowpanFrag)
          x.datagram.length = x.firstSize + sizeofSixlowpanFrag := by
    omega
  generalize hFresh : (List.range x.firstSize).map env.fresh = fresh
  have hLength : fresh.length = x.firstSize := by
    rw [← hFresh, length_fresh]
  have hBuild : buildFragPkt env x.datagram.length
          (x.firstSize + sizeofSixlowpanFrag)
          sizeofSixlowpanFrag = some (some fresh) := by
    simp only [buildFragPkt, hBuilt, if_true, hMin, Nat.add_sub_cancel, hFresh]
    rw [if_neg (by omega)]
  have hCopy : copyPktToFrag x.firstSize ([] ++ (fresh ++ [])) x.snips 0 =
        some ([] ++ (x.datagram.take fresh.length ++ []), 0 + fresh.length) := by
    refine copyPktToFrag_spec rfl (Nat.zero_le _) ?_
    rw [hLength]
    change _ = min (x.firstSize - 0) x.datagram.length
    omega
  simp only [hLength, List.nil_append, List.append_nil, Nat.zero_add] at hCopy
  have hFirst : firstMaxFrag x.maxFrag (x.entry 0) x.datagram.length = x.firstSize := rfl
  simp only [sendFirstFragment, hFirst, hBuild, Option.bind_eq_bind, Option.bind_some, hCopy]
  rfl

theorem sendNthFragment_eq
    (hOffset : offset ≤ x.datagram.length) :
    sendNthFragment x.maxFrag env (x.entry offset) x.snips
        x.datagram.length = some (x.nthLength offset, some (x.nthFragment offset)) := by
  have hSize := x.datagramSize_le
  have hMax := x.maxFrag_le
  rcases x.bounds with ⟨_, hGrowth⟩
  have hMin : min (x.nthSize + sizeofSixlowpanFragN)
          (x.datagram.length - offset + sizeofSixlowpanFragN) =
        x.nthLength offset + sizeofSixlowpanFragN := by
    unfold nthLength
    omega
  generalize hFresh : (List.range (x.nthLength offset)).map env.fresh = fresh
  have hLength : fresh.length = x.nthLength offset := by
    rw [← hFresh, length_fresh]
  have hBuild : buildFragPkt env
          (x.datagram.length - offset + sizeofSixlowpanFragN)
          (x.nthSize + sizeofSixlowpanFragN)
          sizeofSixlowpanFragN = some (some fresh) := by
    simp only [buildFragPkt, hBuilt, if_true, hMin, Nat.add_sub_cancel, hFresh]
    rw [if_neg (by omega)]
  have hCopy : (copyPartlySent x.nthSize offset fresh x.snips 0).bind
          (fun r => copyPktToFrag x.nthSize r.1 r.2.2 r.2.1) =
        some ((x.datagram.drop (offset - 0)).take fresh.length, fresh.length) := by
    have hDatagram : x.snips.flatten = x.datagram := rfl
    refine copyFrom_spec (Nat.zero_le _) ?_ ?_ ?_
    · rw [hDatagram]
      omega
    · rw [hDatagram]
      omega
    · rw [hDatagram, hLength, nthLength, Nat.zero_add]
  rw [hLength, Nat.sub_zero] at hCopy
  rcases Option.bind_eq_some_iff.mp hCopy with ⟨r, hPartly, hRest⟩
  have hNth : nthMaxFrag x.maxFrag = x.nthSize := rfl
  have hEntry : (x.entry offset).offset = offset := rfl
  simp only [sendNthFragment, hNth, hEntry, hBuild,
    Option.bind_eq_bind, Option.bind_some, hPartly, hRest]
  rfl

/- One call sends the fragment and asks for the next one. -/
theorem send_first
    (hSent : env.sent = true) :
    gnrcSixlowpanFragSend x.maxFrag env (x.entry 0) =
      some ⟨x.entry x.firstSize, some x.firstFragment, true⟩ := by
  rcases x.firstSize_spec with ⟨hPos, hFits, _, _⟩
  have hMax := x.maxFrag_le
  have hNonzero : x.firstSize ≠ 0 := by
    omega
  have hMod : (0 + x.firstSize) % 2 ^ 16 = x.firstSize := by
    omega
  have hPkt : (x.entry 0).pkt = some x.snips := rfl
  have hEntry : (x.entry 0).offset = 0 := rfl
  simp only [gnrcSixlowpanFragSend, hPkt, hEntry, gnrcPktLen_eq, sendFirstFragment_eq x hBuilt,
    if_true, Option.bind_eq_bind, Option.bind_some, if_neg hNonzero, hSent, hMod]
  rfl

theorem send_nth
    (hSent : env.sent = true) (hPos : 0 < offset)
    (hOffset : offset < x.datagram.length) :
    gnrcSixlowpanFragSend x.maxFrag env (x.entry offset) =
      some ⟨x.entry (offset + x.nthLength offset), some (x.nthFragment offset), true⟩ := by
  have hSize := x.datagramSize_le
  have hMax := x.maxFrag_le
  rcases x.bounds with ⟨_, hGrowth⟩
  rcases x.nthSize_spec with ⟨hNth, _, _⟩
  have hLength : 0 < x.nthLength offset ∧ offset + x.nthLength offset ≤ x.datagram.length := by
    unfold nthLength
    omega
  have hNonzero : x.nthLength offset ≠ 0 := by
    omega
  have hMod : (offset + x.nthLength offset) % 2 ^ 16 = offset + x.nthLength offset :=
    Nat.mod_eq_of_lt (by omega)
  have hPkt : (x.entry offset).pkt = some x.snips := rfl
  have hEntry : (x.entry offset).offset = offset := rfl
  simp only [gnrcSixlowpanFragSend, hPkt, hEntry, gnrcPktLen_eq,
    sendNthFragment_eq x hBuilt hOffset.le, if_neg hPos.ne', if_pos hOffset, Option.bind_eq_bind,
    Option.bind_some, if_neg hNonzero, hSent, if_true, hMod]
  rfl

end

/- After the last fragment the packet is released. -/
theorem send_last :
    gnrcSixlowpanFragSend x.maxFrag env (x.entry x.datagram.length) =
      some ⟨{ x.entry x.datagram.length with pkt := none }, none, false⟩ := by
  rcases x.bounds with ⟨hLt, _⟩
  have hNonzero : x.datagram.length ≠ 0 := by
    omega
  have hPkt : (x.entry x.datagram.length).pkt = some x.snips := rfl
  have hEntry : (x.entry x.datagram.length).offset = x.datagram.length := rfl
  simp only [gnrcSixlowpanFragSend, hPkt, hEntry, gnrcPktLen_eq, if_neg hNonzero, lt_irrefl,
    if_false, Option.bind_eq_bind, Option.bind_some, if_true]

end FragInput

----
-- All Fragments
----

/- Where a fragment starts in the compressed datagram. -/
def startAfter
    (before : List Fragment) : Nat :=
  (before.flatMap Fragment.data).length

/-
  Every byte of the datagram is in one fragment, in order, and
  the fragments fit the link. All fragments but the last end
  at a multiple of eight of the uncompressed datagram, and all
  but the first say where they start in it.
-/
structure Covers
    (x : FragInput)
    (fs : List Fragment) : Prop where
  data : fs.flatMap Fragment.data = x.datagram
  fits : ∀ f ∈ fs, f.size ≤ x.maxFrag
  first : ∀ f after, fs = f :: after → f.offset = none
  offset :
    ∀ before f after, fs = before ++ f :: after → before ≠ [] →
      ∃ k : Nat, f.offset = some k ∧ (k : Int) * 8 = startAfter before + x.diff
  eight :
    ∀ before f after, fs = before ++ f :: after → after ≠ [] →
      (8 : Int) ∣ f.data.length + (if before = [] then x.diff else 0)

/- The same for the fragments from an offset on. -/
structure CoversFrom
    (x : FragInput) (start : Nat)
    (fs : List Fragment) : Prop where
  data : fs.flatMap Fragment.data = x.datagram.drop start
  fits : ∀ f ∈ fs, f.size ≤ x.maxFrag
  offset :
    ∀ before f after, fs = before ++ f :: after →
      ∃ k : Nat, f.offset = some k ∧ (k : Int) * 8 = start + startAfter before + x.diff
  eight : ∀ before f after, fs = before ++ f :: after → after ≠ [] → 8 ∣ f.data.length

variable {x : FragInput} {start : Nat} {fs : List Fragment}

namespace FragInput

variable (x) in
theorem length_nthFragment
    (hStart : start ≤ x.datagram.length) :
    (x.nthFragment start).data.length = x.nthLength start := by
  have hLe : x.nthLength start ≤ x.datagram.length - start := Nat.min_le_right _ _
  simp only [nthFragment, List.length_take, List.length_drop]
  omega

variable (x) in
theorem nthFragment_offset
    (hEight : (8 : Int) ∣ start + x.diff) (hNonneg : 0 ≤ start + x.diff)
    (hStart : start < x.datagram.length) :
    ∃ k : Nat, (x.nthFragment start).offset = some k ∧ (k : Int) * 8 = start + x.diff := by
  have hSize := x.datagramSize_le
  refine ⟨_, rfl, ?_⟩
  unfold diff at *
  omega

variable (x) in
theorem nthFragment_fits :
    (x.nthFragment start).size ≤ x.maxFrag := by
  rcases x.nthSize_spec with ⟨_, hFits, _⟩
  have hLe : x.nthLength start ≤ x.nthSize := Nat.min_le_left _ _
  have hLength : (x.nthFragment start).data.length ≤ x.nthLength start := List.length_take_le _ _
  have hHeader :
      (x.nthFragment start).size = (x.nthFragment start).data.length + sizeofSixlowpanFragN :=
    rfl
  omega

end FragInput

/- A fragment before the ones that follow it. -/
theorem CoversFrom.cons
    (hEight : (8 : Int) ∣ start + x.diff) (hNonneg : 0 ≤ start + x.diff)
    (hStart : start < x.datagram.length) (hLast : fs ≠ [] → 8 ∣ x.nthLength start)
    (hRest : CoversFrom x (start + x.nthLength start) fs) :
    CoversFrom x start (x.nthFragment start :: fs) := by
  have hLength := x.length_nthFragment hStart.le
  refine
    { data := ?_
      fits := ?_
      offset := ?_
      eight := ?_ }
  · rw [List.flatMap_cons, hRest.data, ← List.drop_drop]
    exact List.take_append_drop _ _
  · intro f hf
    rcases List.mem_cons.mp hf with rfl | hf
    · exact x.nthFragment_fits
    · exact hRest.fits f hf
  · intro before f after hSplit
    cases before with
    | nil =>
      rw [List.nil_append, List.cons.injEq] at hSplit
      rcases hSplit with ⟨rfl, rfl⟩
      simpa [startAfter] using x.nthFragment_offset hEight hNonneg hStart
    | cons g before =>
      rw [List.cons_append, List.cons.injEq] at hSplit
      rcases hSplit with ⟨rfl, hSplit⟩
      rcases hRest.offset before f after hSplit with ⟨k, hk, hEq⟩
      refine ⟨k, hk, ?_⟩
      rw [hEq, startAfter, startAfter, List.flatMap_cons, List.length_append, hLength]
      push_cast
      omega
  · intro before f after hSplit hAfter
    cases before with
    | nil =>
      rw [List.nil_append, List.cons.injEq] at hSplit
      rcases hSplit with ⟨rfl, rfl⟩
      rw [hLength]
      exact hLast hAfter
    | cons g before =>
      rw [List.cons_append, List.cons.injEq] at hSplit
      exact hRest.eight before f after hSplit.2 hAfter

theorem coversFrom_nil :
    CoversFrom x x.datagram.length [] := by
  refine
    { data := by simp
      fits := by simp
      offset := by simp
      eight := by simp }

variable {env : Nat → FragEnv}

/- The call after the last fragment. -/
theorem fragSendAll_last
    {i : Nat} :
    fragSendAll x.maxFrag env 1 i (x.entry x.datagram.length) =
      some ([], { x.entry x.datagram.length with pkt := none }) := by
  simp only [fragSendAll, FragInput.send_last, Option.bind_eq_bind, Option.bind_some,
    Bool.false_eq_true, if_false]
  rfl

/-
  The calls from an offset on, by induction on what is left
  of the datagram.
-/
theorem fragSendAll_tail
    (hEnv : ∀ i, (env i).built = true ∧ (env i).sent = true) (n i : Nat)
    (hLeft : x.datagram.length - start = n) (hPos : 0 < start)
    (hStart : start ≤ x.datagram.length) (hEight : (8 : Int) ∣ start + x.diff)
    (hNonneg : 0 ≤ start + x.diff) :
    ∃ fuel fs last, fragSendAll x.maxFrag env fuel i (x.entry start) = some (fs, last) ∧
      last.pkt = none ∧ last.offset = x.datagram.length ∧ CoversFrom x start fs := by
  induction n using Nat.strong_induction_on generalizing start i with
  | _ n ih =>
    by_cases hDone : start = x.datagram.length
    · subst hDone
      exact ⟨1, [], _, fragSendAll_last, rfl, rfl, coversFrom_nil⟩
    · have hLt : start < x.datagram.length := lt_of_le_of_ne hStart hDone
      rcases x.nthSize_spec with ⟨hNth, _, hNthEight⟩
      have hLength :
          x.nthLength start = x.nthSize ∧ start + x.nthLength start < x.datagram.length ∨
          start + x.nthLength start = x.datagram.length := by
        unfold FragInput.nthLength
        omega
      have hMore : 0 < x.nthLength start := by
        unfold FragInput.nthLength
        omega
      have hSend := x.send_nth (hEnv i).1 (hEnv i).2 hPos hLt
      -- the entry at the next offset is the same situation
      have hRest : ∃ fuel fs last, fragSendAll x.maxFrag env fuel (i + 1)
                (x.entry (start + x.nthLength start)) = some (fs, last) ∧ last.pkt = none ∧
            last.offset = x.datagram.length ∧ CoversFrom x (start + x.nthLength start) fs ∧
            (fs ≠ [] → 8 ∣ x.nthLength start) := by
        rcases hLength with ⟨hFull, hBelow⟩ | hEnd
        · rcases ih
              (x.datagram.length - (start + x.nthLength start))
              (by omega) (i + 1) rfl (by omega) (by omega)
              (by rw [hFull]; push_cast; omega)
              (by push_cast; omega) with
            ⟨fuel, fs, last, hRun, hPkt, hOffset, hCovers⟩
          exact ⟨fuel, fs, last, hRun, hPkt, hOffset, hCovers,
            fun _ => by rw [hFull]; exact hNthEight⟩
        · rw [hEnd]
          exact ⟨1, [], _, fragSendAll_last, rfl, rfl, coversFrom_nil, fun h => absurd rfl h⟩
      rcases hRest with ⟨fuel, fs, last, hRun, hPkt, hOffset, hCovers, hLast⟩
      refine ⟨fuel + 1, x.nthFragment start :: fs, last, ?_, hPkt, hOffset,
        CoversFrom.cons hEight hNonneg hLt hLast hCovers⟩
      simp only [fragSendAll, hSend, Option.bind_eq_bind, Option.bind_some, if_true, hRun]
      rfl

/-
  Without errors, the calls for a datagram come to an end and
  send fragments that cover it.
-/
theorem fragSendAll_covers
    (x : FragInput) (env : Nat → FragEnv)
    (hEnv : ∀ i, (env i).built = true ∧ (env i).sent = true) :
    ∃ fuel fs last, fragSendAll x.maxFrag env fuel 0 (x.entry 0) = some (fs, last) ∧
      last.pkt = none ∧ last.offset = x.datagram.length ∧ Covers x fs := by
  rcases x.firstSize_spec with ⟨hPos, hFits, hEight, hNonneg⟩
  rcases x.bounds with ⟨hLt, _⟩
  rcases fragSendAll_tail hEnv _ 1 rfl (by omega) (by omega)
      hEight hNonneg with
    ⟨fuel, fs, last, hRun, hPkt, hOffset, hTail⟩
  have hLength : x.firstFragment.data.length = x.firstSize := by
    simp only [FragInput.firstFragment, List.length_take]
    omega
  refine ⟨fuel + 1, x.firstFragment :: fs, last, ?_, hPkt, hOffset, ?_⟩
  · simp only [fragSendAll, x.send_first (hEnv 0).1 (hEnv 0).2,
      Option.bind_eq_bind, Option.bind_some, if_true, hRun]
    rfl
  · refine
      { data := ?_
        fits := ?_
        first := ?_
        offset := ?_
        eight := ?_ }
    · rw [List.flatMap_cons, hTail.data]
      exact List.take_append_drop _ _
    · intro f hf
      rcases List.mem_cons.mp hf with rfl | hf
      · rw [Fragment.size, hLength]
        exact hFits
      · exact hTail.fits f hf
    · intro f after hSplit
      rw [List.cons.injEq] at hSplit
      rw [← hSplit.1]
      rfl
    · intro before f after hSplit hBefore
      cases before with
      | nil => exact absurd rfl hBefore
      | cons g before =>
        rw [List.cons_append, List.cons.injEq] at hSplit
        rcases hSplit with ⟨rfl, hSplit⟩
        rcases hTail.offset before f after hSplit with ⟨k, hk, hEq⟩
        refine ⟨k, hk, ?_⟩
        rw [hEq, startAfter, startAfter, List.flatMap_cons, List.length_append, hLength]
        push_cast
        omega
    · intro before f after hSplit hAfter
      cases before with
      | nil =>
        rw [List.nil_append, List.cons.injEq] at hSplit
        rcases hSplit with ⟨rfl, rfl⟩
        rw [hLength]
        simpa using hEight
      | cons g before =>
        rw [List.cons_append, List.cons.injEq] at hSplit
        have hDvd := hTail.eight before f after hSplit.2 hAfter
        simp only [List.cons_ne_nil, if_false, add_zero]
        exact Int.natCast_dvd_natCast.mpr hDvd

/- A datagram of 40 bytes in two snips, over small frames. -/
def sampleInput : FragInput where
  snips := [List.replicate 7 1, List.replicate 33 2]
  datagramSize := 40
  tag := 5
  maxFrag := 16
  datagramSize_le := by decide
  maxFrag_ge := by decide
  maxFrag_le := by decide
  maxFrag_lt := by decide
  length_le := by decide

theorem fragSendAll_covers_sampleInput :
    ∃ fuel fs last,
      fragSendAll 16 (fun _ => ⟨true, true, fun _ => 0⟩) fuel 0
          (sampleInput.entry 0) = some (fs, last) ∧ last.pkt = none ∧
      last.offset = sampleInput.datagram.length ∧ Covers sampleInput fs :=
  fragSendAll_covers sampleInput (fun _ => ⟨true, true, fun _ => 0⟩) (fun _ => ⟨rfl, rfl⟩)

end Riot
