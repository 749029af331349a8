import Riot.Lib.Spans
import Riot.Net.SixlowpanFragRb

/-
  The intervals of the reassembly buffer.

  Each entry owns the slots of one chain of intervals. The
  chains share no slot, and the intervals of one chain are
  apart, so the number of received bytes says when all bytes of
  a datagram were received.
-/

open LinkMem

----
-- Received Bytes
----

namespace Riot

variable {received received' : List FragFrame} {cfg : FragRbConfig}

/-
  The position and the bytes of an uncompressed fragment. A
  fragment after the first has an offset above 0.
-/
def FragFrame.contents
    (f : FragFrame) : Option (Nat × List UInt8) :=
  match f.data with
  | disp :: _ :: _ :: _ :: b :: bs =>
    if disp &&& 0xf8 = 0xc0 then
      if b = sixlowpanUncomp then some (0, bs)
      else if b &&& 0xe0 = 0x60 then none
      else some (0, b :: bs)
    else if disp &&& 0xf8 = 0xe0 then
      if b = 0 then none else some (b.toNat * 8, bs)
    else none
  | _ => none

/- The byte of a datagram that a fragment carries. -/
def FragFrame.byteAt
    (f : FragFrame) (p : Nat) : Option UInt8 :=
  f.contents.bind (fun c =>
    if c.1 ≤ p then c.2[p - c.1]? else none)

/- A received fragment of the datagram carries this byte. -/
def Reads
    (received : List FragFrame) (key : FragKey) (p : Nat) (b : UInt8) : Prop :=
  ∃ f ∈ received, f.key = some key ∧ f.byteAt p = some b

theorem Reads.mono
    {key : FragKey} {p : Nat} {b : UInt8} (h : Reads received key p b)
    (hSub : received ⊆ received') :
    Reads received' key p b := by
  rcases h with ⟨f, hMem, hRest⟩
  exact ⟨f, hSub hMem, hRest⟩

----
-- The Invariant
----

/- The bytes of an interval. -/
def FragRbInt.span
    (i : FragRbInt) : Span :=
  ⟨i.start, i.last + 1 - i.start⟩

/- What an entry in use holds, with its slots. -/
structure FragRbEntry.Holds
    (received : List FragFrame) (ints : Nat → FragRbInt) (e : FragRbEntry) (pkt : List UInt8)
    (is : List Nat) : Prop where
  length_eq : pkt.length = e.datagramSize
  size_lt : e.datagramSize < 2 ^ 11
  inside : ∀ i ∈ is, (ints i).span.stop ≤ e.datagramSize
  apart : (is.map (fun i => (ints i).span)).Pairwise Span.Apart
  current : e.currentSize = ((is.map (fun i => (ints i).span)).map Span.size).sum
  bytes : ∀ i ∈ is, ∀ p, (ints i).span.Contains p → ∃ b, Reads received e.key p b ∧ pkt[p]? = some b

/- The chains of the entries share no slot. -/
structure FragRb.Slots
    (cfg : FragRbConfig) (s : FragRb)
    (slots : Nat → List Nat) : Prop where
  isList : ∀ k, IsList s.links k (slots k)
  disjoint : ∀ k l, k ≠ l → ∀ i ∈ slots k, i ∉ slots l
  inRange : ∀ k, ∀ i ∈ slots k, i < cfg.rbufIntSize

/- What the buffer holds, with the slots of each entry. -/
structure FragRb.Holds
    (cfg : FragRbConfig) (received : List FragFrame) (s : FragRb)
    (slots : Nat → List Nat) : Prop where
  isList : ∀ k, IsList s.links k (slots k)
  disjoint : ∀ k l, k ≠ l → ∀ i ∈ slots k, i ∉ slots l
  inRange : ∀ k, ∀ i ∈ slots k, i < cfg.rbufIntSize
  unused : ∀ k, (s.rbuf k).pkt = none → slots k = []
  entry : ∀ k pkt, (s.rbuf k).pkt = some pkt → (s.rbuf k).Holds received s.rbufInt pkt (slots k)

/- No slot of the entry looks like a free one. -/
def FragRb.Marked
    (s : FragRb) (slots : Nat → List Nat) (k : Nat) : Prop :=
  ∀ i ∈ slots k, (s.rbufInt i).last ≠ 0

/- The state between two fragments. -/
def FragRb.Settled
    (cfg : FragRbConfig) (received : List FragFrame) (s : FragRb) : Prop :=
  ∃ slots, s.Holds cfg received slots ∧ ∀ k, s.Marked slots k

----
-- Complete Datagrams
----

namespace FragRbEntry.Holds

variable {ints ints' : Nat → FragRbInt}
variable {e : FragRbEntry} {pkt : List UInt8} {is : List Nat}

section

variable (h : e.Holds received ints pkt is)

include h

theorem mono
    (hSub : received ⊆ received') :
    e.Holds received' ints pkt is := by
  refine { h with bytes := ?_ }
  intro i hi p hp
  rcases h.bytes i hi p hp with ⟨b, hReads, hByte⟩
  exact ⟨b, hReads.mono hSub, hByte⟩

/- Only the intervals of the entry matter. -/
theorem congr
    (hSame : ∀ i ∈ is, ints' i = ints i) :
    e.Holds received ints' pkt is := by
  have hSpans : is.map (fun i => (ints' i).span) = is.map (fun i => (ints i).span) :=
    List.map_congr_left (fun i hi => by rw [hSame i hi])
  refine
    { length_eq := h.length_eq
      size_lt := h.size_lt
      inside := ?_
      apart := by rw [hSpans]; exact h.apart
      current := by rw [hSpans]; exact h.current
      bytes := ?_ }
  · intro i hi
    rw [hSame i hi]
    exact h.inside i hi
  · intro i hi
    rw [hSame i hi]
    exact h.bytes i hi

theorem spans_inside :
    ∀ r ∈ is.map (fun i => (ints i).span), r.stop ≤ e.datagramSize := by
  intro r hr
  rcases List.mem_map.mp hr with ⟨i, hi, rfl⟩
  exact h.inside i hi

theorem currentSize_le :
    e.currentSize ≤ e.datagramSize := by
  rw [h.current]
  exact sum_size_le h.apart h.spans_inside

/- All bytes were received when the numbers agree. -/
theorem complete
    (hFull : e.currentSize = e.datagramSize) {p : Nat} (hp : p < e.datagramSize) :
    ∃ b, Reads received e.key p b ∧ pkt[p]? = some b := by
  have hSum := h.current
  rw [hFull] at hSum
  rcases exists_contains_of_sum_eq h.apart h.spans_inside hSum.symm hp with ⟨r, hr, hIn⟩
  rcases List.mem_map.mp hr with ⟨i, hi, rfl⟩
  exact h.bytes i hi p hIn

end

end FragRbEntry.Holds

----
-- Chains
----

namespace FragRb.Holds

variable {s : FragRb}
variable {slots : Nat → List Nat}

theorem mono
    (h : s.Holds cfg received slots) (hSub : received ⊆ received') :
    s.Holds cfg received' slots := by
  refine { h with entry := ?_ }
  intro k pkt hPkt
  exact (h.entry k pkt hPkt).mono hSub

theorem toSlots
    (h : s.Holds cfg received slots) :
    s.Slots cfg slots :=
  ⟨h.isList, h.disjoint, h.inRange⟩

end FragRb.Holds

/- Only the links matter. -/
theorem FragRb.Slots.congr
    {s s' : FragRb} {slots : Nat → List Nat} (h : s.Slots cfg slots)
    (hLinks : s'.links = s.links) :
    s'.Slots cfg slots := by
  refine ⟨?_, h.disjoint, h.inRange⟩
  intro k
  rw [hLinks]
  exact h.isList k

/- A chain is not longer than the array. -/
theorem FragRb.Slots.length_lt
    {s : FragRb} {slots : Nat → List Nat} (h : s.Slots cfg slots) (k : Nat) :
    (slots k).length < cfg.rbufIntSize + 1 := by
  have hSub : slots k ⊆ List.range cfg.rbufIntSize := by
    intro i hi
    exact List.mem_range.mpr (h.inRange k i hi)
  have hLe := (List.subperm_of_subset (h.isList k).1 hSub).length_le
  rw [List.length_range] at hLe
  omega

theorem FragRb.Settled.mono
    {s : FragRb} (h : s.Settled cfg received) (hSub : received ⊆ received') :
    s.Settled cfg received' := by
  rcases h with ⟨slots, hHolds, hMarked⟩
  exact ⟨slots, hHolds.mono hSub, hMarked⟩

theorem FragRb.settled_init
    (cfg : FragRbConfig) :
    FragRb.init.Settled cfg [] := by
  refine ⟨fun _ => [], ?_, ?_⟩
  · exact
      { isList := fun _ => IsList.nil_iff.mpr rfl
        disjoint := by simp
        inRange := by simp
        unused := fun _ _ => rfl
        entry := by simp [FragRb.init] }
  · simp [FragRb.Marked]

----
-- Checking a Fragment
----

section

variable {s : FragRb} {offset fragSize : Nat}

theorem fragLast_eq
    (hPos : 0 < fragSize) (hFits : offset + fragSize < 2 ^ 11) :
    fragLast offset fragSize = offset + fragSize - 1 := by
  unfold fragLast
  omega

/- An interval that neither overlaps nor is the same. -/
theorem apart_of_not_overlap
    {i new : FragRbInt}
    (hOverlap : rbufIntOverlapPartially i new.start new.last = false)
    (hStart : i.start ≠ new.start) :
    new.span.Apart i.span := by
  intro x hNew hOld
  unfold rbufIntOverlapPartially at hOverlap
  simp only [Span.contains_iff, FragRbInt.span] at hNew hOld
  simp only [Bool.and_eq_false_iff, Bool.or_eq_false_iff,
    decide_eq_false_iff_not, bne_eq_false_iff_eq] at hOverlap
  omega

/- The interval that is stored for a fragment. -/
def fragInt
    (offset fragSize : Nat) : FragRbInt :=
  ⟨offset % 2 ^ 16, fragLast offset fragSize⟩

theorem fragInt_span
    (hPos : 0 < fragSize) (hFits : offset + fragSize < 2 ^ 11) :
    (fragInt offset fragSize).span = ⟨offset, fragSize⟩ := by
  have hMod : offset % 2 ^ 16 = offset := by
    omega
  have hLen : offset + fragSize - 1 + 1 - offset = fragSize := by
    omega
  rw [fragInt, FragRbInt.span, fragLast_eq hPos hFits, hMod, hLen]

theorem checkFragments_spec
    {p : Link Nat} {is : List Nat} {fuel : Nat} (hSeg : Seg s.links p is .null)
    (hFuel : is.length < fuel) (hFits : offset < 2 ^ 16) :
    ∃ r, checkFragments s fragSize offset fuel p = some r ∧
      (r = .success → ∀ i ∈ is, (fragInt offset fragSize).span.Apart (s.rbufInt i).span) := by
  induction is generalizing p fuel with
  | nil =>
    obtain ⟨fuel, rfl⟩ : ∃ n, fuel = n + 1 := ⟨fuel - 1, by simp at hFuel; omega⟩
    simp only [Seg] at hSeg
    subst hSeg
    exact ⟨_, rfl, by simp⟩
  | cons i is ih =>
    obtain ⟨fuel, rfl⟩ : ∃ n, fuel = n + 1 := ⟨fuel - 1, by simp at hFuel; omega⟩
    rcases hSeg with ⟨rfl, hRest⟩
    unfold checkFragments
    split
    · exact ⟨_, rfl, by simp⟩
    · rename_i hOverlap
      split
      · exact ⟨_, rfl, by simp⟩
      · rename_i hStart
        rcases ih hRest (by simpa using hFuel) with ⟨r, hCheck, hApart⟩
        refine ⟨r, hCheck, ?_⟩
        intro hr j hj
        rcases List.mem_cons.mp hj with rfl | hj
        · apply apart_of_not_overlap
          · simpa [fragInt] using hOverlap
          · rw [fragInt, Nat.mod_eq_of_lt hFits]
            exact hStart
        · exact hApart hr j hj

end

----
-- Removing an Entry
----

section

variable {s : FragRb} {k : Nat}

/- The slots of the chain are cleared, and nothing else. -/
theorem fragRbBaseRm_spec
    {is : List Nat} {fuel : Nat} (hList : IsList s.links k is)
    (hFuel : is.length < fuel) :
    ∃ links ints, fragRbBaseRm k fuel s = some
        { links := links
          rbufInt := ints
          rbuf := Function.update s.rbuf k { s.rbuf k with datagramSize := 0 } } ∧
      links (.head k) = .null ∧ (∀ l, l ≠ k → links (.head l) = s.links (.head l)) ∧
      (∀ i, i ∉ is → links (.entry i) = s.links (.entry i)) ∧
      (∀ i, i ∉ is → ints i = s.rbufInt i) := by
  induction is generalizing s fuel with
  | nil =>
    obtain ⟨fuel, rfl⟩ : ∃ n, fuel = n + 1 := ⟨fuel - 1, by simp at hFuel; omega⟩
    have hNull := IsList.nil_iff.mp hList
    unfold fragRbBaseRm
    rw [hNull]
    exact ⟨s.links, s.rbufInt, rfl, hNull, fun _ _ => rfl, fun _ _ => rfl, fun _ _ => rfl⟩
  | cons i is ih =>
    obtain ⟨fuel, rfl⟩ : ∃ n, fuel = n + 1 := ⟨fuel - 1, by simp at hFuel; omega⟩
    rcases hList with ⟨hNodup, hHead, hRest⟩
    rcases List.nodup_cons.mp hNodup with ⟨hNot, hTail⟩
    have hList' :
        IsList ((s.links.set (.entry i) .null).set (.head k) (s.links (.entry i))) k is := by
      refine ⟨hTail, ?_⟩
      rw [set_same]
      exact (hRest.set_of_notMem hNot).set_head
    have hFuel' : is.length < fuel := by
      simpa using hFuel
    have hNext := ih
      (s := { s with
          rbufInt := Function.update s.rbufInt i ⟨0, 0⟩
          links := (s.links.set (.entry i) .null).set (.head k) (s.links (.entry i)) })
      hList' hFuel'
    rcases hNext with ⟨links, ints, hRm, hHead', hHeads, hEntries, hInts⟩
    dsimp only at hRm hHeads hEntries hInts
    unfold fragRbBaseRm
    refine ⟨links, ints, ?_, hHead', ?_, ?_, ?_⟩
    · rw [hHead]
      exact hRm
    · intro l hl
      rw [hHeads l hl, set_of_ne _ _ (by simpa using hl), set_entry_head]
    · intro j hj
      rcases not_or.mp (mt List.mem_cons.mpr hj) with ⟨hNe, hj⟩
      rw [hEntries j hj, set_head_entry, set_of_ne _ _ (by simpa using hNe)]
    · intro j hj
      rcases not_or.mp (mt List.mem_cons.mpr hj) with ⟨hNe, hj⟩
      rw [hInts j hj, Function.update_of_ne hNe]

/- The entry gives its slots back, and keeps the others. -/
theorem fragRbRemove_slots
    {slots : Nat → List Nat} (hSlots : s.Slots cfg slots) :
    ∃ s', fragRbRemove cfg s k = some s' ∧ s'.Slots cfg (Function.update slots k []) ∧
      (∀ l, l ≠ k → ∀ i ∈ slots l, s'.rbufInt i = s.rbufInt i) ∧
      s'.rbuf = Function.update s.rbuf k
        { s.rbuf k with
          datagramSize := 0
          pkt := none } := by
  rcases fragRbBaseRm_spec (hSlots.isList k)
      (hSlots.length_lt k) with
    ⟨links, ints, hRm, hHead, hHeads, hEntries, hInts⟩
  have hElse : ∀ l, l ≠ k → ∀ i ∈ slots l, i ∉ slots k := fun l hl => hSlots.disjoint l k hl
  unfold fragRbRemove
  rw [hRm]
  refine ⟨_, rfl, ?_, ?_, ?_⟩
  · constructor
    · intro l
      by_cases hl : l = k
      · subst hl
        rw [Function.update_self]
        exact IsList.nil_iff.mpr hHead
      · rw [Function.update_of_ne hl]
        exact (hSlots.isList l).congr (hHeads l hl) (fun i hi => hEntries i (hElse l hl i hi))
    · intro l m hlm i hi
      by_cases hl : l = k
      · subst hl
        rw [Function.update_self] at hi
        cases hi
      · rw [Function.update_of_ne hl] at hi
        by_cases hm : m = k
        · subst hm
          rw [Function.update_self]
          exact List.not_mem_nil
        · rw [Function.update_of_ne hm]
          exact hSlots.disjoint l m hlm i hi
    · intro l i hi
      by_cases hl : l = k
      · subst hl
        rw [Function.update_self] at hi
        cases hi
      · rw [Function.update_of_ne hl] at hi
        exact hSlots.inRange l i hi
  · intro l hl i hi
    exact hInts i (hElse l hl i hi)
  · simp

/- The entry gives its slots back. -/
theorem fragRbRemove_spec
    {slots : Nat → List Nat} (hHolds : s.Holds cfg received slots)
    (hMarked : ∀ l, l ≠ k → s.Marked slots l) :
    ∃ s', fragRbRemove cfg s k = some s' ∧ s'.Settled cfg received ∧ (s'.rbuf k).pkt = none ∧
      ∀ l, l ≠ k → s'.rbuf l = s.rbuf l := by
  rcases fragRbRemove_slots (k := k) hHolds.toSlots with ⟨s', hRemove, hSlots, hInts, hRbuf⟩
  refine ⟨s', hRemove, ⟨Function.update slots k [], ?_, ?_⟩, ?_, ?_⟩
  · refine
      { isList := hSlots.isList
        disjoint := hSlots.disjoint
        inRange := hSlots.inRange
        unused := ?_
        entry := ?_ }
    · intro l hPkt
      by_cases hl : l = k
      · subst hl
        exact Function.update_self ..
      · rw [hRbuf, Function.update_of_ne hl] at hPkt
        rw [Function.update_of_ne hl]
        exact hHolds.unused l hPkt
    · intro l pkt hPkt
      by_cases hl : l = k
      · subst hl
        rw [hRbuf, Function.update_self] at hPkt
        cases hPkt
      · rw [hRbuf, Function.update_of_ne hl] at hPkt ⊢
        rw [Function.update_of_ne hl]
        exact (hHolds.entry l pkt hPkt).congr (hInts l hl)
  · intro l i hi
    by_cases hl : l = k
    · subst hl
      rw [Function.update_self] at hi
      cases hi
    · rw [Function.update_of_ne hl] at hi
      rw [hInts l hl i hi]
      exact hMarked l hl i hi
  · rw [hRbuf, Function.update_self]
  · intro l hl
    rw [hRbuf, Function.update_of_ne hl]

/- Old entries are removed. -/
theorem fragRbGcFrom_spec
    {nowUsec : UInt32} {is : List Nat} (hSettled : s.Settled cfg received) :
    ∃ s', fragRbGcFrom cfg nowUsec is s = some s' ∧ s'.Settled cfg received := by
  induction is generalizing s with
  | nil => exact ⟨s, rfl, hSettled⟩
  | cons i is ih =>
    unfold fragRbGcFrom
    split
    · rcases hSettled with ⟨slots, hHolds, hMarked⟩
      rcases fragRbRemove_spec (k := i) hHolds
          (fun l _ => hMarked l) with
        ⟨s', hRemove, hSettled', _⟩
      rw [hRemove]
      exact ih hSettled'
    · exact ih hSettled

theorem fragRbGc_spec
    (nowUsec : UInt32) (hSettled : s.Settled cfg received) :
    ∃ s', fragRbGc cfg nowUsec s = some s' ∧ s'.Settled cfg received :=
  fragRbGcFrom_spec hSettled

end

----
-- Adding an Interval
----

section

variable {s s' : FragRb}
variable {slots : Nat → List Nat} {k offset fragSize : Nat}

/- The bytes of a new interval are in the packet. -/
theorem FragRbEntry.Holds.cons
    {ints ints' : Nat → FragRbInt} {e : FragRbEntry} {pkt pkt' payload : List UInt8}
    {is : List Nat} {new : Nat} (h : e.Holds received ints pkt is)
    (hSame : ∀ i ∈ is, ints' i = ints i)
    (hNew : (ints' new).span = ⟨offset, payload.length⟩)
    (hApart : ∀ i ∈ is, (Span.mk offset payload.length).Apart (ints i).span)
    (hFits : offset + payload.length ≤ e.datagramSize)
    (hReads : ∀ j b, payload[j]? = some b → Reads received e.key (offset + j) b)
    (hWrite : ByteBuffer.writeBytes pkt offset payload = some pkt') :
    FragRbEntry.Holds received ints'
      { e with
        currentSize := e.currentSize + payload.length
        pkt := some pkt' } pkt' (new :: is) := by
  have hOld := h.congr hSame
  constructor
  · have hRoom : offset + payload.length ≤ pkt.length := by
      rw [h.length_eq]
      exact hFits
    rcases ByteBuffer.length_writeBytes pkt payload offset hRoom with ⟨pkt'', hWrite', hLen⟩
    cases hWrite.symm.trans hWrite'
    exact hLen.trans h.length_eq
  · exact h.size_lt
  · intro i hi
    rcases List.mem_cons.mp hi with rfl | hi
    · rw [hNew]
      exact hFits
    · exact hOld.inside i hi
  · rw [List.map_cons, hNew]
    refine List.Pairwise.cons ?_ hOld.apart
    intro r hr
    rcases List.mem_map.mp hr with ⟨i, hi, rfl⟩
    rw [hSame i hi]
    exact hApart i hi
  · rw [List.map_cons, List.map_cons, List.sum_cons, hNew, ← hOld.current]
    exact Nat.add_comm _ _
  · intro i hi p hp
    rw [ByteBuffer.getElem?_writeBytes hWrite]
    rcases List.mem_cons.mp hi with rfl | hi
    · rw [hNew, Span.contains_iff] at hp
      dsimp only at hp
      have hLt : p - offset < payload.length := by
        omega
      rw [if_pos hp]
      refine ⟨payload[p - offset], ?_, List.getElem?_eq_getElem hLt⟩
      have hAt := hReads (p - offset) _ (List.getElem?_eq_getElem hLt)
      rwa [Nat.add_sub_of_le hp.1] at hAt
    · have hOut : ¬ (offset ≤ p ∧ p < offset + payload.length) := by
        intro hIn
        rw [hSame i hi] at hp
        exact hApart i hi p hIn hp
      rw [if_neg hOut]
      exact hOld.bytes i hi p hp

/- A slot that is in no chain is put in front of one. -/
theorem FragRb.Slots.cons
    {new : Nat} (h : s.Slots cfg slots) (hNew : new < cfg.rbufIntSize)
    (hNot : ∀ l, new ∉ slots l) (hList : IsList s'.links k (new :: slots k))
    (hLists : ∀ l, l ≠ k → IsList s'.links l (slots l)) :
    s'.Slots cfg (Function.update slots k (new :: slots k)) := by
  have hApart : ∀ m, m ≠ k → ∀ i ∈ new :: slots k, i ∉ slots m := by
    intro m hm i hi hIn
    rcases List.mem_cons.mp hi with rfl | hi
    · exact hNot m hIn
    · exact h.disjoint k m (Ne.symm hm) i hi hIn
  constructor
  · intro l
    by_cases hl : l = k
    · subst hl
      rw [Function.update_self]
      exact hList
    · rw [Function.update_of_ne hl]
      exact hLists l hl
  · intro l m hlm i hi hm
    by_cases hl : l = k
    · subst hl
      rw [Function.update_of_ne (Ne.symm hlm)] at hm
      rw [Function.update_self] at hi
      exact hApart m (Ne.symm hlm) i hi hm
    · rw [Function.update_of_ne hl] at hi
      by_cases hmk : m = k
      · subst hmk
        rw [Function.update_self] at hm
        exact hApart l hl i hm hi
      · rw [Function.update_of_ne hmk] at hm
        exact h.disjoint l m hlm i hi hm
  · intro l i hi
    by_cases hl : l = k
    · subst hl
      rw [Function.update_self] at hi
      rcases List.mem_cons.mp hi with rfl | hi
      · exact hNew
      · exact h.inRange l i hi
    · rw [Function.update_of_ne hl] at hi
      exact h.inRange l i hi

/- The slot of a new interval was not in use. -/
theorem rbufUpdateInts_spec
    (hSlots : s.Slots cfg slots) (hMarked : ∀ l, s.Marked slots l)
    (hUpdate : rbufUpdateInts cfg s k offset fragSize = some s') :
    ∃ new, (∀ l, new ∉ slots l) ∧ s'.rbuf = s.rbuf ∧ s'.rbufInt new = fragInt offset fragSize ∧
      (∀ i, i ≠ new → s'.rbufInt i = s.rbufInt i) ∧
      s'.Slots cfg (Function.update slots k (new :: slots k)) := by
  unfold rbufUpdateInts at hUpdate
  rcases Option.bind_eq_some_iff.mp hUpdate with ⟨new, hFree, hs'⟩
  cases hs'
  have hMem := List.mem_of_find?_eq_some hFree
  have hLast : (s.rbufInt new).last = 0 := by
    simpa using List.find?_some hFree
  have hNot : ∀ l, new ∉ slots l := fun l hIn => hMarked l new hIn hLast
  refine ⟨new, hNot, rfl, ?_, ?_, ?_⟩
  · exact Function.update_self ..
  · intro i hi
    exact Function.update_of_ne hi ..
  · apply hSlots.cons (List.mem_range.mp hMem) hNot
    · rcases hSlots.isList k with ⟨hNodup, hSeg⟩
      refine ⟨List.nodup_cons.mpr ⟨hNot k, hNodup⟩, ?_⟩
      dsimp only
      rw [set_same]
      refine ⟨rfl, ?_⟩
      rw [set_head_entry, set_same]
      exact (hSeg.set_of_notMem (hNot k)).set_head
    · intro l hl
      apply (hSlots.isList l).congr
      · dsimp only
        rw [set_of_ne _ _ (by simpa using hl), set_entry_head]
      · intro i hi
        have hNe : i ≠ new := by
          rintro rfl
          exact hNot l hi
        dsimp only
        rw [set_head_entry, set_of_ne _ _ (by simpa using hNe)]

end

end Riot
