import Riot.Lib.System
import Riot.Net.RbIntervals

/-
  Datagrams that the reassembly buffer hands on.

  The fragments of any number of datagrams arrive in any order,
  some of them twice or never. A datagram is dispatched when the
  number of its bytes is reached, and then each of its bytes is
  the byte of a received fragment.
-/

open ByteBuffer

----
-- Reading a Fragment
----

namespace Riot

variable {f : FragFrame} {payload : List UInt8}

/-
  Fragments as RFC 4944 has them: not empty, and a multiple of
  8 bytes unless the datagram ends there.
-/
def FragFrame.WellFormed
    (f : FragFrame) : Prop :=
  match f.contents with
  | some (offset, payload) =>
    payload ≠ [] ∧
      (payload.length % 8 = 0 ∨ some (offset + payload.length) = f.key.map FragKey.size)
  | none => False

instance
    (f : FragFrame) :
    Decidable f.WellFormed := by
  unfold FragFrame.WellFormed
  split <;> infer_instance

/- Write the payload of a fragment into its packet. -/
def writePayload
    (s : FragRb) (k offset : Nat) (payload : List UInt8) : Option (FragRb × RbufAdd) := do
  let pkt ← (s.rbuf k).pkt
  let pkt ← writeBytes pkt offset payload
  some ({ s with rbuf := Function.update s.rbuf k { s.rbuf k with pkt := some pkt } }, .entry k)

/- How the code reads a fragment with these contents. -/
structure FragFrame.ReadAs
    (f : FragFrame) (offset : Nat) (payload : List UInt8) (pos : Nat)
    (key : FragKey) : Prop where
  valid : validOffset f.data offset = some true
  start : sixloFragPayload f.data = some pos
  size : sixloFragSize f.data offset pos = some payload.length
  key_eq : f.key = some key
  size_lt : key.size < 2 ^ 11
  data :
    ∀ cfg env s k,
      rbufAddPayload cfg env s f k offset payload.length pos = writePayload s k offset payload
  recv :
    ∀ cfg env again netifHdrBuild s, gnrcSixlowpanFragRecv cfg env again netifHdrBuild s f =
        (fragRbAdd cfg env again s f offset).bind (fun r =>
          match r.2 with
          | some k => fragRbDispatchWhenComplete cfg netifHdrBuild r.1 k
          | none => some (r.1, none))

theorem FragFrame.key_of_data
    {b₀ b₁ b₂ b₃ : UInt8} {rest : List UInt8}
    (hData : f.data = b₀ :: b₁ :: b₂ :: b₃ :: rest) :
    ∃ key, f.key = some key ∧ key.size < 2 ^ 11 := by
  refine ⟨⟨f.src, f.dst, fromNetwork [b₀, b₁] &&& 0x07ff, fromNetwork [b₂, b₃]⟩, ?_, ?_⟩
  · simp [FragFrame.key, sixlowpanFragDatagramSize, sixlowpanFragDatagramTag, readBytes, hData]
  · exact Nat.lt_of_le_of_lt Nat.and_le_right (by decide)

theorem rbufAddData_eq
    {s : FragRb} {k offset n pos : Nat}
    (hRead : readBytes f.data pos n = some payload) :
    rbufAddData s f k offset n pos = writePayload s k offset payload := by
  unfold rbufAddData writePayload
  rw [hRead]
  rfl

/- The rest of a frame from a position on. -/
theorem readBytes_rest
    {data rest : List UInt8} {pos : Nat} (hDrop : data.drop pos = rest)
    (hPos : pos ≤ data.length) :
    readBytes data pos rest.length = some rest := by
  apply readBytes_of_drop
  · rw [hDrop, List.append_nil]
  · rw [length_of_drop hDrop hPos]

/- A first fragment starts after 4 bytes. -/
theorem FragFrame.readAs_first
    {disp b₁ b₂ b₃ b : UInt8} {bs payload : List UInt8}
    (hData : f.data = disp :: b₁ :: b₂ :: b₃ :: b :: bs)
    (hDisp : disp &&& 0xf8 = 0xc0) (hIphc : b &&& 0xe0 ≠ 0x60)
    (hPayload : payload = if b = sixlowpanUncomp then bs else b :: bs) :
    ∃ key, f.ReadAs 0 payload 4 key := by
  rcases FragFrame.key_of_data hData with ⟨key, hKey, hSize⟩
  refine ⟨key, ?_, ?_, ?_, hKey, hSize, ?_, ?_⟩
  · simp [validOffset, sixlowpanFrag1Is, hData, hDisp]
  · simp [sixloFragPayload, sixlowpanFrag1Is, hData, hDisp]
  · by_cases hUncomp : b = sixlowpanUncomp
    · simp [sixloFragSize, hData, hPayload, hUncomp]
    · simp [sixloFragSize, hData, hPayload, hUncomp]
  · intro cfg env s k
    have hByte : f.data[4]? = some b := by
      simp [hData]
    have hNot : sixlowpanIphcIs f.data 4 = some false := by
      simp [sixlowpanIphcIs, hByte, hIphc]
    by_cases hUncomp : b = sixlowpanUncomp
    · rw [if_pos hUncomp] at hPayload
      have hRead : readBytes f.data 5 payload.length = some payload :=
        readBytes_rest (by simp [hData, hPayload]) (by simp [hData])
      simp [rbufAddPayload, hNot, hByte, hUncomp, rbufAddData_eq hRead]
    · rw [if_neg hUncomp] at hPayload
      have hRead : readBytes f.data 4 payload.length = some payload :=
        readBytes_rest (by simp [hData, hPayload]) (by simp [hData])
      simp [rbufAddPayload, hNot, hByte, hUncomp, rbufAddData_eq hRead]
  · intro cfg env again netifHdrBuild s
    have hFirst : sixlowpanFrag1Is f.data = some true := by
      simp [sixlowpanFrag1Is, hData, hDisp]
    have hNth : sixlowpanFragNIs f.data = some false := by
      simp [sixlowpanFragNIs, hData, hDisp]
    simp only [gnrcSixlowpanFragRecv, hFirst, hNth, Option.bind_eq_bind, Option.bind_some]
    rfl

/- A later fragment starts after 5 bytes. -/
theorem FragFrame.readAs_nth
    {disp b₁ b₂ b₃ b : UInt8}
    (hData : f.data = disp :: b₁ :: b₂ :: b₃ :: b :: payload)
    (hDisp : disp &&& 0xf8 = 0xe0) (hOffset : b ≠ 0) :
    ∃ key, f.ReadAs (b.toNat * 8) payload 5 key := by
  rcases FragFrame.key_of_data hData with ⟨key, hKey, hSize⟩
  have hNe : b.toNat * 8 ≠ 0 := by
    intro hZero
    apply hOffset
    apply UInt8.toNat_inj.mp
    rw [UInt8.toNat_zero]
    omega
  have hFirst : sixlowpanFrag1Is f.data = some false := by
    simp [sixlowpanFrag1Is, hData, hDisp]
  have hNth : sixlowpanFragNIs f.data = some true := by
    simp [sixlowpanFragNIs, hData, hDisp]
  have hAt : sixlowpanFragOffset f.data = some (b.toNat * 8) := by
    simp [sixlowpanFragOffset, hData]
  refine ⟨key, ?_, ?_, ?_, hKey, hSize, ?_, ?_⟩
  · simp [validOffset, hFirst, hNth, hAt]
  · simp [sixloFragPayload, hFirst]
  · simp [sixloFragSize, hData, hNe]
  · intro cfg env s k
    have hRead : readBytes f.data 5 payload.length = some payload :=
      readBytes_rest (by simp [hData]) (by simp [hData])
    simp [rbufAddPayload, hNe, rbufAddData_eq hRead]
  · intro cfg env again netifHdrBuild s
    simp only [gnrcSixlowpanFragRecv, hFirst, hNth, hAt, Option.bind_eq_bind, Option.bind_some]
    rfl

theorem FragFrame.readAs_of_contents
    {offset : Nat} (hContents : f.contents = some (offset, payload)) :
    ∃ pos key, f.ReadAs offset payload pos key := by
  unfold FragFrame.contents at hContents
  split at hContents
  · rename_i disp b₁ b₂ b₃ b bs hData
    split at hContents
    · rename_i hDisp
      split at hContents
      · rename_i hUncomp
        cases hContents
        exact ⟨4, FragFrame.readAs_first hData hDisp
          (by rw [hUncomp]; decide) (if_pos hUncomp).symm⟩
      · rename_i hUncomp
        split at hContents
        · cases hContents
        · rename_i hIphc
          cases hContents
          exact ⟨4, FragFrame.readAs_first hData hDisp hIphc (if_neg hUncomp).symm⟩
    · split at hContents
      · rename_i hDisp
        split at hContents
        · cases hContents
        · rename_i hOffset
          cases hContents
          exact ⟨5, FragFrame.readAs_nth hData hDisp hOffset⟩
      · cases hContents
  · cases hContents

theorem FragFrame.byteAt_of_contents
    {offset j : Nat} {b : UInt8} (hContents : f.contents = some (offset, payload))
    (hByte : payload[j]? = some b) :
    f.byteAt (offset + j) = some b := by
  simp [FragFrame.byteAt, hContents, hByte]

----
-- Finding an Entry
----

section

variable {cfg : FragRbConfig} {env : FragRbEnv} {received : List FragFrame}
variable {s : FragRb} {key : FragKey}

/- The entry is in use for the datagram. -/
def KeptFor
    (s : FragRb) (key : FragKey) (k : Nat) : Prop :=
  (s.rbuf k).pkt.isSome = true ∧ (s.rbuf k).key = key

/- What the search says about the entries it passed. -/
def SearchOk
    (s : FragRb) (key : FragKey) (is : List Nat)
    (res oldest : Option Nat) : RbufSearch → Prop
| .found i => KeptFor s key i
| .spots (some i) _ => (s.rbuf i).pkt = none
| .spots none none => is = [] ∧ oldest = none
| .spots none (some o) =>
  res = none ∧ (∀ i ∈ is, (s.rbuf i).pkt ≠ none) ∧ (o ∈ is ∨ oldest = some o)

theorem SearchOk.cons
    {i : Nat} {is : List Nat} {res res' oldest oldest' : Option Nat} {r : RbufSearch}
    (h : SearchOk s key is res' oldest' r)
    (hRes : res' = none → res = none ∧ (s.rbuf i).pkt ≠ none)
    (hOldest : ∃ o, oldest' = some o ∧ (o = i ∨ oldest = some o)) :
    SearchOk s key (i :: is) res oldest r := by
  rcases hOldest with ⟨o', rfl, hFrom⟩
  match r with
  | .found _ => exact h
  | .spots (some _) _ => exact h
  | .spots none none => cases h.2
  | .spots none (some o) =>
    rcases h with ⟨hNone, hUsed, hWhere⟩
    rcases hRes hNone with ⟨hRes, hi⟩
    refine ⟨hRes, ?_, ?_⟩
    · intro j hj
      rcases List.mem_cons.mp hj with rfl | hj
      · exact hi
      · exact hUsed j hj
    · rcases hWhere with hMem | hEq
      · exact Or.inl (List.mem_cons_of_mem _ hMem)
      · cases hEq
        rcases hFrom with rfl | hOld
        · exact Or.inl List.mem_cons_self
        · exact Or.inr hOld

theorem rbufSearch_spec
    {is : List Nat} {res oldest : Option Nat}
    (hRes : ∀ i, res = some i → (s.rbuf i).pkt = none) :
    SearchOk s key is res oldest (rbufSearch s key is res oldest) := by
  induction is generalizing res oldest with
  | nil =>
    unfold rbufSearch
    match res, oldest with
    | some i, _ => exact hRes i rfl
    | none, none => exact ⟨rfl, rfl⟩
    | none, some o => exact ⟨rfl, by simp, Or.inr rfl⟩
  | cons i is ih =>
    unfold rbufSearch
    split
    · rename_i hFound
      simpa [SearchOk, KeptFor] using hFound
    · refine (ih ?_).cons ?_ ?_
      · intro j hj
        split at hj
        · rename_i hEmpty
          cases hj
          simp only [Bool.and_eq_true, fragRbEntryEmpty, Option.isNone_iff_eq_none] at hEmpty
          exact hEmpty.2
        · exact hRes j hj
      · intro hNone
        split at hNone
        · cases hNone
        · rename_i hUsed
          subst hNone
          refine ⟨rfl, ?_⟩
          simpa [fragRbEntryEmpty] using hUsed
      · split
        · exact ⟨i, rfl, Or.inl rfl⟩
        · rename_i o
          split
          · exact ⟨i, rfl, Or.inl rfl⟩
          · exact ⟨o, rfl, Or.inr rfl⟩

theorem length_rbufNewPkt
    (size : Nat) :
    (rbufNewPkt env size).length = size := by
  simp only [rbufNewPkt, List.length_append, List.length_replicate, List.length_drop,
    List.length_map, List.length_range]
  omega

variable (env) in
/- A new entry has no slots. -/
theorem rbufTake_spec
    {i : Nat} (hSettled : s.Settled cfg received) (hFree : (s.rbuf i).pkt = none)
    (hSize : key.size < 2 ^ 11) :
    (rbufTake env s key i).1.Settled cfg received ∧
      ∀ k, (rbufTake env s key i).2 = some k → KeptFor (rbufTake env s key i).1 key k := by
  unfold rbufTake
  split
  · rcases hSettled with ⟨slots, hHolds, hMarked⟩
    have hNil := hHolds.unused i hFree
    refine ⟨⟨slots, ?_, hMarked⟩, ?_⟩
    · refine
        { isList := hHolds.isList
          disjoint := hHolds.disjoint
          inRange := hHolds.inRange
          unused := ?_
          entry := ?_ }
      · intro k hPkt
        by_cases hk : k = i
        · subst hk
          exact hNil
        · simp only [Function.update_of_ne hk] at hPkt
          exact hHolds.unused k hPkt
      · intro k pkt hPkt
        by_cases hk : k = i
        · subst hk
          simp only [Function.update_self, Option.some.injEq] at hPkt ⊢
          subst hPkt
          rw [hNil]
          exact
            { length_eq := length_rbufNewPkt key.size
              size_lt := hSize
              inside := by simp
              apart := List.Pairwise.nil
              current := rfl
              bytes := by simp }
        · simp only [Function.update_of_ne hk] at hPkt ⊢
          exact hHolds.entry k pkt hPkt
    · intro k hk
      cases hk
      simp [KeptFor, FragRbEntry.key]
  · exact ⟨hSettled, by simp⟩

/- A new time of arrival changes nothing else. -/
theorem settled_setArrival
    {i : Nat} {now : UInt32} (hSettled : s.Settled cfg received) :
    FragRb.Settled cfg received { s with
        rbuf := Function.update s.rbuf i { s.rbuf i with arrival := now } } := by
  rcases hSettled with ⟨slots, hHolds, hMarked⟩
  refine ⟨slots, ?_, hMarked⟩
  refine
    { isList := hHolds.isList
      disjoint := hHolds.disjoint
      inRange := hHolds.inRange
      unused := ?_
      entry := ?_ }
  · intro k hPkt
    by_cases hk : k = i
    · subst hk
      simp only [Function.update_self] at hPkt
      exact hHolds.unused k hPkt
    · simp only [Function.update_of_ne hk] at hPkt
      exact hHolds.unused k hPkt
  · intro k pkt hPkt
    by_cases hk : k = i
    · subst hk
      simp only [Function.update_self] at hPkt ⊢
      have hOld := hHolds.entry k pkt hPkt
      exact
        { length_eq := hOld.length_eq
          size_lt := hOld.size_lt
          inside := hOld.inside
          apart := hOld.apart
          current := hOld.current
          bytes := hOld.bytes }
    · simp only [Function.update_of_ne hk] at hPkt ⊢
      exact hHolds.entry k pkt hPkt

variable (env) in
theorem rbufGet_spec
    (hSettled : s.Settled cfg received) (hSize : key.size < 2 ^ 11) :
    ∃ s' res, rbufGet cfg env s key = some (s', res) ∧ s'.Settled cfg received ∧
      ∀ k, res = some k → KeptFor s' key k := by
  have hSearch : SearchOk s key (List.range cfg.rbufSize)
      none none
      (rbufSearch s key (List.range cfg.rbufSize) none none) :=
    rbufSearch_spec (by simp)
  unfold rbufGet
  match hr : rbufSearch s key (List.range cfg.rbufSize)
      none none with
  | .found i =>
    rw [hr] at hSearch
    refine ⟨_, _, rfl, settled_setArrival hSettled, ?_⟩
    intro k hk
    cases hk
    rcases hSearch with ⟨hPkt, hKey⟩
    refine ⟨by simpa using hPkt, ?_⟩
    simpa [FragRbEntry.key] using hKey
  | .spots (some i) _ =>
    rw [hr] at hSearch
    have hTake := rbufTake_spec env hSettled hSearch hSize
    exact ⟨_, _, rfl, hTake.1, hTake.2⟩
  | .spots none none =>
    rw [hr] at hSearch
    have hEmpty := hSearch.1
    rw [List.range_eq_nil] at hEmpty
    have hPos := cfg.rbufSize_pos
    omega
  | .spots none (some o) =>
    rw [hr] at hSearch
    rcases hSearch with ⟨_, hUsed, hWhere⟩
    have hMem : o ∈ List.range cfg.rbufSize := by
      simpa using hWhere
    have hEmpty : fragRbEntryEmpty (s.rbuf o) = false := by
      have hSome := Option.isSome_iff_ne_none.mpr (hUsed o hMem)
      simpa [fragRbEntryEmpty] using hSome
    dsimp only
    rw [hEmpty]
    simp only [Bool.false_eq_true, if_false]
    split
    · rcases hSettled with ⟨slots, hHolds, hMarked⟩
      rcases fragRbRemove_spec (k := o) hHolds
          (fun l _ => hMarked l) with
        ⟨s', hRemove, hSettled', hFree, _⟩
      have hTake := rbufTake_spec env hSettled' hFree hSize
      rw [hRemove]
      exact ⟨_, _, rfl, hTake.1, hTake.2⟩
    · exact ⟨s, none, rfl, hSettled, by simp⟩

end

----
-- Adding a Fragment
----

section

variable {cfg : FragRbConfig} {env : FragRbEnv} {received : List FragFrame}
variable {s : FragRb} {key : FragKey} {k offset pos : Nat}

/-
  The state after a fragment was added to an entry. The slot
  of a datagram of one byte looks free, and the datagram is
  complete.
-/
structure Added
    (cfg : FragRbConfig) (received : List FragFrame) (s : FragRb) (key : FragKey) (k : Nat)
    (slots : Nat → List Nat) : Prop where
  holds : s.Holds cfg received slots
  others : ∀ l, l ≠ k → s.Marked slots l
  marked : s.Marked slots k ∨ (s.rbuf k).currentSize = (s.rbuf k).datagramSize
  kept : KeptFor s key k

def AddOk
    (cfg : FragRbConfig) (received : List FragFrame) (s : FragRb)
    (key : FragKey) : RbufAdd → Prop
| .entry k => ∃ slots, Added cfg received s key k slots
| _ => s.Settled cfg received

/- A fragment that the check lets through is added. -/
theorem writePayload_spec
    {slots : Nat → List Nat} {s₁ : FragRb} (hHolds : s.Holds cfg received slots)
    (hMarked : ∀ l, s.Marked slots l) (hKept : KeptFor s key k)
    (hPos : 0 < payload.length) (hFits : offset + payload.length ≤ key.size)
    (hEnd : payload.length % 8 = 0 ∨ offset + payload.length = key.size)
    (hApart : ∀ i ∈ slots k, (Span.mk offset payload.length).Apart (s.rbufInt i).span)
    (hReads : ∀ j b, payload[j]? = some b → Reads received key (offset + j) b)
    (hUpdate : rbufUpdateInts cfg s k offset payload.length = some s₁) :
    ∃ s' slots', writePayload { s₁ with
          rbuf := Function.update s₁.rbuf k { s₁.rbuf k with
              currentSize := ((s₁.rbuf k).currentSize + payload.length % 2 ^ 16) % 2 ^ 16 } }
        k offset payload = some (s', .entry k) ∧ Added cfg received s' key k slots' := by
  rcases hKept with ⟨hSome, rfl⟩
  rcases Option.isSome_iff_exists.mp hSome with ⟨pkt, hPkt⟩
  have hEntry := hHolds.entry k pkt hPkt
  have hLt := hEntry.size_lt
  have hFits' : offset + payload.length ≤ (s.rbuf k).datagramSize := hFits
  rcases rbufUpdateInts_spec hHolds.toSlots hMarked hUpdate with
    ⟨new, hNot, hRbuf, hInt, hInts, hSlots⟩
  rcases length_writeBytes pkt payload offset
      (by rw [hEntry.length_eq]; exact hFits) with
    ⟨pkt', hWrite, _⟩
  have hSmall : offset + payload.length < 2 ^ 11 := by
    omega
  have hLast := fragLast_eq hPos hSmall
  have hSpan : (s₁.rbufInt new).span = ⟨offset, payload.length⟩ := by
    rw [hInt, fragInt_span hPos hSmall]
  have hOld : ∀ l, ∀ i ∈ slots l, s₁.rbufInt i = s.rbufInt i := by
    intro l i hi
    apply hInts
    rintro rfl
    exact hNot l hi
  have hCons := hEntry.cons (hOld k) hSpan hApart hFits' hReads hWrite
  have hSum := hCons.currentSize_le
  dsimp only at hSum
  have hCurrent : ((s.rbuf k).currentSize + payload.length % 2 ^ 16) %
          2 ^ 16 = (s.rbuf k).currentSize + payload.length := by
    omega
  unfold writePayload
  simp only [Function.update_self, hRbuf, hPkt, hCurrent, Option.bind_eq_bind, Option.bind_some,
    hWrite, Function.update_idem]
  refine ⟨_, Function.update slots k (new :: slots k), rfl, ?_⟩
  constructor
  · refine
      { isList := hSlots.isList
        disjoint := hSlots.disjoint
        inRange := hSlots.inRange
        unused := ?_
        entry := ?_ }
    · intro l hNone
      by_cases hl : l = k
      · subst hl
        simp at hNone
      · simp only [Function.update_of_ne hl] at hNone ⊢
        exact hHolds.unused l hNone
    · intro l pkt₁ hPkt₁
      by_cases hl : l = k
      · subst hl
        simp only [Function.update_self, Option.some.injEq] at hPkt₁ ⊢
        subst hPkt₁
        exact hCons
      · simp only [Function.update_of_ne hl] at hPkt₁ ⊢
        exact (hHolds.entry l pkt₁ hPkt₁).congr (hOld l)
  · intro l hl i hi
    rw [Function.update_of_ne hl] at hi
    dsimp only
    rw [hOld l i hi]
    exact hMarked l i hi
  · by_cases hOne : offset + payload.length = 1
    · right
      have hSize : offset + payload.length = (s.rbuf k).datagramSize := by
        rcases hEnd with hMul | hEnd
        · omega
        · exact hEnd
      simp only [Function.update_self]
      omega
    · left
      intro i hi
      rw [Function.update_self] at hi
      dsimp only
      rcases List.mem_cons.mp hi with rfl | hi
      · rw [hInt, fragInt, hLast]
        dsimp only
        omega
      · rw [hOld k i hi]
        exact hMarked k i hi
  · exact ⟨by simp, by simp [FragRbEntry.key]⟩

theorem rbufAddTo_spec
    (hSettled : s.Settled cfg received) (hKept : KeptFor s key k)
    (hRead : f.ReadAs offset payload pos key)
    (hContents : f.contents = some (offset, payload)) (hMem : f ∈ received)
    (hPos : 0 < payload.length)
    (hEnd : payload.length % 8 = 0 ∨ offset + payload.length = key.size) :
    ∃ s' r, rbufAddTo cfg env s f k offset payload.length pos = some (s', r) ∧
      AddOk cfg received s' key r := by
  rcases hSettled with ⟨slots, hHolds, hMarked⟩
  rcases fragRbRemove_spec (k := k) hHolds
      (fun l _ => hMarked l) with
    ⟨removed, hRemove, hRemoved, _⟩
  have hSize : (s.rbuf k).datagramSize = key.size := by
    rw [← hKept.2]
    rfl
  have hLt := hRead.size_lt
  unfold rbufAddTo
  rw [hSize]
  split
  · rw [hRemove]
    exact ⟨removed, .error, rfl, hRemoved⟩
  · rename_i hFits
    have hSmall : offset + payload.length < 2 ^ 11 := by
      omega
    rcases checkFragments_spec (hHolds.isList k).2
        (hHolds.toSlots.length_lt k)
        (show offset < 2 ^ 16 by omega) with
      ⟨r, hCheck, hApart⟩
    rw [fragInt_span hPos hSmall] at hApart
    rw [hCheck]
    simp only [Option.bind_eq_bind, Option.bind_some]
    cases r with
    | again =>
      rw [hRemove]
      exact ⟨removed, .again, rfl, hRemoved⟩
    | duplicate =>
      exact ⟨s, .entry k, rfl, slots, hHolds, fun l _ => hMarked l, Or.inl (hMarked k), hKept⟩
    | success =>
      dsimp only
      cases hUpdate : rbufUpdateInts cfg s k offset payload.length with
      | none =>
        rw [hRemove]
        exact ⟨removed, .error, rfl, hRemoved⟩
      | some s₁ =>
        have hReads : ∀ j b, payload[j]? = some b → Reads received key (offset + j) b := by
          intro j b hByte
          exact ⟨f, hMem, hRead.key_eq, f.byteAt_of_contents hContents hByte⟩
        rcases writePayload_spec hHolds hMarked hKept hPos
            (by omega) hEnd (hApart rfl) hReads hUpdate with
          ⟨s', slots', hWrite, hAdded⟩
        refine ⟨s', .entry k, ?_, slots', hAdded⟩
        dsimp only
        rw [hRead.data]
        exact hWrite

variable (env) in
theorem rbufAdd_spec
    (hSettled : s.Settled cfg received) (hRead : f.ReadAs offset payload pos key)
    (hContents : f.contents = some (offset, payload)) (hMem : f ∈ received)
    (hPos : 0 < payload.length)
    (hEnd : payload.length % 8 = 0 ∨ offset + payload.length = key.size) :
    ∃ s' r, rbufAdd cfg env s f offset = some (s', r) ∧ AddOk cfg received s' key r := by
  rcases fragRbGc_spec env.gcNowUsec hSettled with ⟨s₁, hGc, hSettled₁⟩
  rcases rbufGet_spec env hSettled₁ hRead.size_lt with ⟨s₂, res, hGet, hSettled₂, hUse⟩
  unfold rbufAdd
  simp only [hRead.valid, hRead.start, hRead.size, hRead.key_eq, hGc, hGet, Option.bind_eq_bind,
    Option.bind_some, if_true]
  cases res with
  | none => exact ⟨s₂, .error, rfl, hSettled₂⟩
  | some k => exact rbufAddTo_spec hSettled₂ (hUse k rfl) hRead hContents hMem hPos hEnd

variable (env) in
theorem fragRbAdd_spec
    (again : FragRbEnv) (hSettled : s.Settled cfg received)
    (hRead : f.ReadAs offset payload pos key)
    (hContents : f.contents = some (offset, payload)) (hMem : f ∈ received)
    (hPos : 0 < payload.length)
    (hEnd : payload.length % 8 = 0 ∨ offset + payload.length = key.size) :
    ∃ s' res, fragRbAdd cfg env again s f offset = some (s', res) ∧
      (res = none → s'.Settled cfg received) ∧
      ∀ k, res = some k → ∃ slots, Added cfg received s' key k slots := by
  rcases rbufAdd_spec env hSettled hRead hContents hMem hPos hEnd with ⟨s₁, r, hAdd, hOk⟩
  unfold fragRbAdd
  rw [hAdd]
  simp only [Option.bind_eq_bind, Option.bind_some]
  cases r with
  | entry k =>
    refine ⟨s₁, some k, rfl, by simp, ?_⟩
    intro l hl
    cases hl
    exact hOk
  | error => exact ⟨s₁, none, rfl, fun _ => hOk, by simp⟩
  | again =>
    rcases rbufAdd_spec again hOk hRead hContents hMem hPos hEnd with ⟨s₂, r, hAdd₂, hOk₂⟩
    rw [hAdd₂]
    cases r with
    | entry k =>
      refine ⟨s₂, some k, rfl, by simp, ?_⟩
      intro l hl
      cases hl
      exact hOk₂
    | error => exact ⟨s₂, none, rfl, fun _ => hOk₂, by simp⟩
    | again => exact ⟨s₂, none, rfl, fun _ => hOk₂, by simp⟩

end

----
-- Dispatching a Datagram
----

/-
  Every byte of a datagram was received, and is the byte of a
  received fragment with the same tuple.
-/
structure Reassembled
    (received : List FragFrame)
    (d : FragDatagram) : Prop where
  length_eq : d.data.length = d.key.size
  bytes : ∀ p, p < d.key.size → ∃ b, Reads received d.key p b ∧ d.data[p]? = some b

section

variable {cfg : FragRbConfig} (env again : FragRbEnv)
variable {received : List FragFrame} {s : FragRb} (netifHdrBuild : Bool)

theorem fragRbDispatchWhenComplete_spec
    {key : FragKey} {k : Nat} {slots : Nat → List Nat}
    (hAdded : Added cfg received s key k slots) :
    ∃ s' d, fragRbDispatchWhenComplete cfg netifHdrBuild s k = some (s', d) ∧
      s'.Settled cfg received ∧ ∀ dg, d = some dg → Reassembled received dg := by
  rcases hAdded with ⟨hHolds, hOthers, hMarked, hSome, _⟩
  rcases Option.isSome_iff_exists.mp hSome with ⟨pkt, hPkt⟩
  have hEntry := hHolds.entry k pkt hPkt
  rcases fragRbRemove_spec hHolds hOthers with ⟨removed, hRemove, hRemoved, _⟩
  unfold fragRbDispatchWhenComplete
  dsimp only
  split
  · rename_i hFull
    rw [hPkt, hRemove]
    simp only [Option.bind_eq_bind, Option.bind_some]
    split
    · refine ⟨_, _, rfl, hRemoved, ?_⟩
      intro dg hdg
      cases hdg
      exact ⟨hEntry.length_eq, fun p hp => hEntry.complete hFull hp⟩
    · exact ⟨_, _, rfl, hRemoved, by simp⟩
  · rename_i hPart
    refine ⟨s, none, rfl, ⟨slots, hHolds, ?_⟩, by simp⟩
    intro l
    by_cases hl : l = k
    · subst hl
      exact hMarked.resolve_right hPart
    · exact hOthers l hl

theorem gnrcSixlowpanFragRecv_spec
    {f : FragFrame} (hSettled : s.Settled cfg received) (hWell : f.WellFormed)
    (hMem : f ∈ received) :
    ∃ s' d, gnrcSixlowpanFragRecv cfg env again netifHdrBuild s f = some (s', d) ∧
      s'.Settled cfg received ∧ ∀ dg, d = some dg → Reassembled received dg := by
  unfold FragFrame.WellFormed at hWell
  split at hWell
  · rename_i offset payload hContents
    rcases FragFrame.readAs_of_contents hContents with ⟨pos, key, hRead⟩
    have hPos : 0 < payload.length := List.length_pos_of_ne_nil hWell.1
    have hEnd : payload.length % 8 = 0 ∨ offset + payload.length = key.size := by
      simpa [hRead.key_eq] using hWell.2
    rcases fragRbAdd_spec env again hSettled hRead hContents hMem hPos hEnd with
      ⟨s₁, res, hAdd, hNone, hAdded⟩
    rw [hRead.recv, hAdd, Option.bind_some]
    cases res with
    | none => exact ⟨s₁, none, rfl, hNone rfl, by simp⟩
    | some k =>
      rcases hAdded k rfl with ⟨slots, hAdded⟩
      exact fragRbDispatchWhenComplete_spec netifHdrBuild hAdded
  · exact absurd hWell not_false

end

----
-- Runs
----

/-
  The buffer with the fragments received so far and what the
  last step dispatched.
-/
structure Reassembly where
  rb : FragRb
  received : List FragFrame
  dispatched : Option FragDatagram

inductive ReassemblyEvent where
  -- a fragment arrives
  | recv (f : FragFrame) (env again : FragRbEnv)
      (netifHdrBuild : Bool)
  -- the timer for old entries
  | gc (nowUsec : UInt32)
  -- a datagram is given up
  | rm (src dst : List UInt8) (tag : Nat)

def reassemblyExec
    (cfg : FragRbConfig) (s : Reassembly) :
    ReassemblyEvent → Option Reassembly
| .recv f env again netifHdrBuild =>
  (gnrcSixlowpanFragRecv cfg env again netifHdrBuild s.rb f).map
    (fun r => ⟨r.1, f :: s.received, r.2⟩)
| .gc nowUsec => (fragRbGc cfg nowUsec s.rb).map (fun rb => ⟨rb, s.received, none⟩)
| .rm src dst tag =>
  (fragRbRmByDatagram cfg s.rb src dst tag).map (fun rb => ⟨rb, s.received, none⟩)

/- The fragments that arrive are well-formed. -/
def ReassemblyEvent.Arrives : ReassemblyEvent → Prop
| .recv f _ _ _ => f.WellFormed
| _ => True

instance
    (e : ReassemblyEvent) :
    Decidable e.Arrives := by
  cases e <;> unfold ReassemblyEvent.Arrives <;> infer_instance

def reassemblySystem
    (cfg : FragRbConfig) : System Reassembly ReassemblyEvent where
  Start s := s = ⟨FragRb.init, [], none⟩
  Enabled _ e := e.Arrives
  exec := reassemblyExec cfg

instance
    (cfg : FragRbConfig) (s : Reassembly) (e : ReassemblyEvent) :
    Decidable ((reassemblySystem cfg).Enabled s e) :=
  inferInstanceAs (Decidable e.Arrives)

/- What holds between the steps of a run. -/
structure Reassembly.Ok
    (cfg : FragRbConfig)
    (s : Reassembly) : Prop where
  settled : s.rb.Settled cfg s.received
  dispatched : ∀ d, s.dispatched = some d → Reassembled s.received d

section

variable {cfg : FragRbConfig} {s : Reassembly} {e : ReassemblyEvent}

/- Every step ends, and keeps the invariant. -/
theorem Reassembly.Ok.exec
    (hOk : s.Ok cfg) (hArrives : e.Arrives) :
    ∃ s', reassemblyExec cfg s e = some s' ∧ s'.Ok cfg := by
  have hSettled := hOk.settled
  cases e with
  | recv f env again netifHdrBuild =>
    have hMore := hSettled.mono (List.subset_cons_self f s.received)
    rcases gnrcSixlowpanFragRecv_spec env again netifHdrBuild
        hMore hArrives List.mem_cons_self with
      ⟨rb, d, hRecv, hSettled', hDispatched⟩
    refine ⟨⟨rb, f :: s.received, d⟩, ?_, hSettled', hDispatched⟩
    simp only [reassemblyExec, hRecv, Option.map_some]
  | gc nowUsec =>
    rcases fragRbGc_spec nowUsec hSettled with ⟨rb, hGc, hSettled'⟩
    refine ⟨⟨rb, s.received, none⟩, ?_, hSettled', by simp⟩
    simp only [reassemblyExec, hGc, Option.map_some]
  | rm src dst tag =>
    simp only [reassemblyExec, fragRbRmByDatagram]
    split
    · rename_i k _
      rcases hSettled with ⟨slots, hHolds, hMarked⟩
      rcases fragRbRemove_spec (k := k) hHolds
          (fun l _ => hMarked l) with
        ⟨rb, hRemove, hSettled', _⟩
      rw [hRemove]
      exact ⟨_, rfl, hSettled', by simp⟩
    · exact ⟨_, rfl, hSettled, by simp⟩

theorem reassemblyOk_of_reachable
    (hReach : (reassemblySystem cfg).Reachable s) :
    s.Ok cfg := by
  apply hReach.invariant
  · rintro s rfl
    exact ⟨FragRb.settled_init cfg, by simp⟩
  · intro s e s' hOk _ hArrives hExec
    rcases hOk.exec hArrives with ⟨s'', hExec', hOk'⟩
    cases hExec.symm.trans hExec'
    exact hOk'

end

/- Two runs received the same fragments of the datagram. -/
def SameFragments
    (key : FragKey) (received received' : List FragFrame) : Prop :=
  ∀ f, f.key = some key → (f ∈ received ↔ f ∈ received')

/- Different fragments of the datagram share no byte. -/
def NonOverlapping
    (key : FragKey) (received : List FragFrame) : Prop :=
  ∀ f ∈ received, ∀ g ∈ received,
    f.key = some key → g.key = some key → f ≠ g → ∀ p, f.byteAt p = none ∨ g.byteAt p = none

/- The fragments alone decide what is delivered. -/
theorem Reassembled.data_eq
    {received received' : List FragFrame} {d d' : FragDatagram}
    (h : Reassembled received d) (h' : Reassembled received' d')
    (hKey : d'.key = d.key) (hSame : SameFragments d.key received received')
    (hApart : NonOverlapping d.key received) :
    d'.data = d.data := by
  apply List.ext_getElem?
  intro p
  by_cases hp : p < d.key.size
  · rcases h.bytes p hp with ⟨b, ⟨f, hf, hfKey, hfByte⟩, hb⟩
    rcases h'.bytes p (by rw [hKey]; exact hp) with ⟨b', ⟨g, hg, hgKey, hgByte⟩, hb'⟩
    rw [hKey] at hgKey
    have hg' := (hSame g hgKey).mpr hg
    have hEq : f = g := by
      by_contra hNe
      rcases hApart f hf g hg' hfKey hgKey hNe p with hNone | hNone
      · rw [hNone] at hfByte
        cases hfByte
      · rw [hNone] at hgByte
        cases hgByte
    subst hEq
    rw [hb, hb', ← hfByte, ← hgByte]
  · have hLen := h.length_eq
    have hLen' := h'.length_eq
    rw [hKey] at hLen'
    rw [List.getElem?_eq_none (by omega), List.getElem?_eq_none (by omega)]

/-
  No fragment makes the code fail. What is dispatched is
  complete, and does not depend on the order of arrival.
-/
theorem reassembled_of_reachable
    {cfg : FragRbConfig} {s : Reassembly}
    (hReach : (reassemblySystem cfg).Reachable s) :
    (∀ e, e.Arrives → ∃ s', reassemblyExec cfg s e = some s') ∧ ∀ d, s.dispatched = some d →
      Reassembled s.received d ∧ ∀ t d', (reassemblySystem cfg).Reachable t →
        t.dispatched = some d' → d'.key = d.key → SameFragments d.key s.received t.received →
        NonOverlapping d.key s.received → d'.data = d.data := by
  have hOk := reassemblyOk_of_reachable hReach
  refine ⟨?_, ?_⟩
  · intro e hArrives
    rcases hOk.exec hArrives with ⟨s', hExec, _⟩
    exact ⟨s', hExec⟩
  · intro d hd
    have hDone := hOk.dispatched d hd
    refine ⟨hDone, ?_⟩
    intro t d' hReach' hd' hKey hSame hApart
    have hDone' := (reassemblyOk_of_reachable hReach').dispatched d' hd'
    exact hDone.data_eq hDone' hKey hSame hApart

def sampleRbConfig : FragRbConfig where
  rbufSize := 2
  rbufIntSize := 4
  timeoutUs := 3000000
  aggressiveOverride := true
  iphcRecv := none
  rbufSize_pos := Nat.two_pos

def sampleRbEnv : FragRbEnv where
  gcNowUsec := 10
  nowUsec := 10
  pktbufAdd := true
  fresh := fun _ => 0xff
  pktbufMark := true

/- The two fragments of a datagram of 16 bytes. -/
def sampleFirst : FragFrame :=
  ⟨[1], [2], [0xc0, 16, 0, 7, 0x41, 0x60, 1, 2, 3, 4, 5, 6, 7]⟩

def sampleSecond : FragFrame :=
  ⟨[1], [2], [0xe0, 16, 0, 7, 1, 8, 9, 10, 11, 12, 13, 14, 15]⟩

def sampleDatagram : FragDatagram :=
  ⟨⟨[1], [2], 16, 7⟩, [0x60, 1, 2, 3, 4, 5, 6, 7, 8, 9, 10, 11, 12, 13, 14, 15]⟩

def sampleRecv
    (f : FragFrame) : ReassemblyEvent :=
  .recv f sampleRbEnv sampleRbEnv true

theorem nonOverlapping_sample :
    NonOverlapping sampleDatagram.key [sampleSecond, sampleFirst] := by
  have hFirst : ∀ p, 8 ≤ p → sampleFirst.byteAt p = none := by
    intro p hp
    have hContents : sampleFirst.contents = some (0, [0x60, 1, 2, 3, 4, 5, 6, 7]) := by
      decide
    simp only [FragFrame.byteAt, hContents, Option.bind_some]
    rw [if_pos (Nat.zero_le p)]
    exact List.getElem?_eq_none hp
  have hSecond : ∀ p, p < 8 → sampleSecond.byteAt p = none := by
    intro p hp
    have hContents : sampleSecond.contents = some (8, [8, 9, 10, 11, 12, 13, 14, 15]) := by
      decide
    simp only [FragFrame.byteAt, hContents, Option.bind_some]
    exact if_neg (by omega)
  intro f hf g hg _ _ hNe p
  simp only [List.mem_cons, List.not_mem_nil, or_false] at hf hg
  rcases hf with rfl | rfl
  · rcases hg with rfl | rfl
    · exact absurd rfl hNe
    · by_cases hp : p < 8
      · exact Or.inl (hSecond p hp)
      · exact Or.inr (hFirst p (by omega))
  · rcases hg with rfl | rfl
    · by_cases hp : p < 8
      · exact Or.inr (hSecond p hp)
      · exact Or.inl (hFirst p (by omega))
    · exact absurd rfl hNe

theorem exists_sampleRun
    (fs received : List FragFrame)
    (hRun : ((reassemblySystem sampleRbConfig).runVia (fun _ _ => True)
        ⟨FragRb.init, [], none⟩ (fs.map sampleRecv)).any
        (fun s => decide (s.dispatched = some sampleDatagram ∧ s.received = received)) = true) :
    ∃ s : Reassembly, (reassemblySystem sampleRbConfig).Reachable s ∧
      s.dispatched = some sampleDatagram ∧ s.received = received := by
  rcases System.exists_reachableVia_of_runVia rfl hRun with ⟨s, _, hReach, hDone⟩
  exact ⟨s, hReach, hDone⟩

/- Both orders of the fragments deliver the datagram. -/
theorem reassembled_sampleDatagram :
    ∃ s t : Reassembly, s.received = [sampleSecond, sampleFirst] ∧
      t.received = [sampleFirst, sampleSecond] ∧ s.dispatched = some sampleDatagram ∧
      Reassembled s.received sampleDatagram ∧
      t.dispatched.map FragDatagram.data = some sampleDatagram.data := by
  rcases exists_sampleRun [sampleFirst, sampleSecond]
      [sampleSecond, sampleFirst] (by decide) with
    ⟨s, hReach, hDone, hReceived⟩
  rcases exists_sampleRun [sampleSecond, sampleFirst]
      [sampleFirst, sampleSecond] (by decide) with
    ⟨t, hReach', hDone', hReceived'⟩
  have hBoth := (reassembled_of_reachable hReach).2 sampleDatagram hDone
  have hSame :
      SameFragments sampleDatagram.key s.received
        t.received := by
    intro f _
    rw [hReceived, hReceived']
    simp only [List.mem_cons, List.not_mem_nil, or_false]
    exact or_comm
  have hApart : NonOverlapping sampleDatagram.key s.received := by
    rw [hReceived]
    exact nonOverlapping_sample
  have hData := hBoth.2 t sampleDatagram hReach' hDone' rfl hSame hApart
  refine ⟨s, t, hReceived, hReceived', hDone, hBoth.1, ?_⟩
  rw [hDone', Option.map_some, hData]

end Riot
