import Riot.Net.SixlowpanFragMem
import Riot.Net.FragReassembly

/-
  The copies of the reassembly stay in bounds.

  A fragment is sound when its frame has room for what
  `_6lo_frag_size` subtracts, and when it does not start a
  datagram with the longer header of the other fragments: the
  size of such a fragment is computed with the shorter header,
  while its payload starts behind the longer one.
-/

----
-- Bounds
----

namespace Riot

namespace FragMem

variable (w : Nat) (cfg : FragRbConfig) (m : FragMem)

/- The offset that gnrc_sixlowpan_frag_recv hands on. -/
def offset : Nat :=
  if m.sixlowpanFrag1Is then 0 else m.sixlowpanFragOffset

/- The size of the fragment that the code computes. -/
def fragSize : Nat :=
  m.sixloFragSize w m.offset m.sixloFragPayload

/- The same differences, without a bound on the numbers. -/
def exactFragSize : Int :=
  if m.offset = 0 then
    if m.byte m.sixloFragPayload = sixlowpanUncomp then
      m.size - 4 - 1
    else
      m.size - 4
  else
    m.size - 5

/- The copied bytes are in the frame and in the datagram. -/
structure Copy.InBounds
    (m : FragMem)
    (c : Copy) : Prop where
  inFrame : c.size ≤ m.size - c.pos
  inDatagram : c.offset + c.size ≤ m.sixlowpanFragDatagramSize

/- What is said of the addition of a fragment. -/
structure AddsInBounds : Prop where
  noUnderflow : (m.fragSize w : Int) = m.exactFragSize
  copies : ∀ env s s' k c, rbufAdd w cfg env s m m.offset = some (s', .copy k c) → c.InBounds m

/- The bytes of the frame that are not payload. -/
def headerSize : Nat :=
  if m.offset = 0 then
    if m.byte m.sixloFragPayload = sixlowpanUncomp then 5
    else 4
  else
    5

/-
  The fragments that are added in bounds. The frame holds its
  headers, and no sum of an offset and a size wraps around into
  the datagram. A fragment with the header of a subsequent one
  and offset 0 is dropped, has no bytes to copy, or goes to the
  reception of IPHC.
-/
def Sound : Prop :=
  m.headerSize ≤ m.size ∧ ¬ (2 ^ w ≤ m.offset + (m.size - m.headerSize) ∧
    m.offset + (m.size - m.headerSize) - 2 ^ w ≤ m.sixlowpanFragDatagramSize) ∧
  (m.sixlowpanFrag1Is = false → m.offset = 0 → m.size = m.headerSize ∨
    m.sixlowpanFragDatagramSize < m.size - m.headerSize ∨
    (m.sixlowpanIphcIs 5 = true ∧ cfg.iphcRecv.isSome = true))

instance : Decidable (m.Sound w cfg) :=
  inferInstanceAs (Decidable (_ ∧ _ ∧ _))

end FragMem

----
-- Sizes
----

namespace FragMem

section

variable {w : Nat} {m : FragMem}

theorem sizeSub_sizeSub
    {a b c : Nat} (hLe : b + c ≤ 2 ^ w) :
    sizeSub w (sizeSub w a b) c = sizeSub w a (b + c) := by
  have hSum : a + (2 ^ w - b) + (2 ^ w - c) = a + (2 ^ w - (b + c)) + 2 ^ w := by
    omega
  unfold sizeSub
  rw [Nat.mod_add_mod, hSum, Nat.add_mod_right]

theorem two_pow_16_le
    (hWidth : 16 ≤ w) :
    2 ^ 16 ≤ 2 ^ w :=
  Nat.pow_le_pow_right (by omega) hWidth

theorem fragSize_eq
    (hWidth : 16 ≤ w) :
    m.fragSize w = sizeSub w m.size m.headerSize := by
  have hPow := two_pow_16_le hWidth
  have hTwo := sizeSub_sizeSub (show 4 + 1 ≤ 2 ^ w by omega) (a := m.size)
  unfold fragSize sixloFragSize headerSize
  by_cases hZero : m.offset = 0
  · rw [if_pos (by simpa using hZero), if_pos hZero, hTwo]
    by_cases hUncomp : m.byte m.sixloFragPayload = sixlowpanUncomp
    · rw [if_pos (by simpa using hUncomp), if_pos hUncomp]
    · rw [if_neg (by simpa using hUncomp), if_neg hUncomp]
  · rw [if_neg (by simpa using hZero), if_neg hZero]

theorem exactFragSize_eq :
    m.exactFragSize = (m.size : Int) - m.headerSize := by
  unfold exactFragSize headerSize
  split
  · split
    · omega
    · rfl
  · rfl

theorem offset_lt :
    m.offset < 2 ^ 11 := by
  have hByte := (m.byte 4).toNat_lt
  unfold offset sixlowpanFragOffset
  split <;> omega

theorem datagramSize_lt :
    m.sixlowpanFragDatagramSize < 2 ^ 11 :=
  Nat.lt_succ_of_le Nat.and_le_right

/- The size does not underflow if the frame has its headers. -/
theorem fragSize_eq_exact_iff
    (hWidth : 16 ≤ w) (hLt : m.size < 2 ^ w) :
    (m.fragSize w : Int) = m.exactFragSize ↔ m.headerSize ≤ m.size := by
  rw [fragSize_eq hWidth, exactFragSize_eq]
  constructor
  · intro hEq
    omega
  · intro hLong
    rw [sizeSub_eq hLong hLt]
    omega

end

end FragMem

----
-- Copies
----

/- The entry that is got is for the datagram. -/
theorem rbufGet_datagramSize
    {cfg : FragRbConfig} {env : FragRbEnv} {s s' : FragRb} {key : FragKey} {k : Nat}
    (hGet : rbufGet cfg env s key = some (s', some k)) :
    (s'.rbuf k).datagramSize = key.size := by
  have hSearch : SearchOk s key (List.range cfg.rbufSize)
      none none
      (rbufSearch s key (List.range cfg.rbufSize) none none) :=
    rbufSearch_spec (by simp)
  have hTake :
      ∀ s₁ i, rbufTake env s₁ key i = (s', some k) → (s'.rbuf k).datagramSize = key.size := by
    intro s₁ i hEq
    unfold rbufTake at hEq
    split at hEq
    · cases hEq
      simp
    · cases hEq
  unfold rbufGet at hGet
  split at hGet
  · rename_i i hr
    rw [hr] at hSearch
    cases hGet
    have hKey := congrArg FragKey.size hSearch.2
    simpa [FragRbEntry.key] using hKey
  · exact hTake _ _ (Option.some.inj hGet)
  · cases hGet
  · split at hGet
    · cases hGet
    · split at hGet
      · rcases Option.bind_eq_some_iff.mp hGet with ⟨s₁, _, h⟩
        exact hTake _ _ (Option.some.inj h)
      · cases hGet

namespace FragMem

section

variable {w : Nat} {cfg : FragRbConfig} {env : FragRbEnv} {s s' : FragRb}
variable {m : FragMem} {k : Nat} {c : Copy}

/- Where the copied bytes start. -/
theorem rbufAddPayload_copy
    {l fragSize : Nat}
    (hAction : m.rbufAddPayload cfg l m.offset fragSize m.sixloFragPayload = .copy k c) :
    c.offset = m.offset ∧ c.size = fragSize ∧
    ((m.sixlowpanFrag1Is = true ∨ m.offset ≠ 0) → c.pos = m.headerSize) ∧
    (m.sixlowpanFrag1Is = false → m.offset = 0 →
      c.pos = m.headerSize + 1 ∧ ¬ (m.sixlowpanIphcIs 5 = true ∧ cfg.iphcRecv.isSome = true)) := by
  have hPos : m.sixloFragPayload = if m.sixlowpanFrag1Is = true then 4 else 5 := rfl
  have hFirst : m.sixlowpanFrag1Is = true → m.offset = 0 := by
    intro h
    rw [offset, if_pos h]
  unfold rbufAddPayload at hAction
  unfold headerSize
  by_cases hZero : m.offset = 0
  · rw [if_pos (by simpa using hZero)] at hAction
    rw [if_pos hZero]
    split at hAction
    · cases hAction
    · rename_i hIphc
      split at hAction
      · rename_i hUncomp
        rw [if_pos (by simpa using hUncomp)]
        cases hAction
        refine ⟨rfl, rfl, ?_, ?_⟩
        · rintro (hIs | hNe)
          · rw [hPos, if_pos hIs]
          · exact absurd hZero hNe
        · intro hIs _
          rw [hPos, if_neg (by simp [hIs])] at hIphc ⊢
          exact ⟨rfl, by simpa using hIphc⟩
      · rename_i hUncomp
        rw [if_neg (by simpa using hUncomp)]
        cases hAction
        refine ⟨rfl, rfl, ?_, ?_⟩
        · rintro (hIs | hNe)
          · rw [hPos, if_pos hIs]
          · exact absurd hZero hNe
        · intro hIs _
          rw [hPos, if_neg (by simp [hIs])] at hIphc ⊢
          exact ⟨rfl, by simpa using hIphc⟩
  · rw [if_neg (by simpa using hZero)] at hAction
    rw [if_neg hZero]
    cases hAction
    refine ⟨rfl, rfl, ?_, ?_⟩
    · intro _
      rw [hPos, if_neg (fun h => hZero (hFirst h))]
    · intro _ h
      exact absurd h hZero

/- What was checked before a copy. -/
theorem rbufAdd_copy
    (hAdd : rbufAdd w cfg env s m m.offset = some (s', .copy k c)) :
    (m.offset + m.fragSize w) % 2 ^ w ≤ m.sixlowpanFragDatagramSize ∧
    ∃ l, m.rbufAddPayload cfg l m.offset (m.fragSize w) m.sixloFragPayload = .copy k c := by
  unfold rbufAdd at hAdd
  split at hAdd
  · rcases Option.bind_eq_some_iff.mp hAdd with ⟨s₁, _, hAdd⟩
    rcases Option.bind_eq_some_iff.mp hAdd with ⟨⟨s₂, res⟩, hGet, hAdd⟩
    cases res with
    | none => cases hAdd
    | some l =>
      have hSize := rbufGet_datagramSize hGet
      dsimp only at hAdd
      unfold rbufAddTo at hAdd
      split at hAdd
      · rcases Option.bind_eq_some_iff.mp hAdd with ⟨_, _, h⟩
        cases h
      · rename_i hFits
        rw [hSize] at hFits
        rcases Option.bind_eq_some_iff.mp hAdd with ⟨res, _, hAdd⟩
        cases res with
        | again =>
          rcases Option.bind_eq_some_iff.mp hAdd with ⟨_, _, h⟩
          cases h
        | duplicate => cases hAdd
        | success =>
          dsimp only at hAdd
          split at hAdd
          · have hAction := congrArg Prod.snd (Option.some.inj hAdd)
            dsimp only at hAction
            exact ⟨Nat.le_of_not_lt hFits, l, hAction⟩
          · rcases Option.bind_eq_some_iff.mp hAdd with ⟨_, _, h⟩
            cases h
  · cases hAdd

end

end FragMem

----
-- The First Fragment
----

/- No entry of the empty buffer is too old. -/
theorem fragRbGcFrom_init
    (cfg : FragRbConfig) (nowUsec : UInt32) (is : List Nat) :
    fragRbGcFrom cfg nowUsec is FragRb.init = some FragRb.init := by
  induction is with
  | nil => rfl
  | cons i is ih =>
    unfold fragRbGcFrom
    rw [if_neg (by simp [fragRbEntryEmpty, FragRb.init])]
    exact ih

/- A spot that was found is kept. -/
theorem rbufSearch_init
    (key : FragKey) (is : List Nat) (o : Option Nat) :
    ∃ o', rbufSearch FragRb.init key is (some 0) o = .spots (some 0) o' := by
  induction is generalizing o with
  | nil => exact ⟨o, rfl⟩
  | cons i is ih =>
    unfold rbufSearch
    rw [if_neg (by simp [FragRb.init])]
    exact ih _

/- The empty buffer takes the first entry. -/
theorem rbufGet_init
    (cfg : FragRbConfig) (env : FragRbEnv) (key : FragKey) :
    rbufGet cfg env FragRb.init key = some (rbufTake env FragRb.init key 0) := by
  have hSearch :
      ∃ o, rbufSearch FragRb.init key (List.range cfg.rbufSize) none none = .spots (some 0) o := by
    have hRange : List.range cfg.rbufSize = 0 :: (List.range (cfg.rbufSize - 1)).map Nat.succ := by
      have hPos := cfg.rbufSize_pos
      rw [← List.range_succ_eq_map, Nat.sub_add_cancel hPos]
    rw [hRange]
    unfold rbufSearch
    rw [if_neg (by simp [FragRb.init])]
    exact rbufSearch_init key _ _
  rcases hSearch with ⟨o, hSearch⟩
  unfold rbufGet
  rw [hSearch]

namespace FragMem

section

variable {w : Nat} {cfg : FragRbConfig} {m : FragMem}

/- The packet buffer has space. -/
def roomyEnv : FragRbEnv where
  gcNowUsec := 0
  nowUsec := 0
  pktbufAdd := true
  fresh := fun _ => 0
  pktbufMark := true

/- A fragment that fits is added to an entry without data. -/
theorem rbufAddTo_empty
    {s : FragRb} {k i offset fragSize pos : Nat} (hHead : s.links (.head k) = .null)
    (hFree : rbufIntGetFree cfg s = some i)
    (hFits : (offset + fragSize) % 2 ^ w ≤ (s.rbuf k).datagramSize) :
    ∃ s', rbufAddTo w cfg s m k offset fragSize pos =
        some (s', m.rbufAddPayload cfg k offset fragSize pos) := by
  unfold rbufAddTo
  rw [if_neg (Nat.not_lt.mpr hFits), hHead]
  simp only [checkFragments, rbufUpdateInts, hFree, Option.bind_eq_bind, Option.bind_some]
  exact ⟨_, rfl⟩

/- What the empty buffer does with a fragment that fits. -/
theorem rbufAdd_init
    (hFrag : m.sixlowpanFrag1Is = true ∨ m.sixlowpanFragNIs = true)
    (hInts : 0 < cfg.rbufIntSize)
    (hFits : (m.offset + m.fragSize w) % 2 ^ w ≤ m.sixlowpanFragDatagramSize) :
    ∃ s', rbufAdd w cfg roomyEnv FragRb.init m m.offset =
        some (s', m.rbufAddPayload cfg 0 m.offset (m.fragSize w) m.sixloFragPayload) := by
  have hValid : m.validOffset m.offset = true := by
    unfold validOffset offset
    cases hFirst : m.sixlowpanFrag1Is with
    | true => rfl
    | false =>
      have hNth : m.sixlowpanFragNIs = true := by
        simpa [hFirst] using hFrag
      simp [hNth]
  have hGc : fragRbGc cfg roomyEnv.gcNowUsec FragRb.init = some FragRb.init :=
    fragRbGcFrom_init cfg _ _
  have hTake : (rbufTake roomyEnv FragRb.init m.key 0).2 = some 0 := rfl
  have hFree : rbufIntGetFree cfg (rbufTake roomyEnv FragRb.init m.key 0).1 = some 0 := by
    have hRange : List.range cfg.rbufIntSize = 0 :: (List.range (cfg.rbufIntSize - 1)).map
          Nat.succ := by
      rw [← List.range_succ_eq_map, Nat.sub_add_cancel hInts]
    unfold rbufIntGetFree
    rw [hRange]
    rfl
  unfold rbufAdd
  rw [if_pos hValid]
  simp only [hGc, Option.bind_eq_bind, Option.bind_some, rbufGet_init, hTake]
  exact rbufAddTo_empty rfl hFree hFits

end

----
-- Sound Fragments
----

section

variable {w : Nat} {cfg : FragRbConfig} {m : FragMem}

/- The copies of a sound fragment are in bounds. -/
theorem Sound.inBounds
    {env : FragRbEnv} {s s' : FragRb} {k : Nat} {c : Copy} (hSound : m.Sound w cfg)
    (hWidth : 16 ≤ w) (hLt : m.size < 2 ^ w)
    (hAdd : rbufAdd w cfg env s m m.offset = some (s', .copy k c)) :
    c.InBounds m := by
  rcases hSound with ⟨hLong, hWrap, hNth⟩
  rcases rbufAdd_copy hAdd with ⟨hFits, l, hAction⟩
  rcases rbufAddPayload_copy hAction with ⟨hOffset, hSize, hFirst, hOther⟩
  rw [fragSize_eq hWidth, sizeSub_eq hLong hLt] at hFits hSize
  constructor
  · by_cases hOdd : m.sixlowpanFrag1Is = false ∧ m.offset = 0
    · rcases hOther hOdd.1 hOdd.2 with ⟨hPos, hIphc⟩
      rcases hNth hOdd.1 hOdd.2 with hEmpty | hBig | hIs
      · omega
      · rw [hOdd.2, Nat.zero_add, Nat.mod_eq_of_lt (by omega)] at hFits
        omega
      · exact absurd hIs hIphc
    · have hPos := hFirst (by
        by_cases h : m.sixlowpanFrag1Is = true
        · exact Or.inl h
        · refine Or.inr (fun hZero => hOdd ⟨?_, hZero⟩)
          simpa using h)
      omega
  · rw [hOffset, hSize]
    by_cases hBig : 2 ^ w ≤ m.offset + (m.size - m.headerSize)
    · have hPow := two_pow_16_le hWidth
      have hOffsetLt := offset_lt (m := m)
      rw [Nat.mod_eq_sub_mod hBig, Nat.mod_eq_of_lt (by omega)] at hFits
      exact absurd ⟨hBig, hFits⟩ hWrap
    · rwa [Nat.mod_eq_of_lt (Nat.lt_of_not_le hBig)] at hFits

/- Where the empty buffer copies a fragment that fits. -/
theorem exists_copy_of_fits
    (hFrag : m.sixlowpanFrag1Is = true ∨ m.sixlowpanFragNIs = true)
    (hInts : 0 < cfg.rbufIntSize)
    (hIphc : m.offset = 0 → (m.sixlowpanIphcIs m.sixloFragPayload && cfg.iphcRecv.isSome) = false)
    (hFits : (m.offset + m.fragSize w) % 2 ^ w ≤ m.sixlowpanFragDatagramSize) :
    ∃ s' c, rbufAdd w cfg roomyEnv FragRb.init m m.offset = some (s', .copy 0 c) ∧
      c.offset = m.offset ∧ c.size = m.fragSize w ∧
      (m.sixlowpanFrag1Is = false → m.offset = 0 → c.pos = m.headerSize + 1) := by
  rcases rbufAdd_init hFrag hInts hFits with ⟨s', hAdd⟩
  have hCopy :
      ∃ c, m.rbufAddPayload cfg 0 m.offset (m.fragSize w) m.sixloFragPayload = .copy 0 c := by
    unfold rbufAddPayload
    by_cases hZero : m.offset = 0
    · rw [if_pos (by simpa using hZero), hIphc hZero]
      simp only [Bool.false_eq_true, if_false]
      split
      · exact ⟨_, rfl⟩
      · exact ⟨_, rfl⟩
    · rw [if_neg (by simpa using hZero)]
      exact ⟨_, rfl⟩
  rcases hCopy with ⟨c, hCopy⟩
  rcases rbufAddPayload_copy hCopy with ⟨hOffset, hSize, _, hOther⟩
  rw [hCopy] at hAdd
  exact ⟨s', c, hAdd, hOffset, hSize, fun h h' => (hOther h h').1⟩

end

end FragMem

/-
  The code adds a fragment in bounds exactly if the fragment is
  sound.
-/
theorem fragAddsInBounds_iff_sound
    (w : Nat) (cfg : FragRbConfig) (m : FragMem) (hWidth : 16 ≤ w)
    (hSize : m.size < 2 ^ w) (hInts : 0 < cfg.rbufIntSize)
    (hFrag : m.sixlowpanFrag1Is = true ∨ m.sixlowpanFragNIs = true) :
    m.AddsInBounds w cfg ↔ m.Sound w cfg := by
  constructor
  · intro hAdds
    have hLong := (FragMem.fragSize_eq_exact_iff hWidth hSize).mp hAdds.noUnderflow
    have hEq : m.fragSize w = m.size - m.headerSize := by
      rw [FragMem.fragSize_eq hWidth, FragMem.sizeSub_eq hLong hSize]
    refine ⟨hLong, ?_, ?_⟩
    · rintro ⟨hWrap, hFits⟩
      have hZero : m.offset ≠ 0 := by
        omega
      have hPow := FragMem.two_pow_16_le hWidth
      have hDatagram := FragMem.datagramSize_lt (m := m)
      rcases FragMem.exists_copy_of_fits hFrag hInts (fun h => absurd h hZero) (by
            rw [hEq, Nat.mod_eq_sub_mod hWrap, Nat.mod_eq_of_lt (by omega)]
            exact hFits) with
        ⟨s', c, hAdd, hOff, hLen, _⟩
      have hIn := (hAdds.copies _ _ _ _ _ hAdd).inDatagram
      omega
    · intro hNth hZero
      by_contra hNot
      rcases not_or.mp hNot with ⟨hSome, hNot⟩
      rcases not_or.mp hNot with ⟨hFits, hIphc⟩
      have hPos : m.sixloFragPayload = 5 := by
        rw [FragMem.sixloFragPayload, hNth]
        rfl
      rcases FragMem.exists_copy_of_fits hFrag hInts (fun _ => by
            rw [hPos]
            simpa using hIphc) (by
            rw [hEq, hZero, Nat.zero_add, Nat.mod_eq_of_lt (by omega)]
            exact Nat.le_of_not_lt hFits) with
        ⟨s', c, hAdd, _, hLen, hAt⟩
      have hIn := (hAdds.copies _ _ _ _ _ hAdd).inFrame
      have hAt := hAt hNth hZero
      omega
  · intro hSound
    refine ⟨?_, ?_⟩
    · exact (FragMem.fragSize_eq_exact_iff hWidth hSize).mpr hSound.1
    · intro env s s' k c hAdd
      exact hSound.inBounds hWidth hSize hAdd

/- A sound fragment, and one that is not. -/
def sampleFragRb : FragRbConfig where
  rbufSize := 2
  rbufIntSize := 4
  timeoutUs := 3000000
  aggressiveOverride := false
  iphcRecv := none
  rbufSize_pos := Nat.two_pos

def sampleFragMem
    (data : List UInt8) : FragMem where
  frame := ⟨[1], [2], data⟩
  behind := fun _ => 1

theorem fragAddsInBounds_nineBytes :
    (sampleFragMem
      [0xc0, 16, 0, 7, 0x41, 1, 2, 3, 4]).AddsInBounds 32
        sampleFragRb :=
  (fragAddsInBounds_iff_sound 32 sampleFragRb _ (by decide)
    (by decide) (by decide) (by decide)).mpr (by decide)

/-
  A subsequent fragment without its offset: the size is one
  less than 0, and its sum with the offset that was read behind
  the frame is in the datagram, so the bytes are copied.
-/
theorem not_fragAddsInBounds_fourBytes :
    (FragMem.rbufAdd 32 sampleFragRb FragMem.roomyEnv
        FragRb.init (sampleFragMem [0xe0, 16, 0, 7])
        8).map Prod.snd = some (.copy 0 ⟨8, 5, 2 ^ 32 - 1⟩) ∧
    ¬ (sampleFragMem [0xe0, 16, 0, 7]).AddsInBounds 32
      sampleFragRb := by
  refine ⟨by decide, ?_⟩
  intro hAdds
  have hSize := hAdds.noUnderflow
  revert hSize
  decide

end Riot
