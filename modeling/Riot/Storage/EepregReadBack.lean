import Riot.Storage.EepregOps

/-
  A new entry in the EEPROM registry, and what a search finds
  of it.

  The entry is found when its length fits a byte.  A length
  that wraps has the data pointer written over the first
  bytes of the entry; that is found only when these bytes
  happen to agree.
-/

----
-- Comparing Names
----

namespace Riot

variable {conf : EepregConf} {mem mem' : ByteMem} {name : List UInt8} {loc : Nat}

/- A stored name that compares equal has all its bytes. -/
theorem cmpNameFrom_true
    {n : Nat} (hEq : cmpNameFrom conf mem loc name n = some true) :
    name.length = n ∧ mem.Holds loc name := by
  induction n generalizing loc name with
  | zero =>
    cases name with
    | nil =>
      refine ⟨rfl, ?_⟩
      intro i b hByte
      cases hByte
    | cons c name => cases hEq
  | succ n ih =>
    cases name with
    | nil => cases hEq
    | cons c name =>
      rw [cmpNameFrom] at hEq
      rcases Option.bind_eq_some_iff.mp hEq with ⟨byte, hByte, hRest⟩
      unfold eepromReadByte at hByte
      by_cases hIn : loc + 1 ≤ conf.eepromSize
      · rw [if_pos hIn] at hByte
        cases hByte
        by_cases hNe : mem.byte loc ≠ c
        · rw [if_pos hNe] at hRest
          cases hRest
        · rw [if_neg hNe] at hRest
          rcases ih hRest with ⟨hLen, hHolds⟩
          refine ⟨congrArg Nat.succ hLen, ?_⟩
          exact ByteMem.holds_cons.mpr ⟨not_not.mp hNe, hHolds⟩
      · rw [if_neg hIn] at hByte
        cases hByte

/- The comparison looks at the stored name only. -/
theorem cmpNameFrom_congr
    {n : Nat} (hSame : ∀ x, loc ≤ x → x < loc + n → mem'.byte x = mem.byte x) :
    cmpNameFrom conf mem' loc name n = cmpNameFrom conf mem loc name n := by
  induction n generalizing loc name with
  | zero => rfl
  | succ n ih =>
    cases name with
    | nil => rfl
    | cons c name =>
      have hByte : mem'.byte loc = mem.byte loc := hSame loc (Nat.le_refl _) (by omega)
      have hRest :
          cmpNameFrom conf mem' (loc + 1) name n = cmpNameFrom conf mem (loc + 1) name n :=
        ih (fun x hGe hLt =>
          hSame x (by omega) (by omega))
      rw [cmpNameFrom, cmpNameFrom, hRest]
      unfold eepromReadByte
      rw [hByte]

/- A length byte is a small number. -/
theorem getMetaLen_some
    {metaLen : Nat} (hLen : getMetaLen conf mem loc = some metaLen) :
    loc + 1 ≤ conf.eepromSize ∧ mem.byte loc = UInt8.ofNat metaLen ∧ metaLen < 256 := by
  unfold getMetaLen eepromReadByte at hLen
  by_cases hIn : loc + 1 ≤ conf.eepromSize
  · rw [if_pos hIn] at hLen
    cases hLen
    exact ⟨hIn, UInt8.ofNat_toNat.symm, UInt8.toNat_lt _⟩
  · rw [if_neg hIn] at hLen
    cases hLen

theorem getMetaLen_congr
    (hSame : mem'.byte loc = mem.byte loc) :
    getMetaLen conf mem' loc = getMetaLen conf mem loc := by
  unfold getMetaLen eepromReadByte
  rw [hSame]

----
-- Searching
----

/-
  The length bytes, from a location on, lead to the end of
  the registry; every entry has its fixed fields.
-/
inductive EntryPath
    (conf : EepregConf) (mem : ByteMem)
    (regEnd : Nat) : Nat → Prop where
  | done : EntryPath conf mem regEnd regEnd
  | entry
      {loc metaLen : Nat}
      (hLen : getMetaLen conf mem loc = some metaLen)
      (hFields : entLenSiz + conf.eepregPtrLen ≤ metaLen)
      (hRest : EntryPath conf mem regEnd (loc + metaLen)) :
      EntryPath conf mem regEnd loc

theorem EntryPath.le
    {regEnd : Nat} (hPath : EntryPath conf mem regEnd loc) :
    loc ≤ regEnd := by
  induction hPath with
  | done => exact Nat.le_refl _
  | entry _ _ _ ih => omega

/- What a search has found, at the location or after it. -/
theorem getMetaLocFrom_found
    {regEnd fuel found : Nat} (hEnd : regEnd + 255 ≤ 2 ^ 32)
    (hFound : getMetaLocFrom conf mem name regEnd fuel loc = some (some found)) :
    loc ≤ found ∧ found < regEnd ∧ ∃ metaLen, getMetaLen conf mem found = some metaLen ∧
          cmpName conf mem found name metaLen = some true := by
  induction fuel generalizing loc with
  | zero => cases hFound
  | succ fuel ih =>
    rw [getMetaLocFrom] at hFound
    by_cases hLt : loc < regEnd
    · rw [if_pos hLt] at hFound
      rcases Option.bind_eq_some_iff.mp hFound with ⟨metaLen, hLen, hRest⟩
      rcases Option.bind_eq_some_iff.mp hRest with ⟨same, hCmp, hLast⟩
      cases same with
      | true =>
        cases hLast
        exact ⟨Nat.le_refl _, hLt, metaLen, hLen, hCmp⟩
      | false =>
        have hSmall := (getMetaLen_some hLen).2.2
        have hNext : (loc + metaLen) % 2 ^ 32 = loc + metaLen := Nat.mod_eq_of_lt (by omega)
        rw [hNext] at hLast
        rcases ih hLast with ⟨hLe, hRest⟩
        exact ⟨by omega, hRest⟩
    · rw [if_neg hLt] at hFound
      cases hFound

/- The name field of an entry with its fixed fields. -/
theorem calcNameLen_of_fields
    {metaLen : Nat} (hFields : entLenSiz + conf.eepregPtrLen ≤ metaLen)
    (hSmall : metaLen < 256) :
    calcNameLen conf metaLen = metaLen - entLenSiz - conf.eepregPtrLen := by
  have hPtr : conf.eepregPtrLen ≤ 4 := ptrLen_le
  unfold calcNameLen
  unfold entLenSiz at *
  omega

/-
  A search that found nothing passes the same entries again
  when the registry has a new end, up to the old one.
-/
theorem EntryPath.search_eq
    {regEnd regEnd' oldFuel fuel : Nat} (hPath : EntryPath conf mem regEnd loc)
    (hBase : conf.regEnt1Loc ≤ loc) (hEnd : regEnd < 2 ^ 32)
    (hNone : getMetaLocFrom conf mem name regEnd oldFuel loc = some none)
    (hSame : ∀ x, conf.regEnt1Loc ≤ x → x + conf.eepregPtrLen < regEnd → mem'.byte x = mem.byte x)
    (hLonger : regEnd ≤ regEnd') (hFuel : regEnd - loc < fuel) :
    ∃ fuel', getMetaLocFrom conf mem' name regEnd' fuel loc =
        getMetaLocFrom conf mem' name regEnd' (fuel' + 1) regEnd := by
  induction hPath generalizing oldFuel fuel with
  | done =>
    have hOne : fuel - 1 + 1 = fuel := by omega
    exact ⟨fuel - 1, by rw [hOne]⟩
  | entry hLen hFields hRest ih =>
    rename_i loc metaLen
    have hLe := hRest.le
    have hSmall := (getMetaLen_some hLen).2.2
    have hPtr : 0 < conf.eepregPtrLen := ptrLen_pos
    have hPos : 0 < entLenSiz := Nat.one_pos
    have hLt : loc < regEnd := by omega
    have hNext : (loc + metaLen) % 2 ^ 32 = loc + metaLen := Nat.mod_eq_of_lt (by omega)
    -- the comparison in the memory before
    cases oldFuel with
    | zero => cases hNone
    | succ oldFuel =>
      rw [getMetaLocFrom, if_pos hLt, hLen] at hNone
      rcases Option.bind_eq_some_iff.mp hNone with ⟨_, hSome, hRest'⟩
      cases hSome
      rcases Option.bind_eq_some_iff.mp hRest' with ⟨same, hCmp, hOld⟩
      cases same with
      | true => cases hOld
      | false =>
        have hOld' : getMetaLocFrom conf mem name regEnd oldFuel (loc + metaLen) = some none := by
          rw [← hNext]
          exact hOld
        -- and the same one in the memory after
        have hLen' : getMetaLen conf mem' loc = some metaLen := by
          rw [getMetaLen_congr (hSame loc hBase (by omega))]
          exact hLen
        have hCmp' : cmpName conf mem' loc name metaLen = some false := by
          rw [← hCmp]
          apply cmpNameFrom_congr
          intro x hGe hTop
          rw [calcNameLen_of_fields hFields hSmall] at hTop
          exact hSame x (by omega) (by omega)
        cases fuel with
        | zero => omega
        | succ fuel =>
          have hFuel' : regEnd - (loc + metaLen) < fuel := by
            omega
          rcases ih (by omega) hOld' hFuel' with ⟨fuel', hRun⟩
          refine ⟨fuel', ?_⟩
          rw [← hRun, getMetaLocFrom, if_pos (by omega), hLen']
          simp only [bind, Option.bind_some, hCmp', hNext, Bool.false_eq_true, if_false]

----
-- The New Entry
----

/- The length byte of a new entry, which can wrap. -/
def newMetaLen
    (conf : EepregConf) (name : List UInt8) : Nat :=
  (entLenSiz + name.length % 256 + conf.eepregPtrLen) % 256

/-
  The memory after an entry at `regEnd`: the length, the
  name, the data pointer and the end of the registry are
  written in this order.
-/
def enteredMem
    (conf : EepregConf) (mem : ByteMem) (regEnd : Nat) (name : List UInt8)
    (dataLoc : Nat) : ByteMem :=
  (((mem.write regEnd
          [UInt8.ofNat (newMetaLen conf name)]).write
        (regEnd + entLenSiz)
        (name.take (name.length % 256))).write
      (regEnd + newMetaLen conf name - conf.eepregPtrLen)
      (metaBytes conf.eepregPtrLen dataLoc)).write
    conf.regEndPtrLoc
    (metaBytes conf.eepregPtrLen (regEnd + newMetaLen conf name))

theorem eepromWrite_some
    {pos : Nat} {data : List UInt8}
    (hWrite : eepromWrite conf mem pos data = some mem') :
    pos + data.length ≤ conf.eepromSize ∧ mem' = mem.write pos data := by
  unfold eepromWrite at hWrite
  by_cases hIn : pos + data.length ≤ conf.eepromSize
  · rw [if_pos hIn] at hWrite
    exact ⟨hIn, (Option.some.inj hWrite).symm⟩
  · rw [if_neg hIn] at hWrite
    cases hWrite

/- What a successful `_new_entry` has written. -/
theorem newEntry_some
    {regEnd lastLoc len : Nat} (hSize : conf.eepromSize + 255 < 2 ^ 32)
    (hStart : conf.regEnt1Loc ≤ regEnd) (hEnd : getRegEnd conf mem = some regEnd)
    (hLast : getLastLoc conf mem regEnd = some lastLoc)
    (hNew : newEntry conf mem name len = some (.ok, mem')) :
    regEnd + newMetaLen conf name ≤ conf.eepromSize ∧
      regEnd + entLenSiz + name.length % 256 ≤ conf.eepromSize ∧
      mem' = enteredMem conf mem regEnd name (sub32 lastLoc len) := by
  have hEnt1 : conf.regEnt1Loc = conf.regEndPtrLoc + conf.eepregPtrLen := rfl
  unfold newEntry at hNew
  rw [hEnd, Option.bind_eq_bind, Option.bind_some, hLast,
    Option.bind_eq_bind, Option.bind_some] at hNew
  dsimp only at hNew
  split at hNew
  · cases hNew
  · rcases Option.bind_eq_some_iff.mp hNew with ⟨mem₁, hLenByte, hRest₁⟩
    rcases Option.bind_eq_some_iff.mp hRest₁ with ⟨mem₂, hName, hRest₂⟩
    rcases Option.bind_eq_some_iff.mp hRest₂ with ⟨mem₃, hPtr, hRest₃⟩
    rcases Option.bind_eq_some_iff.mp hRest₃ with ⟨mem₄, hEndPtr, hDone⟩
    cases hDone
    rcases eepromWrite_some hLenByte with ⟨hIn₁, rfl⟩
    rcases eepromWrite_some hName with ⟨hIn₂, rfl⟩
    rcases eepromWrite_some hPtr with ⟨hIn₃, rfl⟩
    rcases eepromWrite_some hEndPtr with ⟨_, rfl⟩
    have hFold :
        (entLenSiz + name.length % 256 + conf.eepregPtrLen) % 256 = newMetaLen conf name := rfl
    rw [List.length_singleton] at hIn₁
    rw [hFold] at hIn₃ ⊢
    have hPtrLoc : dataPtrLoc conf regEnd (newMetaLen conf name) = regEnd + newMetaLen conf name -
            conf.eepregPtrLen :=
      sub32_of_le (by omega) (by omega)
    have hNewEnd : (regEnd + newMetaLen conf name) % 2 ^ 32 = regEnd + newMetaLen conf name :=
      Nat.mod_eq_of_lt (by omega)
    rw [hPtrLoc, length_metaBytes] at hIn₃
    rw [List.length_take] at hIn₂
    have hTake : min (name.length % 256) name.length = name.length % 256 :=
      Nat.min_eq_left (Nat.mod_le _ _)
    rw [hPtrLoc, hNewEnd]
    exact ⟨by omega, by omega, rfl⟩

section

variable {regEnd dataLoc x : Nat}

theorem newMetaLen_lt :
    newMetaLen conf name < 256 :=
  Nat.mod_lt _ (by decide)

/- Length bytes and names before the new entry stay. -/
theorem enteredMem_of_lt
    (hBase : conf.regEnt1Loc ≤ x) (hLt : x + conf.eepregPtrLen < regEnd) :
    (enteredMem conf mem regEnd name dataLoc).byte x = mem.byte x := by
  have hEnt1 : conf.regEnt1Loc = conf.regEndPtrLoc + conf.eepregPtrLen := rfl
  unfold enteredMem
  rw [ByteMem.write_of_not_mem (by rw [length_metaBytes]; omega),
    ByteMem.write_of_not_mem (by omega), ByteMem.write_of_not_mem (by omega),
    ByteMem.write_of_not_mem (by omega)]

/- So does the magic number. -/
theorem enteredMem_of_lt_endPtr
    (hStart : conf.regEnt1Loc ≤ regEnd) (hLt : x < conf.regEndPtrLoc) :
    (enteredMem conf mem regEnd name dataLoc).byte x = mem.byte x := by
  have hEnt1 : conf.regEnt1Loc = conf.regEndPtrLoc + conf.eepregPtrLen := rfl
  unfold enteredMem
  rw [ByteMem.write_of_not_mem (by omega), ByteMem.write_of_not_mem (by omega),
    ByteMem.write_of_not_mem (by omega), ByteMem.write_of_not_mem (by omega)]

theorem enteredMem_check
    (hStart : conf.regEnt1Loc ≤ regEnd) (hCheck : eepregCheck conf mem = some .ok) :
    eepregCheck conf (enteredMem conf mem regEnd name dataLoc) = some .ok := by
  have hEndPtr : conf.regEndPtrLoc = conf.regMagicLoc + EepregConf.magicSize := rfl
  have hRead : (enteredMem conf mem regEnd name dataLoc).read
          conf.regMagicLoc EepregConf.magicSize =
        mem.read conf.regMagicLoc EepregConf.magicSize :=
    ByteMem.read_congr
      (fun x _ hLt =>
        enteredMem_of_lt_endPtr hStart (by omega))
  rw [← hCheck]
  unfold eepregCheck eepromRead
  rw [hRead]

/- The end of the registry, as far as its bytes hold it. -/
theorem enteredMem_getRegEnd
    (hFits : conf.Fits) :
    getRegEnd conf (enteredMem conf mem regEnd name dataLoc) =
      some ((regEnd + newMetaLen conf name) % 256 ^ conf.eepregPtrLen) := by
  have hHolds : (enteredMem conf mem regEnd name dataLoc).Holds
        conf.regEndPtrLoc
        (metaBytes conf.eepregPtrLen (regEnd + newMetaLen conf name)) :=
    ByteMem.holds_write_self
  have hRead := hHolds.read_eq
  rw [length_metaBytes] at hRead
  have hEnt1 : conf.regEnt1Loc = conf.regEndPtrLoc + conf.eepregPtrLen := rfl
  have hRoom := hFits.room
  unfold getRegEnd readMetaUint eepromRead
  rw [if_pos (by omega), hRead]
  exact congrArg some (fromNetwork_metaBytes_mod _ _)

/- The parts of an entry whose length fits its byte. -/
theorem enteredMem_entry
    (hStart : conf.regEnt1Loc ≤ regEnd)
    (hShort : entLenSiz + name.length + conf.eepregPtrLen < 256) :
    (enteredMem conf mem regEnd name dataLoc).Holds regEnd (entryBytes conf (name, 0) dataLoc) := by
  have hEnt1 : conf.regEnt1Loc = conf.regEndPtrLoc + conf.eepregPtrLen := rfl
  have hName : name.length % 256 = name.length := Nat.mod_eq_of_lt (by omega)
  have hLen : newMetaLen conf name = entryLen conf (name, 0) := by
    unfold newMetaLen
    rw [hName]
    exact Nat.mod_eq_of_lt hShort
  have hAt :
      regEnd + entryLen conf (name, 0) - conf.eepregPtrLen = regEnd + entLenSiz + name.length := by
    unfold entryLen
    dsimp only
    omega
  unfold enteredMem
  rw [hName, hLen, hAt, List.take_length, @write_entry conf mem (name, 0)]
  apply ByteMem.holds_write_self.write
  rw [length_metaBytes]
  omega

/-
  A length that has wrapped: the data pointer ends on the
  first bytes of the entry, after the length byte and the
  name have been written.
-/
theorem enteredMem_overlay
    (hStart : conf.regEnt1Loc ≤ regEnd) (hName : name.length < 256)
    (hLong : 256 < entLenSiz + name.length + conf.eepregPtrLen) :
    (enteredMem conf mem regEnd name dataLoc).Holds regEnd
        ((metaBytes conf.eepregPtrLen dataLoc).drop (conf.eepregPtrLen - newMetaLen conf name)) ∧
      (enteredMem conf mem regEnd name dataLoc).Holds (regEnd + newMetaLen conf name)
        (name.drop (newMetaLen conf name - 1)) := by
  have hEnt1 : conf.regEnt1Loc = conf.regEndPtrLoc + conf.eepregPtrLen := rfl
  have hPtr : conf.eepregPtrLen ≤ 4 := ptrLen_le
  have hMod : name.length % 256 = name.length := Nat.mod_eq_of_lt hName
  have hLen : newMetaLen conf name + 256 = entLenSiz + name.length + conf.eepregPtrLen := by
    unfold newMetaLen
    unfold entLenSiz at *
    omega
  unfold enteredMem
  rw [hMod, List.take_length]
  unfold entLenSiz at *
  constructor
  · apply ByteMem.Holds.write
    · -- the last bytes of the pointer
      have hWhole := @ByteMem.holds_write_self
          ((mem.write regEnd [UInt8.ofNat (newMetaLen conf name)]).write (regEnd + 1) name)
          (regEnd + newMetaLen conf name - conf.eepregPtrLen)
          (metaBytes conf.eepregPtrLen dataLoc)
      have hParts := hWhole.split (conf.eepregPtrLen - newMetaLen conf name)
      rw [length_metaBytes] at hParts
      have hAt : regEnd + newMetaLen conf name - conf.eepregPtrLen +
              min (conf.eepregPtrLen - newMetaLen conf name) conf.eepregPtrLen = regEnd := by
        omega
      rw [hAt] at hParts
      exact hParts.2
    · rw [length_metaBytes]
      omega
  · apply ByteMem.Holds.write
    · apply ByteMem.Holds.write
      · have hWhole := @ByteMem.holds_write_self
            (mem.write regEnd [UInt8.ofNat (newMetaLen conf name)])
            (regEnd + 1) name
        have hParts := hWhole.split (newMetaLen conf name - 1)
        have hAt : regEnd + 1 + min (newMetaLen conf name - 1) name.length =
              regEnd + newMetaLen conf name := by
          omega
        rw [hAt] at hParts
        exact hParts.2
      · rw [length_metaBytes]
        omega
    · rw [length_metaBytes]
      omega

/-
  Where the pointer begins: in the pointer of the entry
  before, or in the end of the registry, which is written
  later.
-/
theorem enteredMem_pointer
    (hStart : conf.regEnt1Loc + conf.eepregPtrLen ≤ regEnd + newMetaLen conf name) :
    (enteredMem conf mem regEnd name dataLoc).Holds
      (regEnd + newMetaLen conf name - conf.eepregPtrLen)
      (metaBytes conf.eepregPtrLen dataLoc) := by
  have hEnt1 : conf.regEnt1Loc = conf.regEndPtrLoc + conf.eepregPtrLen := rfl
  apply ByteMem.holds_write_self.write
  rw [length_metaBytes, length_metaBytes]
  omega

theorem enteredMem_first
    (hShort : newMetaLen conf name ≤ conf.eepregPtrLen) :
    (enteredMem conf mem conf.regEnt1Loc name dataLoc).Holds
      (conf.regEnt1Loc + newMetaLen conf name - conf.eepregPtrLen)
      ((metaBytes conf.eepregPtrLen
        (conf.regEnt1Loc + newMetaLen conf name)).drop (newMetaLen conf name)) := by
  have hEnt1 : conf.regEnt1Loc = conf.regEndPtrLoc + conf.eepregPtrLen := rfl
  have hWhole : (enteredMem conf mem conf.regEnt1Loc name dataLoc).Holds conf.regEndPtrLoc
          (metaBytes conf.eepregPtrLen (conf.regEnt1Loc + newMetaLen conf name)) :=
    ByteMem.holds_write_self
  have hParts := hWhole.split (newMetaLen conf name)
  rw [length_metaBytes, Nat.min_eq_left hShort] at hParts
  have hAt : conf.regEnt1Loc + newMetaLen conf name -
          conf.eepregPtrLen = conf.regEndPtrLoc + newMetaLen conf name := by
    omega
  rw [hAt]
  exact hParts.2

end

----
-- Reading Back
----

section

variable {regEnd dataLoc p : Nat}

/- What a successful `eepreg_read` has found. -/
theorem eepregRead_ok_iff
    (hCheck : eepregCheck conf mem = some .ok) :
    eepregRead conf mem name = some (.ok, some p) ↔ ∃ loc metaLen,
        getMetaLoc conf mem name = some (some loc) ∧ getMetaLen conf mem loc = some metaLen ∧
          getDataLoc conf mem loc metaLen = some p := by
  unfold eepregRead
  rw [hCheck, Option.bind_eq_bind, Option.bind_some, if_pos rfl]
  constructor
  · intro hRead
    rcases Option.bind_eq_some_iff.mp hRead with ⟨found, hFound, hRest⟩
    cases found with
    | none => cases hRest
    | some loc =>
      rcases Option.bind_eq_some_iff.mp hRest with ⟨metaLen, hLen, hData⟩
      rcases Option.bind_eq_some_iff.mp hData with ⟨pos, hPos, hLast⟩
      cases hLast
      exact ⟨loc, metaLen, hFound, hLen, hPos⟩
  · rintro ⟨loc, metaLen, hFound, hLen, hPos⟩
    simp only [bind, hFound, Option.bind_some, hLen, hPos]

variable (hFits : conf.Fits) (hSize : conf.eepromSize + 255 < 2 ^ 32)
variable (hStart : conf.regEnt1Loc ≤ regEnd) (hCheck : eepregCheck conf mem = some .ok)
variable (hEnd : getRegEnd conf mem = some regEnd)
variable (hPath : EntryPath conf mem regEnd conf.regEnt1Loc)
variable (hNone : getMetaLoc conf mem name = some none)
variable (hIn : regEnd + newMetaLen conf name ≤ conf.eepromSize)

section

include hFits

/- The search after the new entry arrives at it. -/
theorem enteredMem_search
    (hEnd : getRegEnd conf mem = some regEnd)
    (hPath : EntryPath conf mem regEnd conf.regEnt1Loc)
    (hNone : getMetaLoc conf mem name = some none) (hSize : regEnd < 2 ^ 32)
    (hWide : regEnd + newMetaLen conf name < 256 ^ conf.eepregPtrLen) :
    ∃ fuel, getMetaLoc conf (enteredMem conf mem regEnd name dataLoc) name = getMetaLocFrom conf
          (enteredMem conf mem regEnd name dataLoc) name
          (regEnd + newMetaLen conf name) (fuel + 1)
          regEnd := by
  unfold getMetaLoc at hNone ⊢
  rw [hEnd] at hNone
  rw [enteredMem_getRegEnd hFits, Nat.mod_eq_of_lt hWide]
  exact hPath.search_eq (Nat.le_refl _) hSize hNone
      (fun x hBase hLt => enteredMem_of_lt hBase hLt)
      (Nat.le_add_right _ _) (by omega)

/- An end that does not fit its bytes hides all entries. -/
theorem enteredMem_hidden
    (hIn : regEnd + newMetaLen conf name ≤ conf.eepromSize)
    (hWide : ¬ regEnd + newMetaLen conf name < 256 ^ conf.eepregPtrLen) :
    getMetaLoc conf (enteredMem conf mem regEnd name dataLoc) name = some none := by
  have hSize := hFits.size_le
  have hEq : regEnd + newMetaLen conf name = 256 ^ conf.eepregPtrLen := by
    omega
  unfold getMetaLoc
  rw [enteredMem_getRegEnd hFits, hEq, Nat.mod_self]
  rfl

include hStart hCheck hEnd hPath hNone hIn in
/- A read back of an entry whose length fits its byte. -/
theorem read_short_iff
    (hData : dataLoc ≤ conf.datStart)
    (hShort : entLenSiz + name.length + conf.eepregPtrLen < 256) :
    eepregRead conf (enteredMem conf mem regEnd name dataLoc) name = some (.ok, some p) ↔
      regEnd + newMetaLen conf name < 256 ^ conf.eepregPtrLen ∧ p = dataLoc := by
  have hSize := hFits.size_lt
  have hLen : newMetaLen conf name = entryLen conf (name, 0) := by
    unfold newMetaLen
    rw [Nat.mod_eq_of_lt (a := name.length) (by omega)]
    exact Nat.mod_eq_of_lt hShort
  rw [eepregRead_ok_iff (enteredMem_check hStart hCheck)]
  by_cases hWide : regEnd + newMetaLen conf name < 256 ^ conf.eepregPtrLen
  · rcases
      @enteredMem_search conf mem name regEnd dataLoc hFits hEnd hPath hNone (by omega) hWide with
      ⟨fuel, hSearch⟩
    have hEntry := @enteredMem_entry conf mem name regEnd dataLoc hStart hShort
    have hPos : entLenSiz + conf.eepregPtrLen ≤ entryLen conf (name, 0) := entryLen_pos
    have hOne : 0 < entLenSiz := Nat.one_pos
    rw [hLen] at hIn
    have hMetaLen := getMetaLen_of_holds hEntry hShort hIn
    have hDataLoc := getDataLoc_of_holds hFits hEntry hData hIn
    have hCmp : cmpName conf
            (enteredMem conf mem regEnd name dataLoc)
            regEnd name (entryLen conf (name, 0)) = some true := by
      have hName : calcNameLen conf (entryLen conf (name, 0)) = name.length := by
        rw [calcNameLen_of_fields hPos hShort]
        unfold entryLen
        dsimp only
        omega
      have hSame := @cmpNameFrom_of_holds conf _ _ name name (holds_entryBytes.mp hEntry).2.1 (by
            unfold entryLen at hIn
            dsimp only at hIn
            omega)
      unfold cmpName
      rw [hName, hSame, decide_eq_true rfl]
    have hFound :
        getMetaLoc conf (enteredMem conf mem regEnd name dataLoc) name = some (some regEnd) := by
      rw [hSearch, getMetaLocFrom, if_pos (by omega), hMetaLen]
      simp only [bind, Option.bind_some, hCmp, if_true]
    constructor
    · rintro ⟨loc, metaLen, hLoc, hLoc', hPos'⟩
      rw [hFound] at hLoc
      cases hLoc
      rw [hMetaLen] at hLoc'
      cases hLoc'
      rw [hDataLoc] at hPos'
      cases hPos'
      exact ⟨hWide, rfl⟩
    · rintro ⟨_, rfl⟩
      exact ⟨regEnd, _, hFound, hMetaLen, hDataLoc⟩
  · constructor
    · rintro ⟨loc, metaLen, hLoc, _, _⟩
      rw [enteredMem_hidden hFits hIn hWide] at hLoc
      cases hLoc
    · rintro ⟨hLt, _⟩
      exact absurd hLt hWide

include hSize hStart hCheck hIn in
/- What a read back has found. -/
theorem enteredMem_found
    (hRead : eepregRead conf (enteredMem conf mem regEnd name dataLoc) name = some (.ok, some p)) :
    ∃ loc metaLen, getMetaLoc conf
            (enteredMem conf mem regEnd name dataLoc) name = some (some loc) ∧
        getMetaLen conf (enteredMem conf mem regEnd name dataLoc) loc = some metaLen ∧
        calcNameLen conf metaLen = name.length ∧
        (enteredMem conf mem regEnd name dataLoc).Holds (loc + entLenSiz) name ∧
        getDataLoc conf (enteredMem conf mem regEnd name dataLoc) loc metaLen = some p := by
  rcases (eepregRead_ok_iff (enteredMem_check hStart hCheck)).mp
      hRead with ⟨loc, metaLen, hLoc, hLen, hPos⟩
  have hLe :
      (regEnd + newMetaLen conf name) % 256 ^ conf.eepregPtrLen ≤ regEnd + newMetaLen conf name :=
    Nat.mod_le _ _
  have hFound := hLoc
  unfold getMetaLoc at hFound
  rw [enteredMem_getRegEnd hFits, Option.bind_eq_bind, Option.bind_some] at hFound
  rcases getMetaLocFrom_found (by omega) hFound with ⟨_, _, metaLen', hLen', hCmp⟩
  rw [hLen] at hLen'
  cases hLen'
  rcases cmpNameFrom_true hCmp with ⟨hName, hHolds⟩
  exact ⟨loc, metaLen, hLoc, hLen, hName.symm, hHolds, hPos⟩

include hSize hStart hCheck hIn in
/- Names that no length byte describes are never found. -/
theorem read_long_name
    (hName : 256 ≤ name.length) :
    eepregRead conf (enteredMem conf mem regEnd name dataLoc) name ≠ some (.ok, some p) := by
  intro hRead
  rcases enteredMem_found hFits hSize hStart hCheck hIn hRead with ⟨_, metaLen, _, _, hLen, _, _⟩
  have hLt : calcNameLen conf metaLen < 256 := Nat.mod_lt _ (by decide)
  omega

include hSize hStart hCheck hEnd hPath hNone hIn in
/- An entry of length zero lies behind the end. -/
theorem read_zero_length
    (hZero : newMetaLen conf name = 0) :
    eepregRead conf (enteredMem conf mem regEnd name dataLoc) name ≠ some (.ok, some p) := by
  intro hRead
  rcases enteredMem_found hFits hSize hStart hCheck hIn hRead with ⟨_, _, hFound, _⟩
  by_cases hWide : regEnd + newMetaLen conf name < 256 ^ conf.eepregPtrLen
  · rcases
      @enteredMem_search conf mem name regEnd dataLoc hFits hEnd hPath hNone (by omega) hWide with
      ⟨fuel, hSearch⟩
    rw [hSearch, getMetaLocFrom, if_neg (by omega)] at hFound
    cases hFound
  · rw [enteredMem_hidden hFits hIn hWide] at hFound
    cases hFound

end

/-
  The length byte of the entry has wrapped, and the data
  pointer has the same bytes as what it is written over: the
  length byte, the start of the name and, before the first
  entry, the new end of the registry.
-/
structure PointerOverlays
    (conf : EepregConf) (regEnd : Nat) (name : List UInt8)
    (dataLoc : Nat) : Prop where
  name_lt : name.length < 256
  wraps : 256 < entLenSiz + name.length + conf.eepregPtrLen
  entry :
    (metaBytes conf.eepregPtrLen dataLoc).drop
        (conf.eepregPtrLen - newMetaLen conf name) =
      (UInt8.ofNat (newMetaLen conf name) :: name).take (newMetaLen conf name)
  first :
    regEnd = conf.regEnt1Loc →
      (metaBytes conf.eepregPtrLen dataLoc).take
          (conf.eepregPtrLen - newMetaLen conf name) =
        (metaBytes conf.eepregPtrLen (regEnd + newMetaLen conf name)).drop (newMetaLen conf name)

/- The lengths of a wrapped entry. -/
theorem newMetaLen_wrapped
    (hName : name.length < 256)
    (hLong : 256 < entLenSiz + name.length + conf.eepregPtrLen) :
    newMetaLen conf name + 256 = entLenSiz + name.length + conf.eepregPtrLen ∧
      newMetaLen conf name ≤ conf.eepregPtrLen ∧
      calcNameLen conf (newMetaLen conf name) = name.length ∧
      ∀ metaLen < 256, calcNameLen conf metaLen = name.length → metaLen = newMetaLen conf name := by
  have hPtr : conf.eepregPtrLen ≤ 4 := ptrLen_le
  have hLen : newMetaLen conf name + 256 = entLenSiz + name.length + conf.eepregPtrLen := by
    unfold newMetaLen
    unfold entLenSiz at *
    omega
  unfold calcNameLen
  unfold entLenSiz at *
  refine ⟨hLen, by omega, by omega, ?_⟩
  intro metaLen hLt hEq
  omega

/- The bytes that a harmless overlay leaves. -/
theorem PointerOverlays.holds
    (hOver : PointerOverlays conf regEnd name dataLoc)
    (hStart : conf.regEnt1Loc ≤ regEnd)
    (hApart : regEnd = conf.regEnt1Loc ∨ conf.regEnt1Loc + conf.eepregPtrLen ≤ regEnd) :
    (enteredMem conf mem regEnd name dataLoc).Holds regEnd
        (UInt8.ofNat (newMetaLen conf name) :: name) ∧
      (enteredMem conf mem regEnd name dataLoc).Holds
        (regEnd + newMetaLen conf name - conf.eepregPtrLen)
        (metaBytes conf.eepregPtrLen dataLoc) := by
  have hEnt1 : conf.regEnt1Loc = conf.regEndPtrLoc + conf.eepregPtrLen := rfl
  rcases newMetaLen_wrapped hOver.name_lt hOver.wraps with ⟨hLen, hLe, _, _⟩
  have hPtr : conf.eepregPtrLen ≤ 4 := ptrLen_le
  have hOne : entLenSiz = 1 := rfl
  have hWraps := hOver.wraps
  rcases @enteredMem_overlay conf mem name regEnd dataLoc hStart
      hOver.name_lt hOver.wraps with ⟨hLow, hHigh⟩
  constructor
  · rw [hOver.entry] at hLow
    have hDrop : (UInt8.ofNat (newMetaLen conf name) :: name).drop
            (newMetaLen conf name) = name.drop (newMetaLen conf name - 1) := by
      have hNe : newMetaLen conf name ≠ 0 := by
        omega
      rcases Nat.exists_eq_succ_of_ne_zero hNe with ⟨m, hm⟩
      rw [hm]
      rfl
    have hMin : min (newMetaLen conf name) (name.length + 1) = newMetaLen conf name := by
      omega
    rw [← List.take_append_drop (newMetaLen conf name) (UInt8.ofNat (newMetaLen conf name) :: name)]
    apply ByteMem.holds_append.mpr
    rw [List.length_take, List.length_cons, hMin, hDrop]
    exact ⟨hLow, hHigh⟩
  · rcases hApart with rfl | hApart
    · -- the pointer lies over the end of the registry
      rw [← List.take_append_drop (conf.eepregPtrLen - newMetaLen conf name)
        (metaBytes conf.eepregPtrLen dataLoc)]
      apply ByteMem.holds_append.mpr
      have hAt : conf.regEnt1Loc + newMetaLen conf name - conf.eepregPtrLen +
              min (conf.eepregPtrLen - newMetaLen conf name) conf.eepregPtrLen =
            conf.regEnt1Loc := by
        omega
      rw [List.length_take, length_metaBytes, hAt, hOver.first rfl]
      exact ⟨enteredMem_first hLe, hLow⟩
    · exact enteredMem_pointer (by omega)

/- A number that has been read is in the memory. -/
theorem readMetaUint_some
    {loc val : Nat} (hRead : readMetaUint conf mem loc = some val) :
    mem.Holds loc (metaBytes conf.eepregPtrLen val) := by
  unfold readMetaUint eepromRead at hRead
  by_cases hIn : loc + conf.eepregPtrLen ≤ conf.eepromSize
  · rw [if_pos hIn, Option.bind_eq_bind, Option.bind_some] at hRead
    have hVal := Option.some.inj hRead
    have hBytes := metaBytes_fromNetwork (mem.read loc conf.eepregPtrLen)
    rw [ByteMem.length_read, hVal] at hBytes
    apply ByteMem.holds_of_read_eq
    rw [length_metaBytes, hBytes]
  · rw [if_neg hIn] at hRead
    cases hRead

/- The data pointer that a read has found, with its place. -/
theorem getDataLoc_holds
    {loc metaLen : Nat} (hLoc : conf.eepregPtrLen ≤ loc + metaLen)
    (hLt : loc + metaLen < 2 ^ 32)
    (hData : getDataLoc conf mem loc metaLen = some p) :
    mem.Holds (loc + metaLen - conf.eepregPtrLen) (metaBytes conf.eepregPtrLen p) := by
  have hHolds := readMetaUint_some hData
  unfold dataPtrLoc at hHolds
  rwa [sub32_of_le hLoc hLt] at hHolds

include hFits hSize hStart hCheck hEnd hPath hNone hIn

/-
  A read back that finds the pointer finds it at the entry,
  with the length byte as it was meant.
-/
theorem overlay_of_read
    (hName : name.length < 256)
    (hLong : 256 < entLenSiz + name.length + conf.eepregPtrLen)
    (hRead :
      eepregRead conf (enteredMem conf mem regEnd name dataLoc) name = some (.ok, some dataLoc)) :
    regEnd + newMetaLen conf name < 256 ^ conf.eepregPtrLen ∧
      PointerOverlays conf regEnd name dataLoc := by
  have hEnt1 : conf.regEnt1Loc = conf.regEndPtrLoc + conf.eepregPtrLen := rfl
  have hOne : entLenSiz = 1 := rfl
  have hPtr : conf.eepregPtrLen ≤ 4 := ptrLen_le
  rcases newMetaLen_wrapped hName hLong with ⟨hLen, hLe, hNameLen, hOnly⟩
  rcases enteredMem_found hFits hSize hStart hCheck hIn hRead with
    ⟨loc, metaLen, hFound, hLenByte, hSame, hHolds, hData⟩
  rcases getMetaLen_some hLenByte with ⟨hLocIn, hByte, hSmall⟩
  have hMeta := hOnly metaLen hSmall hSame
  subst hMeta
  have hWide : regEnd + newMetaLen conf name < 256 ^ conf.eepregPtrLen := by
    by_contra hNot
    rw [enteredMem_hidden hFits hIn hNot] at hFound
    cases hFound
  rcases
    @enteredMem_search conf mem name regEnd dataLoc hFits hEnd hPath hNone (by omega) hWide with
    ⟨fuel, hSearch⟩
  rw [hSearch] at hFound
  have hBound : regEnd + newMetaLen conf name + 255 ≤ 2 ^ 32 := by
    omega
  have hGe : regEnd ≤ loc := (getMetaLocFrom_found hBound hFound).1
  rcases @enteredMem_overlay conf mem name regEnd dataLoc hStart hName hLong with ⟨hLow, _⟩
  have hPointer := getDataLoc_holds (by omega) (by omega) hData
  -- both length bytes are the same byte of the pointer
  have hSplit := hPointer.split (conf.eepregPtrLen - newMetaLen conf name)
  have hAt : loc + newMetaLen conf name - conf.eepregPtrLen +
          min (conf.eepregPtrLen - newMetaLen conf name)
            (metaBytes conf.eepregPtrLen dataLoc).length = loc := by
    rw [length_metaBytes]
    omega
  rw [hAt] at hSplit
  have hHead : (enteredMem conf mem regEnd name dataLoc).byte regEnd =
        (enteredMem conf mem regEnd name dataLoc).byte
          loc := by
    rcases List.exists_cons_of_length_pos
      (l := (metaBytes conf.eepregPtrLen dataLoc).drop (conf.eepregPtrLen - newMetaLen conf name))
      (by rw [List.length_drop, length_metaBytes]; omega) with
      ⟨b, rest, hCons⟩
    have hHere := hLow
    have hThere := hSplit.2
    rw [hCons] at hHere hThere
    rw [(ByteMem.holds_cons.mp hHere).1, (ByteMem.holds_cons.mp hThere).1]
  have hLenHere : getMetaLen conf
          (enteredMem conf mem regEnd name dataLoc) regEnd = some (newMetaLen conf name) := by
    unfold getMetaLen eepromReadByte at hLenByte ⊢
    rw [if_pos (by omega)] at hLenByte
    rw [if_pos (by omega), hHead]
    exact hLenByte
  -- so the search stops here
  have hHere : loc = regEnd := by
    rw [getMetaLocFrom, if_pos (by omega), hLenHere] at hFound
    rcases Option.bind_eq_some_iff.mp hFound with ⟨_, hSome, hRest⟩
    cases hSome
    rcases Option.bind_eq_some_iff.mp hRest with ⟨same, _, hLast⟩
    cases same with
    | true =>
      cases hLast
      rfl
    | false =>
      have hNext : (regEnd + newMetaLen conf name) % 2 ^ 32 = regEnd + newMetaLen conf name :=
        Nat.mod_eq_of_lt (by omega)
      have hLast' : getMetaLocFrom conf
              (enteredMem conf mem regEnd name dataLoc)
              name (regEnd + newMetaLen conf name) fuel
              (regEnd + newMetaLen conf name) = some (some loc) := by
        rw [hNext] at hLast
        exact hLast
      have hPast := getMetaLocFrom_found hBound hLast'
      omega
  subst hHere
  refine ⟨hWide, hName, hLong, ?_, ?_⟩
  · have hEntry : (enteredMem conf mem loc name dataLoc).Holds loc
          (UInt8.ofNat (newMetaLen conf name) :: name) :=
      ByteMem.holds_cons.mpr ⟨hByte, hHolds⟩
    refine hLow.unique (hEntry.split (newMetaLen conf name)).1 ?_
    rw [List.length_drop, length_metaBytes, List.length_take, List.length_cons]
    omega
  · rintro rfl
    refine hSplit.1.unique (enteredMem_first hLe) ?_
    rw [List.length_take, List.length_drop, length_metaBytes, length_metaBytes]
    omega

/- A harmless overlay is read back. -/
theorem PointerOverlays.read_eq
    (hOver : PointerOverlays conf regEnd name dataLoc)
    (hApart : regEnd = conf.regEnt1Loc ∨ conf.regEnt1Loc + conf.eepregPtrLen ≤ regEnd)
    (hNameIn : regEnd + entLenSiz + name.length ≤ conf.eepromSize)
    (hWide : regEnd + newMetaLen conf name < 256 ^ conf.eepregPtrLen)
    (hData : dataLoc ≤ conf.datStart) :
    eepregRead conf (enteredMem conf mem regEnd name dataLoc) name = some (.ok, some dataLoc) := by
  have hEnt1 : conf.regEnt1Loc = conf.regEndPtrLoc + conf.eepregPtrLen := rfl
  have hPtrLt := hFits.ptr_lt
  have hOne : entLenSiz = 1 := rfl
  have hWraps := hOver.wraps
  rcases newMetaLen_wrapped hOver.name_lt hWraps with ⟨hLen, hLe, hNameLen, _⟩
  rcases
    @PointerOverlays.holds conf mem name regEnd dataLoc hOver hStart hApart with ⟨hEntry, hPointer⟩
  rcases ByteMem.holds_cons.mp hEntry with ⟨hByte, hName⟩
  rcases
    @enteredMem_search conf mem name regEnd dataLoc hFits hEnd hPath hNone (by omega) hWide with
    ⟨fuel, hSearch⟩
  have hMetaLen : getMetaLen conf
          (enteredMem conf mem regEnd name dataLoc) regEnd = some (newMetaLen conf name) := by
    unfold getMetaLen eepromReadByte
    rw [if_pos (by omega), hByte]
    refine congrArg some ?_
    rw [UInt8.toNat_ofNat']
    exact Nat.mod_eq_of_lt newMetaLen_lt
  have hCmp : cmpName conf
          (enteredMem conf mem regEnd name dataLoc)
          regEnd name (newMetaLen conf name) = some true := by
    unfold cmpName
    rw [hNameLen]
    have hSame := @cmpNameFrom_of_holds conf _ _ name name hName hNameIn
    rw [decide_eq_true rfl] at hSame
    exact hSame
  rw [eepregRead_ok_iff (enteredMem_check hStart hCheck)]
  refine ⟨regEnd, newMetaLen conf name, ?_, hMetaLen, ?_⟩
  · rw [hSearch, getMetaLocFrom, if_pos (by omega), hMetaLen]
    simp only [bind, Option.bind_some, hCmp, if_true]
  · unfold getDataLoc dataPtrLoc
    rw [sub32_of_le (by omega) (by omega)]
    exact readMetaUint_of_holds hPointer (by omega) (by omega)

end

end Riot
