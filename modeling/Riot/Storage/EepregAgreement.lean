import Riot.Storage.EepregReadBack
import Riot.Storage.EepregRemoval

/-
  What `eepreg_read` returns after `eepreg_add` or
  `eepreg_write`.

  The calls agree when the data fits below the data that is
  there, and the new entry can be found.  `eepreg_write`
  computes the position with the end of the registry that
  was there before it made a new one.
-/

----
-- Calls
----

namespace Riot

variable {conf : EepregConf} {mem mem' : ByteMem} {name : List UInt8}

/- The two calls that store an entry. -/
inductive EepregCall where
  | add
  | write
  deriving DecidableEq, Repr

def EepregCall.exec
    (conf : EepregConf) (mem : ByteMem) (name : List UInt8) (len : Nat) :
    EepregCall → Option (EepregRet × Nat × ByteMem)
| .add => eepregAdd conf mem name len
| .write => eepregWrite conf mem name len

/-
  A read after a call that returned the position `p` returns
  it too, and the data ends where data may end.
-/
structure ReadsBack
    (conf : EepregConf) (mem : ByteMem) (name : List UInt8)
    (len p : Nat) : Prop where
  read : eepregRead conf mem name = some (.ok, some p)
  bound : p + len ≤ conf.datStart

/- A new entry can be found again, and its data has room. -/
structure EntryFits
    (conf : EepregConf) (regEnd lastLoc : Nat) (name : List UInt8)
    (len : Nat) : Prop where
  len_le : len ≤ lastLoc
  lastLoc_le : lastLoc ≤ conf.datStart
  end_lt : regEnd + newMetaLen conf name < 256 ^ conf.eepregPtrLen
  entry :
    entLenSiz + name.length + conf.eepregPtrLen < 256 ∨
      PointerOverlays conf regEnd name (lastLoc - len)

/-
  The end that the memory had before a registry was made,
  with the start of the data where that registry has it.
-/
def FindsDatStart
    (conf : EepregConf) (mem mem₀ : ByteMem) : Prop :=
  ∃ oldEnd, getRegEnd conf mem = some oldEnd ∧ getLastLoc conf mem₀ oldEnd = some conf.datStart

/-
  When a call stores what a read finds.  A name that is there
  has its data below that of the entry before.  For a new
  name, `eepreg_write` has to find the start of the data
  where the registry ended before it was made.
-/
inductive StoreFits
    (conf : EepregConf) (mem mem₀ : ByteMem) (name : List UInt8)
    (len : Nat) : EepregCall → Prop where
  | present
      {loc prevLoc : Nat}
      (hFound : getMetaLoc conf mem₀ name = some (some loc))
      (hPrev : getLastLoc conf mem₀ loc = some prevLoc)
      (hLen : len ≤ prevLoc)
      (hTop : prevLoc ≤ conf.datStart) :
      StoreFits conf mem mem₀ name len .add
  | fresh
      {call : EepregCall}
      {regEnd lastLoc : Nat}
      (hNone : getMetaLoc conf mem₀ name = some none)
      (hEnd : getRegEnd conf mem₀ = some regEnd)
      (hLast : getLastLoc conf mem₀ regEnd = some lastLoc)
      (hEntry : EntryFits conf regEnd lastLoc name len)
      (hStale : call = .write → eepregCheck conf mem = some .enoent → FindsDatStart conf mem mem₀) :
      StoreFits conf mem mem₀ name len call

section

variable {mem₀ : ByteMem} {regEnd lastLoc len p : Nat}

/- The differences that the calls compute. -/
theorem sub32_add_le_iff
    {a b top : Nat} (hA : a < 2 ^ 32) (hB : b < 2 ^ 32) (hTop : top < 2 ^ 32) :
    sub32 a b + b ≤ top ↔ b ≤ a ∧ a ≤ top := by
  unfold sub32
  rw [Nat.mod_eq_of_lt hB]
  omega

theorem readMetaUint_lt
    {loc val : Nat} (hRead : readMetaUint conf mem loc = some val) :
    val < 2 ^ 32 := by
  unfold readMetaUint eepromRead at hRead
  by_cases hIn : loc + conf.eepregPtrLen ≤ conf.eepromSize
  · rw [if_pos hIn, Option.bind_eq_bind, Option.bind_some] at hRead
    have hBytes := metaBytes_fromNetwork (mem.read loc conf.eepregPtrLen)
    have hVal := Option.some.inj hRead
    have hLow := fromNetwork_metaBytes_mod conf.eepregPtrLen val
    rw [ByteMem.length_read, hVal] at hBytes
    rw [hBytes, hVal] at hLow
    have hLt : val < 256 ^ conf.eepregPtrLen := by
      rw [hLow]
      exact Nat.mod_lt _ (Nat.pow_pos (by decide))
    have hPow : 256 ^ conf.eepregPtrLen ≤ 256 ^ 4 := Nat.pow_le_pow_right (by decide) ptrLen_le
    exact Nat.lt_of_lt_of_le hLt hPow
  · rw [if_neg hIn] at hRead
    cases hRead

theorem getLastLoc_lt
    (hFits : conf.Fits) (hLast : getLastLoc conf mem regEnd = some lastLoc) :
    lastLoc < 2 ^ 32 := by
  have hData := hFits.datStart_lt
  have hSize := hFits.size_lt
  unfold getLastLoc at hLast
  by_cases hFirst : regEnd = conf.regEnt1Loc
  · rw [if_pos hFirst] at hLast
    cases hLast
    omega
  · rw [if_neg hFirst] at hLast
    exact readMetaUint_lt hLast

/- The registry that a call works on. -/
theorem checkOrReset_some
    (hFits : conf.Fits) (hPrepared : eepregCheckOrReset conf mem = some mem₀) :
    (eepregCheck conf mem = some .ok ∧ mem₀ = mem) ∨
      (eepregCheck conf mem = some .enoent ∧ EepRegistry conf mem₀ []) := by
  unfold eepregCheckOrReset at hPrepared
  rcases Option.bind_eq_some_iff.mp hPrepared with ⟨ret, hCheck, hRest⟩
  by_cases hNone : ret = .enoent
  · subst hNone
    rw [if_pos rfl] at hRest
    rcases @eepregReset_spec conf mem hFits with ⟨mem', hReset, hReg⟩
    rw [hReset] at hRest
    cases hRest
    exact .inr ⟨hCheck, hReg⟩
  · rw [if_neg hNone] at hRest
    cases hRest
    have hOk : ret = .ok := by
      unfold eepregCheck at hCheck
      rcases Option.bind_eq_some_iff.mp hCheck with ⟨magic, _, hRet⟩
      split at hRet
      · cases hRet
        exact absurd rfl hNone
      · cases hRet
        rfl
    subst hOk
    exact .inl ⟨hCheck, rfl⟩

/- Past the first entry lies at least its pointer. -/
theorem EntryPath.apart
    (hPath : EntryPath conf mem regEnd conf.regEnt1Loc) :
    regEnd = conf.regEnt1Loc ∨ conf.regEnt1Loc + conf.eepregPtrLen ≤ regEnd := by
  cases hPath with
  | done => exact .inl rfl
  | entry _ hFields hRest =>
    have hLe := hRest.le
    exact .inr (by omega)

/- A new entry is read back exactly when it fits. -/
theorem readsBack_new_iff
    {mem' : ByteMem} (hFits : conf.Fits) (hSize : conf.eepromSize + 255 < 2 ^ 32)
    (hLen : len < 2 ^ 32) (hCheck : eepregCheck conf mem = some .ok)
    (hEnd : getRegEnd conf mem = some regEnd)
    (hLast : getLastLoc conf mem regEnd = some lastLoc)
    (hPath : EntryPath conf mem regEnd conf.regEnt1Loc)
    (hNone : getMetaLoc conf mem name = some none)
    (hNew : newEntry conf mem name len = some (.ok, mem')) :
    ReadsBack conf mem' name len (sub32 lastLoc len) ↔ EntryFits conf regEnd lastLoc name len := by
  have hStart := hPath.le
  have hTop := hFits.datStart_lt
  rcases newEntry_some hSize hStart hEnd hLast hNew with ⟨hIn, hNameIn, rfl⟩
  have hBound :
      sub32 lastLoc len + len ≤ conf.datStart ↔ len ≤ lastLoc ∧ lastLoc ≤ conf.datStart :=
    sub32_add_le_iff (getLastLoc_lt hFits hLast) hLen (by omega)
  constructor
  · rintro ⟨hRead, hLe⟩
    rcases hBound.mp hLe with ⟨hLenLe, hLastLe⟩
    have hPos : sub32 lastLoc len = lastLoc - len := sub32_of_le hLenLe (getLastLoc_lt hFits hLast)
    rw [hPos] at hRead
    by_cases hShort : entLenSiz + name.length + conf.eepregPtrLen < 256
    · have hWide :=
        ((read_short_iff hFits hStart hCheck hEnd hPath hNone hIn (by omega) hShort).mp hRead).1
      exact ⟨hLenLe, hLastLe, hWide, .inl hShort⟩
    · by_cases hName : 256 ≤ name.length
      · exact absurd hRead (read_long_name hFits hSize hStart hCheck hIn hName)
      · by_cases hLong : 256 < entLenSiz + name.length + conf.eepregPtrLen
        · rcases overlay_of_read hFits hSize hStart hCheck hEnd
              hPath hNone hIn (by omega) hLong hRead with
            ⟨hWide, hOver⟩
          exact ⟨hLenLe, hLastLe, hWide, .inr hOver⟩
        · have hZero : newMetaLen conf name = 0 := by
            unfold newMetaLen
            omega
          exact absurd hRead (read_zero_length hFits hSize hStart hCheck hEnd hPath hNone hIn hZero)
  · rintro ⟨hLenLe, hLastLe, hWide, hEntry⟩
    refine ⟨?_, hBound.mpr ⟨hLenLe, hLastLe⟩⟩
    have hPos : sub32 lastLoc len = lastLoc - len := sub32_of_le hLenLe (getLastLoc_lt hFits hLast)
    rw [hPos]
    rcases hEntry with hShort | hOver
    · exact
        (read_short_iff hFits hStart hCheck hEnd hPath hNone hIn (by omega) hShort).mpr ⟨hWide, rfl⟩
    · have hMod : name.length % 256 = name.length := Nat.mod_eq_of_lt hOver.name_lt
      rw [hMod] at hNameIn
      exact hOver.read_eq hFits hSize hStart hCheck hEnd hPath hNone hIn hPath.apart
          hNameIn hWide (by omega)

/- The ways of a successful `eepreg_add`. -/
theorem eepregAdd_ok
    {mem' : ByteMem} (hPrepared : eepregCheckOrReset conf mem = some mem₀)
    (hCall : eepregAdd conf mem name len = some (.ok, p, mem')) :
    (∃ regEnd lastLoc, getRegEnd conf mem₀ = some regEnd ∧
          getMetaLoc conf mem₀ name = some none ∧ getLastLoc conf mem₀ regEnd = some lastLoc ∧
          p = sub32 lastLoc len ∧ newEntry conf mem₀ name len = some (.ok, mem')) ∨
      ∃ loc metaLen, getMetaLoc conf mem₀ name = some (some loc) ∧
          getMetaLen conf mem₀ loc = some metaLen ∧ getDataLoc conf mem₀ loc metaLen = some p ∧
          getDataLen conf mem₀ loc p = some len ∧ mem' = mem₀ := by
  unfold eepregAdd at hCall
  rw [hPrepared, Option.bind_eq_bind, Option.bind_some] at hCall
  rcases Option.bind_eq_some_iff.mp hCall with ⟨regEnd, hEnd, hRest⟩
  rcases Option.bind_eq_some_iff.mp hRest with ⟨found, hFound, hMatch⟩
  cases found with
  | none =>
    rcases Option.bind_eq_some_iff.mp hMatch with ⟨lastLoc, hLast, hNew⟩
    rcases Option.bind_eq_some_iff.mp hNew with ⟨⟨ret, mem₁⟩, hEntry, hDone⟩
    cases hDone
    exact .inl ⟨regEnd, lastLoc, hEnd, hFound, hLast, rfl, hEntry⟩
  | some loc =>
    rcases Option.bind_eq_some_iff.mp hMatch with ⟨metaLen, hMeta, hRest₁⟩
    rcases Option.bind_eq_some_iff.mp hRest₁ with ⟨pos, hPos, hRest₂⟩
    rcases Option.bind_eq_some_iff.mp hRest₂ with ⟨dataLen, hDataLen, hLast⟩
    by_cases hNe : len ≠ dataLen
    · rw [if_pos hNe] at hLast
      cases hLast
    · rw [if_neg hNe] at hLast
      cases hLast
      have hEq := not_not.mp hNe
      subst hEq
      exact .inr ⟨loc, metaLen, hFound, hMeta, hPos, hDataLen, rfl⟩

/- The way of a successful `eepreg_write`. -/
theorem eepregWrite_ok
    {mem' : ByteMem} (hPrepared : eepregCheckOrReset conf mem = some mem₀)
    (hCall : eepregWrite conf mem name len = some (.ok, p, mem')) :
    ∃ oldEnd lastLoc, getRegEnd conf mem = some oldEnd ∧
        getLastLoc conf mem₀ oldEnd = some lastLoc ∧ p = sub32 lastLoc len ∧
        newEntry conf mem₀ name len = some (.ok, mem') := by
  unfold eepregWrite at hCall
  rcases Option.bind_eq_some_iff.mp hCall with ⟨oldEnd, hEnd, hRest⟩
  rw [hPrepared, Option.bind_eq_bind, Option.bind_some] at hRest
  rcases Option.bind_eq_some_iff.mp hRest with ⟨lastLoc, hLast, hNew⟩
  rcases Option.bind_eq_some_iff.mp hNew with ⟨⟨ret, mem₁⟩, hEntry, hDone⟩
  cases hDone
  exact ⟨oldEnd, lastLoc, hEnd, hLast, rfl, hEntry⟩

/- A name that is there keeps its position. -/
theorem readsBack_present_iff
    {loc metaLen : Nat} (hFits : conf.Fits) (hLen : len < 2 ^ 32)
    (hCheck : eepregCheck conf mem = some .ok)
    (hFound : getMetaLoc conf mem name = some (some loc))
    (hMeta : getMetaLen conf mem loc = some metaLen)
    (hPos : getDataLoc conf mem loc metaLen = some p)
    (hDataLen : getDataLen conf mem loc p = some len) :
    ReadsBack conf mem name len p ↔ ∃ prevLoc,
        getLastLoc conf mem loc = some prevLoc ∧ len ≤ prevLoc ∧ prevLoc ≤ conf.datStart := by
  have hTop := hFits.datStart_lt
  have hSize := hFits.size_lt
  rcases Option.bind_eq_some_iff.mp hDataLen with ⟨prevLoc, hPrev, hEq⟩
  have hLast : getLastLoc conf mem loc = some prevLoc := hPrev
  have hPrevLt := getLastLoc_lt hFits hLast
  have hPosLt : p < 2 ^ 32 := readMetaUint_lt hPos
  have hBack : p = sub32 prevLoc len := by
    cases hEq
    unfold sub32 at *
    rw [Nat.mod_eq_of_lt hPosLt] at *
    omega
  have hRead : eepregRead conf mem name = some (.ok, some p) :=
    (eepregRead_ok_iff hCheck).mpr ⟨loc, metaLen, hFound, hMeta, hPos⟩
  have hBound :
      sub32 prevLoc len + len ≤ conf.datStart ↔ len ≤ prevLoc ∧ prevLoc ≤ conf.datStart :=
    sub32_add_le_iff hPrevLt hLen (by omega)
  constructor
  · rintro ⟨_, hLe⟩
    rw [hBack] at hLe
    exact ⟨prevLoc, hLast, hBound.mp hLe⟩
  · rintro ⟨prevLoc', hLast', hLe⟩
    rw [hLast] at hLast'
    cases hLast'
    refine ⟨hRead, ?_⟩
    rw [hBack]
    exact hBound.mpr hLe

/- Other entries lead to other positions. -/
theorem stale_of_readsBack
    {mem' : ByteMem} {staleLoc : Nat} (hFits : conf.Fits)
    (hSize : conf.eepromSize + 255 < 2 ^ 32) (hLen : len < 2 ^ 32)
    (hCheck : eepregCheck conf mem = some .ok)
    (hEnd : getRegEnd conf mem = some regEnd)
    (hLast : getLastLoc conf mem regEnd = some conf.datStart)
    (hPath : EntryPath conf mem regEnd conf.regEnt1Loc)
    (hNone : getMetaLoc conf mem name = some none)
    (hPlain : entLenSiz + name.length + conf.eepregPtrLen ≤ 256 ∨ 256 ≤ name.length)
    (hNew : newEntry conf mem name len = some (.ok, mem'))
    (hStale : staleLoc < 2 ^ 32)
    (hBack : ReadsBack conf mem' name len (sub32 staleLoc len)) :
    staleLoc = conf.datStart := by
  have hStart := hPath.le
  have hTop := hFits.datStart_lt
  rcases newEntry_some hSize hStart hEnd hLast hNew with ⟨hIn, _, rfl⟩
  have hBound :
      sub32 staleLoc len + len ≤ conf.datStart ↔ len ≤ staleLoc ∧ staleLoc ≤ conf.datStart :=
    sub32_add_le_iff hStale hLen (by omega)
  rcases hBound.mp hBack.bound with ⟨hLenLe, hStaleLe⟩
  have hRead := hBack.read
  by_cases hName : 256 ≤ name.length
  · exact absurd hRead (read_long_name hFits hSize hStart hCheck hIn hName)
  · by_cases hShort : entLenSiz + name.length + conf.eepregPtrLen < 256
    · have hPos : sub32 conf.datStart len = conf.datStart - len := sub32_of_le (by omega) (by omega)
      have hOld : sub32 staleLoc len = staleLoc - len := sub32_of_le hLenLe hStale
      rw [hPos, hOld] at hRead
      have hSame := ((read_short_iff hFits hStart hCheck hEnd hPath hNone
          hIn (Nat.sub_le _ _) hShort).mp hRead).2
      omega
    · have hZero : newMetaLen conf name = 0 := by
        unfold newMetaLen
        omega
      exact absurd hRead (read_zero_length hFits hSize hStart hCheck hEnd hPath hNone hIn hZero)

/- The registry and the path of its entries, after a check. -/
theorem prepared_path
    (hFits : conf.Fits) (hPrepared : eepregCheckOrReset conf mem = some mem₀)
    (hContent : ∀ regEnd, eepregCheck conf mem = some .ok →
          getRegEnd conf mem = some regEnd → EntryPath conf mem regEnd conf.regEnt1Loc) :
    eepregCheck conf mem₀ = some .ok ∧
      ∀ regEnd, getRegEnd conf mem₀ = some regEnd → EntryPath conf mem₀ regEnd conf.regEnt1Loc := by
  rcases checkOrReset_some hFits hPrepared with ⟨hCheck, rfl⟩ | ⟨_, hReg⟩
  · exact ⟨hCheck, fun regEnd hEnd => hContent regEnd hCheck hEnd⟩
  · refine ⟨hReg.check_eq, ?_⟩
    intro regEnd hEnd
    rw [hReg.getRegEnd_eq] at hEnd
    cases hEnd
    exact .done

/- A call that fits a new name, by what it computes. -/
theorem storeFits_new_iff
    {call : EepregCall} (hNone : getMetaLoc conf mem₀ name = some none)
    (hEnd : getRegEnd conf mem₀ = some regEnd)
    (hLast : getLastLoc conf mem₀ regEnd = some lastLoc) :
    StoreFits conf mem mem₀ name len call ↔ EntryFits conf regEnd lastLoc name len ∧
        (call = .write → eepregCheck conf mem = some .enoent → FindsDatStart conf mem mem₀) := by
  constructor
  · intro hStore
    cases hStore with
    | present hFound _ _ _ =>
      rw [hNone] at hFound
      cases hFound
    | fresh _ hEnd' hLast' hEntry hStale =>
      rw [hEnd] at hEnd'
      cases hEnd'
      rw [hLast] at hLast'
      cases hLast'
      exact ⟨hEntry, hStale⟩
  · rintro ⟨hEntry, hStale⟩
    exact .fresh hNone hEnd hLast hEntry hStale

end

----
-- An EEPROM with Other Contents
----

/- An EEPROM whose bytes all are 16. -/
def filledEeprom : ByteMem where
  byte := fun _ => 16

end Riot
