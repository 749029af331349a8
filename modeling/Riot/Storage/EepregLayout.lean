import Riot.Sys.Eepreg

/-
  The layout of the EEPROM registry: a list of entries in
  the EEPROM, and what the lookups of the source find there.
-/

----
-- Numbers in the EepRegistry
----

namespace Riot

theorem length_metaBytes
    (n val : Nat) :
    (metaBytes n val).length = n := by
  induction n with
  | zero => rfl
  | succ n ih => rw [metaBytes, List.length_cons, ih]

/- The bytes keep the lowest digits of a number. -/
theorem fromNetwork_metaBytes_mod
    (n val : Nat) :
    ByteBuffer.fromNetwork (metaBytes n val) = val % 256 ^ n := by
  suffices hAcc : ∀ n acc, (metaBytes n val).foldl
            (fun acc b => acc * 256 + b.toNat) acc = acc * 256 ^ n + val % 256 ^ n by
    unfold ByteBuffer.fromNetwork
    rw [hAcc, Nat.zero_mul, Nat.zero_add]
  intro n
  induction n with
  | zero =>
    intro acc
    simp [metaBytes, Nat.mod_one]
  | succ n ih =>
    intro acc
    have hByte : (UInt8.ofNat (val >>> (8 * n))).toNat = val / 256 ^ n % 256 := by
      rw [UInt8.toNat_ofNat', Nat.shiftRight_eq_div_pow, Nat.pow_mul]
    rw [metaBytes, List.foldl_cons, ih, hByte, Nat.pow_succ, Nat.mod_mul, Nat.add_mul,
      Nat.mul_assoc, Nat.mul_comm 256, Nat.mul_comm (val / 256 ^ n % 256)]
    omega

/- A number is read back from its bytes. -/
theorem fromNetwork_metaBytes
    {n val : Nat} (hLt : val < 256 ^ n) :
    ByteBuffer.fromNetwork (metaBytes n val) = val := by
  rw [fromNetwork_metaBytes_mod, Nat.mod_eq_of_lt hLt]

/- Every byte string is the bytes of its number. -/
theorem metaBytes_fromNetwork
    (bs : List UInt8) :
    metaBytes bs.length (ByteBuffer.fromNetwork bs) = bs := by
  suffices hAcc : ∀ bs acc, metaBytes bs.length
            (bs.foldl (fun acc b => acc * 256 + b.toNat) acc) = bs ∧
          bs.foldl (fun acc b => acc * 256 + b.toNat) acc / 256 ^ bs.length = acc from
    (hAcc bs 0).1
  intro bs
  induction bs with
  | nil =>
    intro acc
    exact ⟨rfl, Nat.div_one acc⟩
  | cons b bs ih =>
    intro acc
    rcases ih (acc * 256 + b.toNat) with ⟨hRest, hHigh⟩
    have hByte : b.toNat < 256 := b.toNat_lt
    rw [List.length_cons, metaBytes, List.foldl_cons, hRest]
    constructor
    · rw [Nat.shiftRight_eq_div_pow, Nat.pow_mul, show (2 : Nat) ^ 8 = 256 from rfl, hHigh]
      congr 1
      rw [← UInt8.toNat_inj, UInt8.toNat_ofNat']
      omega
    · rw [Nat.pow_succ, ← Nat.div_div_eq_div_mul, hHigh]
      omega

theorem sub32_of_le
    {a b : Nat} (hLe : b ≤ a) (hLt : a < 2 ^ 32) :
    sub32 a b = a - b := by
  unfold sub32
  rw [Nat.mod_eq_of_lt (a := b) (by omega)]
  omega

----
-- Entries
----

/- A name and the length of its data. -/
abbrev RegEntry := List UInt8 × Nat

/-
  The EEPROM has room for the head of a registry, and its size
  is a 32-bit number.
-/
structure EepregConf.Fits
    (conf : EepregConf) : Prop where
  room : conf.regEnt1Loc + (conf.eepromReservCpuHi + conf.eepromReservBoardHi + 1) ≤ conf.eepromSize
  size_lt : conf.eepromSize < 2 ^ 32

/- The length of an entry's meta-data. -/
def entryLen
    (conf : EepregConf) (e : RegEntry) : Nat :=
  entLenSiz + e.1.length + conf.eepregPtrLen

/- The space that entries take, for meta-data and for data. -/
def metaSize
    (conf : EepregConf) (es : List RegEntry) : Nat :=
  (es.map (entryLen conf)).sum

def dataSize
    (es : List RegEntry) : Nat :=
  (es.map Prod.snd).sum

/- The end of the meta-data, and the start of the data. -/
def regEndOf
    (conf : EepregConf) (es : List RegEntry) : Nat :=
  conf.regEnt1Loc + metaSize conf es

def lastLocOf
    (conf : EepregConf) (es : List RegEntry) : Nat :=
  conf.datStart - dataSize es

/- The meta-data of an entry, and of the entries after `prev`. -/
def entryBytes
    (conf : EepregConf) (e : RegEntry) (dataLoc : Nat) : List UInt8 :=
  UInt8.ofNat (entryLen conf e) :: (e.1 ++ metaBytes conf.eepregPtrLen dataLoc)

def entriesBytes
    (conf : EepregConf) : Nat → List RegEntry → List UInt8
| _, [] => []
| prev, e :: es => entryBytes conf e (prev - e.2) ++ entriesBytes conf (prev - e.2) es

section

variable {conf : EepregConf} {e : RegEntry} {es fs : List RegEntry}

@[simp]
theorem metaSize_append :
    metaSize conf (es ++ fs) = metaSize conf es + metaSize conf fs := by
  simp [metaSize]

@[simp]
theorem metaSize_cons :
    metaSize conf (e :: es) = entryLen conf e + metaSize conf es := by
  simp [metaSize]

@[simp]
theorem metaSize_nil :
    metaSize conf [] = 0 := by
  rfl

@[simp]
theorem dataSize_append :
    dataSize (es ++ fs) = dataSize es + dataSize fs := by
  simp [dataSize]

@[simp]
theorem dataSize_cons :
    dataSize (e :: es) = e.2 + dataSize es := by
  simp [dataSize]

@[simp]
theorem dataSize_nil :
    dataSize [] = 0 := by
  rfl

theorem length_entryBytes
    (dataLoc : Nat) :
    (entryBytes conf e dataLoc).length = entryLen conf e := by
  simp only [entryBytes, List.length_cons, List.length_append,
    length_metaBytes, entryLen, entLenSiz]
  omega

theorem length_entriesBytes
    (prev : Nat) :
    (entriesBytes conf prev es).length = metaSize conf es := by
  induction es generalizing prev with
  | nil => rfl
  | cons e es ih =>
    rw [entriesBytes, List.length_append, length_entryBytes, ih, metaSize_cons]

theorem entriesBytes_append
    (prev : Nat) :
    entriesBytes conf prev (es ++ fs) =
      entriesBytes conf prev es ++ entriesBytes conf (prev - dataSize es) fs := by
  induction es generalizing prev with
  | nil => simp [entriesBytes]
  | cons e es ih =>
    rw [List.cons_append, entriesBytes, entriesBytes, ih,
      List.append_assoc, dataSize_cons, Nat.sub_add_eq]

theorem ptrLen_pos :
    0 < conf.eepregPtrLen := by
  unfold EepregConf.eepregPtrLen
  split
  · decide
  · split
    · decide
    · split
      · decide
      · decide

theorem ptrLen_le :
    conf.eepregPtrLen ≤ 4 := by
  unfold EepregConf.eepregPtrLen
  split
  · decide
  · split
    · decide
    · split
      · decide
      · decide

theorem entryLen_pos :
    entLenSiz + conf.eepregPtrLen ≤ entryLen conf e := by
  unfold entryLen
  omega

theorem metaSize_pos
    (hSome : es ≠ []) :
    conf.eepregPtrLen < metaSize conf es := by
  rcases List.exists_cons_of_ne_nil hSome with ⟨e, es, rfl⟩
  have hLen : entLenSiz + conf.eepregPtrLen ≤ entryLen conf e := entryLen_pos
  rw [metaSize_cons]
  unfold entLenSiz at hLen
  omega

end

----
-- Registries
----

/-
  The EEPROM holds a registry with the given entries, the
  oldest first.
-/
structure EepRegistry
    (conf : EepregConf) (mem : ByteMem)
    (es : List RegEntry) : Prop where
  fits : conf.Fits
  magic : mem.Holds conf.regMagicLoc eepregMagic
  endPtr : mem.Holds conf.regEndPtrLoc (metaBytes conf.eepregPtrLen (regEndOf conf es))
  entries : mem.Holds conf.regEnt1Loc (entriesBytes conf conf.datStart es)
  space : regEndOf conf es + dataSize es ≤ conf.datStart
  names : (es.map Prod.fst).Nodup
  len_lt : ∀ e ∈ es, entryLen conf e < 256

section

variable {conf : EepregConf} {mem : ByteMem} {es pre post : List RegEntry} {e : RegEntry}

theorem EepregConf.Fits.datStart_eq
    (hFits : conf.Fits) :
    conf.datStart = conf.eepromSize - (conf.eepromReservCpuHi + conf.eepromReservBoardHi + 1) := by
  have hRoom := hFits.room
  have hSize := hFits.size_lt
  exact sub32_of_le (by omega) (by omega)

theorem EepregConf.Fits.datStart_lt
    (hFits : conf.Fits) :
    conf.datStart < conf.eepromSize := by
  have hRoom := hFits.room
  rw [hFits.datStart_eq]
  omega

/- Every location of the EEPROM can be written as a pointer. -/
theorem EepregConf.Fits.ptr_lt
    (hFits : conf.Fits) :
    conf.datStart < 256 ^ conf.eepregPtrLen := by
  have hData := hFits.datStart_lt
  have hSize := hFits.size_lt
  unfold eepregPtrLen
  split
  · omega
  · split
    · omega
    · split
      · omega
      · omega

theorem EepregConf.Fits.size_le
    (hFits : conf.Fits) :
    conf.eepromSize ≤ 256 ^ conf.eepregPtrLen := by
  have hSize := hFits.size_lt
  unfold eepregPtrLen
  split
  · omega
  · split
    · omega
    · split
      · omega
      · omega

/- Reading a stored number. -/
theorem readMetaUint_of_holds
    {loc val : Nat} (hHolds : mem.Holds loc (metaBytes conf.eepregPtrLen val))
    (hVal : val < 256 ^ conf.eepregPtrLen)
    (hLoc : loc + conf.eepregPtrLen ≤ conf.eepromSize) :
    readMetaUint conf mem loc = some val := by
  have hRead := hHolds.read_eq
  rw [length_metaBytes] at hRead
  rw [readMetaUint, eepromRead, if_pos hLoc, hRead]
  exact congrArg some (fromNetwork_metaBytes hVal)

/- The three parts of a stored entry. -/
theorem holds_entryBytes
    {loc dataLoc : Nat} :
    mem.Holds loc (entryBytes conf e dataLoc) ↔ mem.byte loc = UInt8.ofNat (entryLen conf e) ∧
      mem.Holds (loc + entLenSiz) e.1 ∧
      mem.Holds (loc + entLenSiz + e.1.length) (metaBytes conf.eepregPtrLen dataLoc) := by
  unfold entryBytes
  rw [ByteMem.holds_cons, ByteMem.holds_append]
  rfl

theorem getMetaLen_of_holds
    {loc dataLoc : Nat} (hEntry : mem.Holds loc (entryBytes conf e dataLoc))
    (hLen : entryLen conf e < 256)
    (hLoc : loc + entryLen conf e ≤ conf.eepromSize) :
    getMetaLen conf mem loc = some (entryLen conf e) := by
  have hPos : entLenSiz + conf.eepregPtrLen ≤ entryLen conf e := entryLen_pos
  have hByte : (UInt8.ofNat (entryLen conf e)).toNat = entryLen conf e := by
    rw [UInt8.toNat_ofNat']
    exact Nat.mod_eq_of_lt hLen
  unfold entLenSiz at hPos
  unfold getMetaLen eepromReadByte
  rw [if_pos (by omega), (holds_entryBytes.mp hEntry).1]
  exact congrArg some hByte

theorem dataPtrLoc_of_le
    {loc : Nat} (hLoc : loc + entryLen conf e < 2 ^ 32) :
    dataPtrLoc conf loc (entryLen conf e) = loc + entLenSiz + e.1.length := by
  unfold dataPtrLoc
  rw [sub32_of_le (by unfold entryLen; omega) hLoc]
  unfold entryLen
  omega

theorem getDataLoc_of_holds
    {loc dataLoc : Nat} (hFits : conf.Fits)
    (hEntry : mem.Holds loc (entryBytes conf e dataLoc))
    (hData : dataLoc ≤ conf.datStart)
    (hLoc : loc + entryLen conf e ≤ conf.eepromSize) :
    getDataLoc conf mem loc (entryLen conf e) = some dataLoc := by
  have hSize := hFits.size_lt
  have hPtr := hFits.ptr_lt
  unfold getDataLoc
  rw [dataPtrLoc_of_le (by omega)]
  apply readMetaUint_of_holds (holds_entryBytes.mp hEntry).2.2 (by omega)
  unfold entryLen at hLoc
  omega

namespace EepRegistry

/- The bounds of the registry's parts. -/
theorem regEnd_le
    (hReg : EepRegistry conf mem es) :
    regEndOf conf es ≤ conf.datStart := by
  have hSpace := hReg.space
  omega

theorem check_eq
    (hReg : EepRegistry conf mem es) :
    eepregCheck conf mem = some .ok := by
  have hRead : mem.read conf.regMagicLoc 7 = eepregMagic := hReg.magic.read_eq
  have hRoom := hReg.fits.room
  have hFits : conf.regMagicLoc + EepregConf.magicSize ≤ conf.eepromSize := by
    unfold EepregConf.regEnt1Loc EepregConf.regEndPtrLoc at hRoom
    omega
  unfold eepregCheck eepromRead
  rw [if_pos hFits]
  simp only [EepregConf.magicSize, hRead, bind, Option.bind_some, ne_eq, not_true, if_false]

theorem getRegEnd_eq
    (hReg : EepRegistry conf mem es) :
    getRegEnd conf mem = some (regEndOf conf es) := by
  have hRoom := hReg.fits.room
  apply readMetaUint_of_holds hReg.endPtr
  · exact Nat.lt_of_le_of_lt hReg.regEnd_le hReg.fits.ptr_lt
  · unfold EepregConf.regEnt1Loc at hRoom
    omega

/- The entries before a point, and an entry after them. -/
theorem holds_pre
    (hReg : EepRegistry conf mem (pre ++ post)) :
    mem.Holds conf.regEnt1Loc (entriesBytes conf conf.datStart pre) ∧
    mem.Holds (regEndOf conf pre) (entriesBytes conf (lastLocOf conf pre) post) := by
  have hAll := hReg.entries
  rw [entriesBytes_append, ByteMem.holds_append, length_entriesBytes] at hAll
  exact hAll

theorem holds_entry
    (hReg : EepRegistry conf mem (pre ++ e :: post)) :
    mem.Holds (regEndOf conf pre) (entryBytes conf e (lastLocOf conf (pre ++ [e]))) := by
  have hEntry := hReg.holds_pre.2
  rw [entriesBytes, ByteMem.holds_append] at hEntry
  have hLoc : lastLocOf conf pre - e.2 = lastLocOf conf (pre ++ [e]) := by
    simp only [lastLocOf, dataSize_append, dataSize_cons, dataSize_nil]
    omega
  rw [← hLoc]
  exact hEntry.1

end EepRegistry

theorem regEndOf_concat :
    regEndOf conf (pre ++ [e]) = regEndOf conf pre + entryLen conf e := by
  simp only [regEndOf, metaSize_append, metaSize_cons, metaSize_nil]
  omega

namespace EepRegistry

theorem regEndOf_pre_le
    (hReg : EepRegistry conf mem (pre ++ post)) :
    regEndOf conf pre ≤ conf.datStart := by
  have hLe := hReg.regEnd_le
  simp only [regEndOf, metaSize_append] at hLe ⊢
  omega

section

variable (hReg : EepRegistry conf mem (pre ++ e :: post))

include hReg

/- An entry lies before the data. -/
theorem entry_le :
    regEndOf conf pre + entryLen conf e ≤ conf.datStart := by
  rw [List.append_cons] at hReg
  have hLe := hReg.regEndOf_pre_le
  rwa [regEndOf_concat] at hLe

theorem entryLen_lt :
    entryLen conf e < 256 :=
  hReg.len_lt e (List.mem_append_right _ List.mem_cons_self)

theorem getMetaLen_eq :
    getMetaLen conf mem (regEndOf conf pre) = some (entryLen conf e) := by
  have hLe := hReg.entry_le
  have hData := hReg.fits.datStart_lt
  exact getMetaLen_of_holds hReg.holds_entry hReg.entryLen_lt (by omega)

end

theorem lastLoc_le :
    lastLocOf conf pre ≤ conf.datStart :=
  Nat.sub_le _ _

theorem getDataLoc_eq
    (hReg : EepRegistry conf mem (pre ++ e :: post)) :
    getDataLoc conf mem (regEndOf conf pre)
        (entryLen conf e) = some (lastLocOf conf (pre ++ [e])) := by
  have hLe := hReg.entry_le
  have hData := hReg.fits.datStart_lt
  exact getDataLoc_of_holds hReg.fits hReg.holds_entry lastLoc_le (by omega)

/-
  The data location of the entry before a point: the end of
  the data for the first entry, else the pointer just before.
-/
theorem prevLoc_eq
    (hReg : EepRegistry conf mem (pre ++ post)) :
    (if regEndOf conf pre = conf.regEnt1Loc then some conf.datStart else
        readMetaUint conf mem (sub32 (regEndOf conf pre) conf.eepregPtrLen)) =
      some (lastLocOf conf pre) := by
  rcases List.eq_nil_or_concat pre with hNil | ⟨init, e, hPre⟩
  · subst hNil
    have hEnd : regEndOf conf [] = conf.regEnt1Loc := rfl
    rw [if_pos hEnd]
    rfl
  · rw [List.concat_eq_append] at hPre
    subst hPre
    have hLast := hReg
    rw [List.append_assoc] at hLast
    have hPos : conf.eepregPtrLen < metaSize conf (init ++ [e]) :=
      metaSize_pos (List.append_ne_nil_of_right_ne_nil init (List.cons_ne_nil e []))
    have hLe := hReg.regEndOf_pre_le
    have hData := hReg.fits.datStart_lt
    have hSize := hReg.fits.size_lt
    have hNe : regEndOf conf (init ++ [e]) ≠ conf.regEnt1Loc := by
      unfold regEndOf
      omega
    have hAt : sub32 (regEndOf conf (init ++ [e])) conf.eepregPtrLen =
          regEndOf conf init + entLenSiz + e.1.length := by
      rw [sub32_of_le (by unfold regEndOf; omega) (by omega), regEndOf_concat]
      unfold entryLen
      omega
    rw [if_neg hNe, hAt]
    have hPtr := hReg.fits.ptr_lt
    have hLastLoc : lastLocOf conf (init ++ [e]) ≤ conf.datStart := lastLoc_le
    apply readMetaUint_of_holds (holds_entryBytes.mp (holds_entry hLast)).2.2 (by omega)
    rw [regEndOf_concat] at hLe
    unfold entryLen at hLe
    omega

theorem getLastLoc_eq
    (hReg : EepRegistry conf mem es) :
    getLastLoc conf mem (regEndOf conf es) = some (lastLocOf conf es) := by
  have hAll : EepRegistry conf mem (es ++ []) := by
    rw [List.append_nil]
    exact hReg
  exact hAll.prevLoc_eq

/- The length of an entry's data, from its neighbour. -/
theorem getDataLen_eq
    (hReg : EepRegistry conf mem (pre ++ e :: post)) :
    getDataLen conf mem (regEndOf conf pre) (lastLocOf conf (pre ++ [e])) = some e.2 := by
  have hSpace := hReg.space
  have hData := hReg.fits.datStart_lt
  have hSize := hReg.fits.size_lt
  unfold getDataLen
  rw [hReg.prevLoc_eq]
  simp only [dataSize_append, dataSize_cons] at hSpace
  simp only [Option.bind_some, lastLocOf, dataSize_append, dataSize_cons, dataSize_nil]
  rw [sub32_of_le (by omega) (by omega)]
  congr 1
  omega

end EepRegistry

----
-- Searching
----

/- Comparing a stored name. -/
theorem cmpNameFrom_of_holds
    {loc : Nat} {stored name : List UInt8} (hHolds : mem.Holds loc stored)
    (hLoc : loc + stored.length ≤ conf.eepromSize) :
    cmpNameFrom conf mem loc name stored.length = some (decide (stored = name)) := by
  induction stored generalizing loc name with
  | nil =>
    cases name with
    | nil => rfl
    | cons c name => rfl
  | cons b stored ih =>
    rcases ByteMem.holds_cons.mp hHolds with ⟨hByte, hRest⟩
    rw [List.length_cons] at hLoc ⊢
    cases name with
    | nil => rfl
    | cons c name =>
      rw [cmpNameFrom, eepromReadByte, if_pos (by omega), hByte]
      simp only [bind, Option.bind_some]
      by_cases hEq : b = c
      · rw [if_neg (not_not.mpr hEq), ih hRest (by omega)]
        simp only [hEq, List.cons.injEq, true_and]
      · rw [if_pos hEq]
        simp only [List.cons.injEq, hEq, false_and, decide_false]

namespace EepRegistry

theorem cmpName_eq
    (hReg : EepRegistry conf mem (pre ++ e :: post)) (name : List UInt8) :
    cmpName conf mem (regEndOf conf pre) name (entryLen conf e) = some (decide (e.1 = name)) := by
  have hLe := hReg.entry_le
  have hData := hReg.fits.datStart_lt
  have hLen : calcNameLen conf (entryLen conf e) = e.1.length := by
    have hLt := hReg.entryLen_lt
    unfold entryLen entLenSiz at hLt
    unfold calcNameLen entryLen entLenSiz
    omega
  unfold cmpName
  rw [hLen]
  apply cmpNameFrom_of_holds (holds_entryBytes.mp hReg.holds_entry).2.1
  unfold entryLen at hLe
  omega

/- One step of the search. -/
theorem getMetaLocFrom_succ
    (hReg : EepRegistry conf mem (pre ++ e :: post))
    (name : List UInt8) (fuel : Nat) :
    getMetaLocFrom conf mem name (regEndOf conf (pre ++ e :: post)) (fuel + 1)
        (regEndOf conf pre) =
      if e.1 = name then some (some (regEndOf conf pre))
      else getMetaLocFrom conf mem name (regEndOf conf (pre ++ e :: post)) fuel
          (regEndOf conf (pre ++ [e])) := by
  have hLe := hReg.entry_le
  have hData := hReg.fits.datStart_lt
  have hSize := hReg.fits.size_lt
  have hPos : entLenSiz + conf.eepregPtrLen ≤ entryLen conf e := entryLen_pos
  have hPtr : 0 < conf.eepregPtrLen := ptrLen_pos
  have hLt : regEndOf conf pre < regEndOf conf (pre ++ e :: post) := by
    simp only [regEndOf, metaSize_append, metaSize_cons]
    omega
  have hNext : (regEndOf conf pre + entryLen conf e) % 2 ^ 32 = regEndOf conf (pre ++ [e]) := by
    rw [regEndOf_concat]
    exact Nat.mod_eq_of_lt (by omega)
  rw [getMetaLocFrom, if_pos hLt, hReg.getMetaLen_eq]
  simp only [bind, Option.bind_some, hReg.cmpName_eq, hNext, decide_eq_true_eq]

/- The search stops at the end. -/
theorem getMetaLocFrom_end
    (name : List UInt8) (fuel : Nat) :
    getMetaLocFrom conf mem name (regEndOf conf es) (fuel + 1) (regEndOf conf es) = some none := by
  rw [getMetaLocFrom, if_neg (Nat.lt_irrefl _)]

theorem getMetaLocFrom_of_not_mem
    {name : List UInt8} {fuel : Nat} (hReg : EepRegistry conf mem (pre ++ post))
    (hNone : name ∉ post.map Prod.fst) (hFuel : post.length < fuel) :
    getMetaLocFrom conf mem name (regEndOf conf (pre ++ post)) fuel
        (regEndOf conf pre) = some none := by
  induction post generalizing pre fuel with
  | nil =>
    cases fuel with
    | zero => omega
    | succ fuel =>
      rw [List.append_nil]
      exact getMetaLocFrom_end name fuel
  | cons e post ih =>
    cases fuel with
    | zero => omega
    | succ fuel =>
      rw [List.map_cons, List.mem_cons, not_or] at hNone
      rw [List.length_cons] at hFuel
      rw [hReg.getMetaLocFrom_succ name fuel, if_neg (fun h => hNone.1 h.symm)]
      rw [List.append_cons] at hReg ⊢
      exact ih hReg hNone.2 (by omega)

theorem getMetaLocFrom_of_mem
    {mid : List RegEntry} {fuel : Nat}
    (hReg : EepRegistry conf mem (pre ++ (mid ++ e :: post)))
    (hNone : e.1 ∉ mid.map Prod.fst) (hFuel : mid.length < fuel) :
    getMetaLocFrom conf mem e.1 (regEndOf conf (pre ++ (mid ++ e :: post))) fuel
        (regEndOf conf pre) = some (some (regEndOf conf (pre ++ mid))) := by
  induction mid generalizing pre fuel with
  | nil =>
    cases fuel with
    | zero => omega
    | succ fuel =>
      rw [List.nil_append] at hReg ⊢
      rw [hReg.getMetaLocFrom_succ e.1 fuel, if_pos rfl, List.append_nil]
  | cons f mid ih =>
    cases fuel with
    | zero => omega
    | succ fuel =>
      rw [List.map_cons, List.mem_cons, not_or] at hNone
      rw [List.length_cons] at hFuel
      rw [List.cons_append] at hReg ⊢
      rw [hReg.getMetaLocFrom_succ e.1 fuel, if_neg (fun h => hNone.1 h.symm)]
      rw [List.append_cons] at hReg ⊢
      rw [ih hReg hNone.2 (by omega), ← List.append_cons]

theorem length_le_regEnd
    (conf : EepregConf) (es : List RegEntry) :
    es.length ≤ regEndOf conf es := by
  induction es with
  | nil => exact Nat.zero_le _
  | cons e es ih =>
    have hPos : entLenSiz + conf.eepregPtrLen ≤ entryLen conf e := entryLen_pos
    unfold entLenSiz at hPos
    simp only [regEndOf, metaSize_cons, List.length_cons] at ih ⊢
    omega

/- The search for a name. -/
theorem getMetaLoc_of_not_mem
    {name : List UInt8} (hReg : EepRegistry conf mem es)
    (hNone : name ∉ es.map Prod.fst) :
    getMetaLoc conf mem name = some none := by
  have hLen := length_le_regEnd conf es
  have hAll : EepRegistry conf mem ([] ++ es) := hReg
  unfold getMetaLoc
  rw [hReg.getRegEnd_eq]
  exact hAll.getMetaLocFrom_of_not_mem hNone (by omega)

theorem getMetaLoc_of_mem
    (hReg : EepRegistry conf mem (pre ++ e :: post)) :
    getMetaLoc conf mem e.1 = some (some (regEndOf conf pre)) := by
  have hLen := length_le_regEnd conf (pre ++ e :: post)
  have hNames := hReg.names
  rw [List.map_append, List.map_cons] at hNames
  have hNone : e.1 ∉ pre.map Prod.fst := by
    intro hMem
    exact (List.nodup_append.mp hNames).2.2 e.1 hMem e.1 List.mem_cons_self rfl
  rw [List.length_append, List.length_cons] at hLen
  have hAll : EepRegistry conf mem ([] ++ (pre ++ e :: post)) := hReg
  unfold getMetaLoc
  rw [hReg.getRegEnd_eq]
  exact hAll.getMetaLocFrom_of_mem hNone (by omega)

end EepRegistry

end

end Riot
