import Riot.Lib.ByteBuffer
import Riot.Lib.ByteMemory

/-
  The EEPROM registry, `sys/eepreg/eepreg.c`.

  Locations are 32-bit numbers; a name is the bytes of a C
  string before its terminating zero.  The EEPROM drivers
  always transfer all bytes, so `-EIO` does not occur.  A
  result of `none` is a failed assertion of a driver (an
  access past the end of the EEPROM), or an endless search in
  a damaged registry.
-/

----
-- EEPROM
----

namespace Riot

/- The size of the EEPROM and the bytes reserved in it. -/
structure EepregConf where
  eepromSize : Nat
  eepromReservCpuLow : Nat
  eepromReservCpuHi : Nat
  eepromReservBoardLow : Nat
  eepromReservBoardHi : Nat

/- The return values of the registry functions. -/
inductive EepregRet where
  | ok
  | enoent
  | enospc
  | eaddrinuse
  deriving DecidableEq, Repr

/- Differences of 32-bit numbers. -/
def sub32
    (a b : Nat) : Nat :=
  (a + (2 ^ 32 - b % 2 ^ 32)) % 2 ^ 32

/- The function `eeprom_read`. -/
def eepromRead
    (conf : EepregConf) (mem : ByteMem) (pos len : Nat) : Option (List UInt8) :=
  if pos + len ≤ conf.eepromSize then
    some (mem.read pos len)
  else
    none

/- The function `eeprom_write`. -/
def eepromWrite
    (conf : EepregConf) (mem : ByteMem) (pos : Nat) (data : List UInt8) : Option ByteMem :=
  if pos + data.length ≤ conf.eepromSize then
    some (mem.write pos data)
  else
    none

/- The function `eeprom_read_byte`. -/
def eepromReadByte
    (conf : EepregConf) (mem : ByteMem) (pos : Nat) : Option UInt8 :=
  if pos + 1 ≤ conf.eepromSize then
    some (mem.byte pos)
  else
    none

/- The function `eeprom_write_byte`. -/
def eepromWriteByte
    (conf : EepregConf) (mem : ByteMem) (pos : Nat) (byte : UInt8) : Option ByteMem :=
  eepromWrite conf mem pos [byte]

----
-- Locations
----

namespace EepregConf

variable (conf : EepregConf)

/- The macro `EEPREG_PTR_LEN`. -/
def eepregPtrLen : Nat :=
  if conf.eepromSize > 0x1000000 then 4
  else if conf.eepromSize > 0x10000 then 3
  else if conf.eepromSize > 0x100 then 2
  else 1

/- The macro `REG_START`. -/
def regStart : Nat :=
  conf.eepromReservCpuLow + conf.eepromReservBoardLow

/- The macro `REG_MAGIC_LOC`. -/
def regMagicLoc : Nat :=
  conf.regStart

/- The macro `MAGIC_SIZE`. -/
def magicSize : Nat := 7

/- The macro `REG_END_PTR_LOC`. -/
def regEndPtrLoc : Nat :=
  conf.regMagicLoc + magicSize

/- The macro `REG_ENT1_LOC`. -/
def regEnt1Loc : Nat :=
  conf.regEndPtrLoc + conf.eepregPtrLen

/- The macro `DAT_START`. -/
def datStart : Nat :=
  sub32 conf.eepromSize (conf.eepromReservCpuHi + conf.eepromReservBoardHi + 1)

end EepregConf

/- The constant `eepreg_magic`, "RIOTREG". -/
def eepregMagic : List UInt8 :=
  [0x52, 0x49, 0x4f, 0x54, 0x52, 0x45, 0x47]

/- The macro `ENT_LEN_SIZ`. -/
def entLenSiz : Nat := 1

section

variable (conf : EepregConf) (mem : ByteMem)

/-
  The function `_read_meta_uint`.  The bytes that are read are
  the highest of a word, and the shift discards the others.
-/
def readMetaUint
    (loc : Nat) : Option Nat := do
  let data ← eepromRead conf mem loc conf.eepregPtrLen
  some (ByteBuffer.fromNetwork data)

/- The lowest `n` bytes of a number, the highest first. -/
def metaBytes : Nat → Nat → List UInt8
| 0, _ => []
| n + 1, val => UInt8.ofNat (val >>> (8 * n)) :: metaBytes n val

/- The function `_write_meta_uint`. -/
def writeMetaUint
    (loc val : Nat) : Option ByteMem :=
  eepromWrite conf mem loc (metaBytes conf.eepregPtrLen val)

/- The function `_get_reg_end`. -/
def getRegEnd : Option Nat :=
  readMetaUint conf mem conf.regEndPtrLoc

/- The function `_set_reg_end`. -/
def setRegEnd
    (loc : Nat) : Option ByteMem :=
  writeMetaUint conf mem conf.regEndPtrLoc loc

/- The function `_get_last_loc`. -/
def getLastLoc
    (regEnd : Nat) : Option Nat :=
  if regEnd = conf.regEnt1Loc then
    some conf.datStart
  else
    readMetaUint conf mem (sub32 regEnd conf.eepregPtrLen)

/- The function `_calc_free_space`. -/
def calcFreeSpace
    (regEnd lastLoc : Nat) : Nat :=
  sub32 lastLoc regEnd

/- The function `_get_meta_len`. -/
def getMetaLen
    (metaLoc : Nat) : Option Nat := do
  let byte ← eepromReadByte conf mem metaLoc
  some byte.toNat

/- The function `_set_meta_len`. -/
def setMetaLen
    (metaLoc metaLen : Nat) : Option ByteMem :=
  eepromWriteByte conf mem metaLoc (UInt8.ofNat metaLen)

/- Where the data pointer of an entry is. -/
def dataPtrLoc
    (metaLoc metaLen : Nat) : Nat :=
  sub32 (metaLoc + metaLen) conf.eepregPtrLen

/- The function `_get_data_loc`. -/
def getDataLoc
    (metaLoc metaLen : Nat) : Option Nat :=
  readMetaUint conf mem (dataPtrLoc conf metaLoc metaLen)

/- The function `_set_data_loc`. -/
def setDataLoc
    (metaLoc metaLen dataLoc : Nat) : Option ByteMem :=
  writeMetaUint conf mem (dataPtrLoc conf metaLoc metaLen) dataLoc

/- The function `_calc_name_len`, an 8-bit number. -/
def calcNameLen
    (metaLen : Nat) : Nat :=
  (metaLen + (256 - entLenSiz - conf.eepregPtrLen)) % 256

/-
  The loop of `_cmp_name`, from the location `loc` on, for the
  rest of the name and the rest of the entry's name.
-/
def cmpNameFrom :
    Nat → List UInt8 → Nat → Option Bool
| _, name, 0 => some name.isEmpty
| _, [], _ + 1 => some false
| loc, c :: name, len + 1 => do
    let byte ← eepromReadByte conf mem loc
    if byte ≠ c then
      some false
    else
      cmpNameFrom (loc + 1) name len

/- The function `_cmp_name`. -/
def cmpName
    (metaLoc : Nat) (name : List UInt8) (metaLen : Nat) : Option Bool :=
  cmpNameFrom conf mem (metaLoc + entLenSiz) name (calcNameLen conf metaLen)

/- The loop of `_get_meta_loc`. -/
def getMetaLocFrom
    (name : List UInt8) (regEnd : Nat) : Nat → Nat → Option (Option Nat)
| 0, _ => none
| fuel + 1, metaLoc =>
  if metaLoc < regEnd then do
    let metaLen ← getMetaLen conf mem metaLoc
    let found ← cmpName conf mem metaLoc name metaLen
    if found then
      some (some metaLoc)
    else
      getMetaLocFrom name regEnd fuel ((metaLoc + metaLen) % 2 ^ 32)
  else
    some none

/-
  The function `_get_meta_loc`; no location stands for
  `UINT_MAX`.
-/
def getMetaLoc
    (name : List UInt8) : Option (Option Nat) := do
  let regEnd ← getRegEnd conf mem
  getMetaLocFrom conf mem name regEnd (regEnd + 1) conf.regEnt1Loc

/- The function `_get_data_len`. -/
def getDataLen
    (metaLoc dataLoc : Nat) : Option Nat :=
  (if metaLoc = conf.regEnt1Loc then
      some conf.datStart
    else
      readMetaUint conf mem (sub32 metaLoc conf.eepregPtrLen)).bind
    (fun prevLoc => some (sub32 prevLoc dataLoc))

/- The function `_new_entry`. -/
def newEntry
    (name : List UInt8) (dataLen : Nat) : Option (EepregRet × ByteMem) := do
  let regEnd ← getRegEnd conf mem
  let lastLoc ← getLastLoc conf mem regEnd
  let freeSpace := calcFreeSpace regEnd lastLoc
  let nameLen := name.length % 256
  let metaLen := (entLenSiz + nameLen + conf.eepregPtrLen) % 256
  if freeSpace < (metaLen + dataLen) % 2 ^ 32 then
    some (.enospc, mem)
  else do
    let mem ← setMetaLen conf mem regEnd metaLen
    let mem ← eepromWrite conf mem (regEnd + entLenSiz) (name.take nameLen)
    let mem ← setDataLoc conf mem regEnd metaLen (sub32 lastLoc dataLen)
    let mem ← setRegEnd conf mem ((regEnd + metaLen) % 2 ^ 32)
    some (.ok, mem)

end

/-
  The loop of `_move_data`, with the number of bytes that are
  left to move.
-/
def moveDataFrom
    (conf : EepregConf)
    (oldpos newpos len : Nat) : Nat → ByteMem → Option ByteMem
| 0, mem => some mem
| todo + 1, mem => do
    let count := len - (todo + 1)
    let offset :=
      if newpos < oldpos then count else len - count
    let byte ← eepromReadByte conf mem (oldpos + offset)
    let mem ← eepromWriteByte conf mem (newpos + offset) byte
    moveDataFrom conf oldpos newpos len todo mem

/- The function `_move_data`. -/
def moveData
    (conf : EepregConf) (mem : ByteMem) (oldpos newpos len : Nat) : Option ByteMem :=
  moveDataFrom conf oldpos newpos len len mem

----
-- Interface
----

section

variable (conf : EepregConf) (mem : ByteMem)

/- The function `eepreg_check`. -/
def eepregCheck : Option EepregRet := do
  let magic ← eepromRead conf mem conf.regMagicLoc EepregConf.magicSize
  if magic ≠ eepregMagic then
    some .enoent
  else
    some .ok

/- The function `eepreg_reset`. -/
def eepregReset : Option (EepregRet × ByteMem) := do
  let mem ← eepromWrite conf mem conf.regMagicLoc eepregMagic
  let mem ← setRegEnd conf mem conf.regEnt1Loc
  some (.ok, mem)

/- A registry to work on: the present one, or a new one. -/
def eepregCheckOrReset : Option ByteMem := do
  let ret ← eepregCheck conf mem
  if ret = .enoent then do
    let (_, mem) ← eepregReset conf mem
    some mem
  else
    some mem

/-
  The function `eepreg_add`, with the value that it stores in
  `pos`.
-/
def eepregAdd
    (name : List UInt8) (len : Nat) : Option (EepregRet × Nat × ByteMem) := do
  let mem ← eepregCheckOrReset conf mem
  let regEnd ← getRegEnd conf mem
  let metaLoc ← getMetaLoc conf mem name
  match metaLoc with
  | none => do
      let lastLoc ← getLastLoc conf mem regEnd
      let pos := sub32 lastLoc len
      let (ret, mem) ← newEntry conf mem name len
      some (ret, pos, mem)
  | some metaLoc => do
      let metaLen ← getMetaLen conf mem metaLoc
      let pos ← getDataLoc conf mem metaLoc metaLen
      let dataLen ← getDataLen conf mem metaLoc pos
      if len ≠ dataLen then
        some (.eaddrinuse, pos, mem)
      else
        some (.ok, pos, mem)

/-
  The function `eepreg_read`.  Nothing is stored in `pos` when
  there is no entry.
-/
def eepregRead
    (name : List UInt8) : Option (EepregRet × Option Nat) := do
  let ret ← eepregCheck conf mem
  if ret = .ok then do
    let metaLoc ← getMetaLoc conf mem name
    match metaLoc with
    | none => some (.enoent, none)
    | some metaLoc => do
        let metaLen ← getMetaLen conf mem metaLoc
        let pos ← getDataLoc conf mem metaLoc metaLen
        some (.ok, some pos)
  else
    some (ret, none)

/- The function `eepreg_write`. -/
def eepregWrite
    (name : List UInt8) (len : Nat) : Option (EepregRet × Nat × ByteMem) := do
  let regEnd ← getRegEnd conf mem
  let mem ← eepregCheckOrReset conf mem
  let lastLoc ← getLastLoc conf mem regEnd
  let pos := sub32 lastLoc len
  let (ret, mem) ← newEntry conf mem name len
  some (ret, pos, mem)

end

/- The loop of `eepreg_rm` that updates the data locations. -/
def updateDataLocs
    (conf : EepregConf) (regEnd dataLen : Nat) :
    Nat → Nat → ByteMem → Option ByteMem
| 0, _, _ => none
| fuel + 1, metaLoc, mem =>
  if metaLoc < regEnd then do
    let metaLen ← getMetaLen conf mem metaLoc
    let dataLoc ← getDataLoc conf mem metaLoc metaLen
    let mem ← setDataLoc conf mem metaLoc metaLen ((dataLoc + dataLen) % 2 ^ 32)
    updateDataLocs conf regEnd dataLen fuel ((metaLoc + metaLen) % 2 ^ 32) mem
  else
    some mem

section

variable (conf : EepregConf) (mem : ByteMem)

/- The function `eepreg_rm`. -/
def eepregRm
    (name : List UInt8) : Option (EepregRet × ByteMem) := do
  let ret ← eepregCheck conf mem
  if ret = .ok then do
    let metaLoc ← getMetaLoc conf mem name
    match metaLoc with
    | none => some (.enoent, mem)
    | some metaLoc => do
        let regEnd ← getRegEnd conf mem
        let lastLoc ← getLastLoc conf mem regEnd
        let metaLen ← getMetaLen conf mem metaLoc
        let totMetaLen := sub32 regEnd metaLoc
        let dataLoc ← getDataLoc conf mem metaLoc metaLen
        let dataLen ← getDataLen conf mem metaLoc dataLoc
        let totDataLen := sub32 dataLoc lastLoc
        let mem ← moveData conf mem ((metaLoc + metaLen) % 2 ^ 32) metaLoc totMetaLen
        let mem ← moveData conf mem lastLoc ((lastLoc + dataLen) % 2 ^ 32) totDataLen
        let regEnd := sub32 regEnd metaLen
        let mem ← setRegEnd conf mem regEnd
        let mem ← updateDataLocs conf regEnd dataLen (regEnd + 1) metaLoc mem
        some (.ok, mem)
  else
    some (ret, mem)

/- The function `eepreg_len`. -/
def eepregLen
    (name : List UInt8) : Option (EepregRet × Option Nat) := do
  let ret ← eepregCheck conf mem
  if ret = .ok then do
    let metaLoc ← getMetaLoc conf mem name
    match metaLoc with
    | none => some (.enoent, none)
    | some metaLoc => do
        let metaLen ← getMetaLen conf mem metaLoc
        let dataLoc ← getDataLoc conf mem metaLoc metaLen
        let dataLen ← getDataLen conf mem metaLoc dataLoc
        some (.ok, some dataLen)
  else
    some (ret, none)

/- The function `eepreg_free`. -/
def eepregFree : Option (EepregRet × Option Nat) := do
  let ret ← eepregCheck conf mem
  if ret = .ok then do
    let regEnd ← getRegEnd conf mem
    let lastLoc ← getLastLoc conf mem regEnd
    some (.ok, some (calcFreeSpace regEnd lastLoc))
  else
    some (ret, none)

end

end Riot
