import Riot.Storage.EepregLayout

/-
  The operations of the EEPROM registry on its entries:
  new entries, and the removal of an entry.
-/

----
-- New Entries
----

namespace Riot

variable {conf : EepregConf} {mem mem' : ByteMem} {es pre post : List RegEntry}
variable {e : RegEntry}

theorem eepromWrite_eq
    {pos : Nat} {data : List UInt8} (hFits : pos + data.length ≤ conf.eepromSize) :
    eepromWrite conf mem pos data = some (mem.write pos data) :=
  if_pos hFits

/- The bytes of an entry are written in three parts. -/
theorem write_entry
    (loc dataLoc : Nat) :
    ((mem.write loc [UInt8.ofNat (entryLen conf e)]).write (loc + entLenSiz) e.1).write
        (loc + entLenSiz + e.1.length)
        (metaBytes conf.eepregPtrLen dataLoc) = mem.write loc (entryBytes conf e dataLoc) := by
  have hName := ByteMem.write_write mem loc [UInt8.ofNat (entryLen conf e)] e.1
  have hPtr := ByteMem.write_write mem loc
      (UInt8.ofNat (entryLen conf e) :: e.1)
      (metaBytes conf.eepregPtrLen dataLoc)
  rw [List.length_singleton, List.singleton_append] at hName
  rw [List.length_cons, Nat.add_comm e.1.length 1, ← Nat.add_assoc] at hPtr
  rw [entLenSiz, hName, hPtr]
  rfl

/- A new registry is empty. -/
theorem eepregReset_spec
    (hFits : conf.Fits) :
    ∃ mem', eepregReset conf mem = some (.ok, mem') ∧ EepRegistry conf mem' [] := by
  have hRoom := hFits.room
  have hEnt1 : conf.regEnt1Loc = conf.regEndPtrLoc + conf.eepregPtrLen := rfl
  have hEndPtr : conf.regEndPtrLoc = conf.regMagicLoc + 7 := rfl
  have hMagic : eepregMagic.length = 7 := rfl
  have hData := hFits.datStart_eq
  have hReset : eepregReset conf mem = some (.ok, (mem.write conf.regMagicLoc eepregMagic).write
            conf.regEndPtrLoc
            (metaBytes conf.eepregPtrLen conf.regEnt1Loc)) := by
    unfold eepregReset setRegEnd writeMetaUint
    rw [eepromWrite_eq (by omega), Option.bind_eq_bind, Option.bind_some,
      eepromWrite_eq (by rw [length_metaBytes]; omega), Option.bind_some]
  refine ⟨_, hReset, hFits, ?_, ?_, ?_, ?_, ?_, ?_⟩
  · exact ByteMem.holds_write_self.write (by omega)
  · exact ByteMem.holds_write_self
  · intro i b hByte
    cases hByte
  · simp only [regEndOf, metaSize_nil, dataSize_nil]
    omega
  · exact List.nodup_nil
  · intro e hMem
    cases hMem

/- The registry with one more entry. -/
theorem EepRegistry.concat
    (hReg : EepRegistry conf mem es) (hFresh : e.1 ∉ es.map Prod.fst)
    (hEntryLen : entryLen conf e < 256)
    (hSpace : regEndOf conf es + dataSize es + (entryLen conf e + e.2) ≤ conf.datStart) :
    EepRegistry conf ((mem.write (regEndOf conf es)
          (entryBytes conf e (lastLocOf conf es - e.2))).write
        conf.regEndPtrLoc
        (metaBytes conf.eepregPtrLen (regEndOf conf es + entryLen conf e)))
      (es ++ [e]) := by
  have hEnt1 : conf.regEnt1Loc = conf.regEndPtrLoc + conf.eepregPtrLen := rfl
  have hEndPtr : conf.regEndPtrLoc = conf.regMagicLoc + 7 := rfl
  have hMagic : eepregMagic.length = 7 := rfl
  have hEnd : conf.regEnt1Loc ≤ regEndOf conf es := Nat.le_add_right _ _
  refine ⟨hReg.fits, ?_, ?_, ?_, ?_, ?_, ?_⟩
  · exact (hReg.magic.write (by omega)).write (by omega)
  · rw [regEndOf_concat]
    exact ByteMem.holds_write_self
  · rw [entriesBytes_append, ByteMem.holds_append, length_entriesBytes]
    refine ⟨?_, ?_⟩
    · apply ByteMem.Holds.write
      · apply hReg.entries.write
        rw [length_entriesBytes]
        exact Or.inl (Nat.le_refl _)
      · rw [length_metaBytes]
        omega
    · simp only [entriesBytes, List.append_nil]
      apply ByteMem.Holds.write
      · exact ByteMem.holds_write_self
      · rw [length_metaBytes]
        exact Or.inr hEnd
  · simp only [regEndOf_concat, dataSize_append, dataSize_cons, dataSize_nil]
    omega
  · rw [List.map_append, List.map_cons, List.map_nil, List.nodup_append]
    refine ⟨hReg.names, List.nodup_cons.mpr ⟨List.not_mem_nil, List.nodup_nil⟩, ?_⟩
    intro a hMem b hB hEq
    rw [List.mem_singleton] at hB
    subst hB
    subst hEq
    exact hFresh hMem
  · intro f hMem
    rcases List.mem_append.mp hMem with hOld | hNew
    · exact hReg.len_lt f hOld
    · rw [List.mem_singleton] at hNew
      subst hNew
      exact hEntryLen

/- The free space is the gap between meta-data and data. -/
theorem EepRegistry.calcFreeSpace_eq
    (hReg : EepRegistry conf mem es) :
    calcFreeSpace (regEndOf conf es) (lastLocOf conf es) =
      conf.datStart - dataSize es - regEndOf conf es := by
  have hSpace := hReg.space
  have hData := hReg.fits.datStart_lt
  have hSize := hReg.fits.size_lt
  exact sub32_of_le (by unfold lastLocOf; omega) (by unfold lastLocOf; omega)

/-
  A new entry is appended if there is room for its meta-data
  and its data; else nothing changes.
-/
theorem EepRegistry.newEntry_spec
    (hReg : EepRegistry conf mem es) (hFresh : e.1 ∉ es.map Prod.fst)
    (hEntryLen : entryLen conf e < 256) (hSum : entryLen conf e + e.2 < 2 ^ 32) :
    if regEndOf conf es + dataSize es + (entryLen conf e + e.2) ≤ conf.datStart then
      ∃ mem', newEntry conf mem e.1 e.2 = some (.ok, mem') ∧ EepRegistry conf mem' (es ++ [e]) ∧
        ∀ x, regEndOf conf (es ++ [e]) ≤ x → mem'.byte x = mem.byte x
    else newEntry conf mem e.1 e.2 = some (.enospc, mem) := by
  have hSpace := hReg.space
  have hData := hReg.fits.datStart_lt
  have hSize := hReg.fits.size_lt
  have hNameLen : e.1.length % 256 = e.1.length := by
    unfold entryLen at hEntryLen
    exact Nat.mod_eq_of_lt (by omega)
  have hMetaLen : (entLenSiz + e.1.length + conf.eepregPtrLen) % 256 = entryLen conf e :=
    Nat.mod_eq_of_lt hEntryLen
  unfold newEntry
  rw [hReg.getRegEnd_eq, Option.bind_eq_bind, Option.bind_some,
    hReg.getLastLoc_eq, Option.bind_eq_bind, Option.bind_some]
  simp only [hReg.calcFreeSpace_eq, hNameLen, hMetaLen, Nat.mod_eq_of_lt hSum, List.take_length]
  split
  · rename_i hRoom
    have hLast : sub32 (lastLocOf conf es) e.2 = lastLocOf conf es - e.2 :=
      sub32_of_le (by unfold lastLocOf; omega) (by unfold lastLocOf; omega)
    have hPtrLoc : dataPtrLoc conf (regEndOf conf es) (entryLen conf e) =
          regEndOf conf es + entLenSiz + e.1.length :=
      dataPtrLoc_of_le (by omega)
    have hEnd :
        (regEndOf conf es + entryLen conf e) % 2 ^ 32 = regEndOf conf es + entryLen conf e :=
      Nat.mod_eq_of_lt (by omega)
    have hEnt1 : conf.regEndPtrLoc + conf.eepregPtrLen ≤ regEndOf conf es := Nat.le_add_right _ _
    have hSplit : entryLen conf e = entLenSiz + e.1.length + conf.eepregPtrLen := rfl
    refine ⟨_, ?_, hReg.concat hFresh hEntryLen hRoom, ?_⟩
    · rw [if_neg (by omega)]
      unfold setMetaLen eepromWriteByte setDataLoc setRegEnd writeMetaUint
      rw [hLast, hPtrLoc, hEnd, eepromWrite_eq (by rw [List.length_singleton]; omega),
        Option.bind_some, eepromWrite_eq (by omega), Option.bind_some,
        eepromWrite_eq (by rw [length_metaBytes]; omega), Option.bind_some,
        eepromWrite_eq (by rw [length_metaBytes]; omega), Option.bind_some, write_entry]
    · intro x hGe
      rw [regEndOf_concat] at hGe
      rw [ByteMem.write_of_not_mem (by rw [length_metaBytes]; omega),
        ByteMem.write_of_not_mem (by rw [length_entryBytes]; omega)]
  · rw [if_pos (by omega)]

----
-- Moving Data
----

/- One byte is read and written. -/
theorem moveDataFrom_succ
    {oldpos newpos len todo offset : Nat}
    (hOffset : offset = if newpos < oldpos then len - (todo + 1) else len - (len - (todo + 1)))
    (hOld : oldpos + offset < conf.eepromSize)
    (hNew : newpos + offset < conf.eepromSize) :
    moveDataFrom conf oldpos newpos len (todo + 1) mem = moveDataFrom conf oldpos newpos len todo
        (mem.write (newpos + offset) [mem.byte (oldpos + offset)]) := by
  rw [moveDataFrom, ← hOffset, eepromReadByte, if_pos (Nat.succ_le_of_lt hOld)]
  simp only [bind, Option.bind_some, eepromWriteByte]
  rw [eepromWrite_eq (by rw [List.length_singleton]; omega), Option.bind_some]

/- A byte after a write of one byte. -/
theorem byte_write_singleton
    (a x : Nat) (b : UInt8) :
    (mem.write a [b]).byte x = if x = a then b else mem.byte x := by
  split
  · rename_i hEq
    subst hEq
    have hOne : 0 < [b].length := Nat.one_pos
    exact ByteMem.write_getElem hOne
  · rename_i hNe
    exact ByteMem.write_of_not_mem (by rw [List.length_singleton]; omega)

/- Moving down copies from the beginning. -/
theorem moveDataFrom_down
    {oldpos newpos len todo : Nat} (hDown : newpos < oldpos)
    (hIn : oldpos + len ≤ conf.eepromSize) (hTodo : todo ≤ len) :
    ∃ mem', moveDataFrom conf oldpos newpos len todo mem = some mem' ∧ ∀ x, mem'.byte x =
        if newpos + (len - todo) ≤ x ∧ x < newpos + len then mem.byte (x + (oldpos - newpos))
        else mem.byte x := by
  induction todo generalizing mem with
  | zero =>
    refine ⟨mem, rfl, ?_⟩
    intro x
    rw [if_neg (by omega)]
  | succ todo ih =>
    rcases @ih
        (mem.write (newpos + (len - (todo + 1))) [mem.byte (oldpos + (len - (todo + 1)))])
        (by omega) with ⟨mem', hRest, hBytes⟩
    refine ⟨mem', ?_, ?_⟩
    · rw [moveDataFrom_succ (if_pos hDown).symm (by omega) (by omega)]
      exact hRest
    · intro x
      rw [hBytes, byte_write_singleton, byte_write_singleton]
      by_cases hEq : x = newpos + (len - (todo + 1))
      · rw [if_neg (by omega), if_pos hEq, if_pos (by omega)]
        congr 1
        omega
      · rw [if_neg hEq]
        by_cases hIn : newpos + (len - todo) ≤ x ∧ x < newpos + len
        · rw [if_pos hIn, if_neg (by omega), if_pos (by omega)]
        · rw [if_neg hIn, if_neg (by omega)]

/-
  Moving up copies from the end, but the offsets run from
  `len` to 1: the first byte stays behind, and the byte after
  the last one moves along.
-/
theorem moveDataFrom_up
    {oldpos newpos len todo : Nat} (hUp : oldpos ≤ newpos)
    (hIn : newpos + len < conf.eepromSize) (hTodo : todo ≤ len) :
    ∃ mem', moveDataFrom conf oldpos newpos len todo mem = some mem' ∧ ∀ x, mem'.byte x =
        if newpos < x ∧ x ≤ newpos + todo then mem.byte (x - (newpos - oldpos))
        else mem.byte x := by
  induction todo generalizing mem with
  | zero =>
    refine ⟨mem, rfl, ?_⟩
    intro x
    rw [if_neg (by omega)]
  | succ todo ih =>
    have hOffset : todo + 1 = if newpos < oldpos then len - (todo + 1)
          else len - (len - (todo + 1)) := by
      rw [if_neg (by omega)]
      omega
    rcases @ih
        (mem.write (newpos + (todo + 1)) [mem.byte (oldpos + (todo + 1))])
        (by omega) with ⟨mem', hRest, hBytes⟩
    refine ⟨mem', ?_, ?_⟩
    · rw [moveDataFrom_succ hOffset (by omega) (by omega)]
      exact hRest
    · intro x
      rw [hBytes, byte_write_singleton, byte_write_singleton]
      by_cases hEq : x = newpos + (todo + 1)
      · rw [if_neg (by omega), if_pos hEq, if_pos (by omega)]
        congr 1
        omega
      · rw [if_neg hEq]
        by_cases hIn : newpos < x ∧ x ≤ newpos + todo
        · rw [if_pos hIn, if_neg (by omega), if_pos (by omega)]
        · rw [if_neg hIn, if_neg (by omega)]

/- Reading past the end fails. -/
theorem moveDataFrom_down_none
    {oldpos newpos len todo : Nat} (hDown : newpos < oldpos)
    (hOut : conf.eepromSize < oldpos + len) (hTodo : todo + 1 ≤ len) :
    moveDataFrom conf oldpos newpos len (todo + 1) mem = none := by
  induction todo generalizing mem with
  | zero =>
    rw [moveDataFrom, if_pos hDown, eepromReadByte, if_neg (by omega)]
    rfl
  | succ todo ih =>
    rw [moveDataFrom]
    rcases Option.eq_none_or_eq_some
        (eepromReadByte conf mem (oldpos + if newpos < oldpos then len - (todo + 1 + 1)
            else len - (len - (todo + 1 + 1)))) with
      hRead | ⟨byte, hRead⟩
    · rw [hRead]
      rfl
    · rw [hRead, Option.bind_eq_bind, Option.bind_some]
      rcases Option.eq_none_or_eq_some
          (eepromWriteByte conf mem (newpos + if newpos < oldpos then len - (todo + 1 + 1)
              else len - (len - (todo + 1 + 1))) byte) with
        hWrite | ⟨mem₁, hWrite⟩
      · rw [hWrite]
        rfl
      · rw [hWrite, Option.bind_eq_bind, Option.bind_some]
        exact ih (by omega)

----
-- Removing Entries
----

/- The data locations of the entries after a point go up. -/
theorem updateDataLocs_spec
    (hFits : conf.Fits) {loc prev dataLen fuel : Nat}
    (hHolds : mem.Holds loc (entriesBytes conf prev post))
    (hLens : ∀ e ∈ post, entryLen conf e < 256)
    (hLoc : loc + metaSize conf post ≤ conf.datStart)
    (hPrev : prev + dataLen ≤ conf.datStart) (hSize : dataSize post ≤ prev)
    (hFuel : post.length < fuel) :
    ∃ mem', updateDataLocs conf (loc + metaSize conf post) dataLen fuel loc mem = some mem' ∧
      mem'.Holds loc (entriesBytes conf (prev + dataLen) post) ∧
      ∀ x, x < loc ∨ loc + metaSize conf post ≤ x → mem'.byte x = mem.byte x := by
  induction post generalizing loc prev mem fuel with
  | nil =>
    cases fuel with
    | zero => cases hFuel
    | succ fuel =>
      refine ⟨mem, ?_, ?_, fun x _ => rfl⟩
      · rw [metaSize_nil, Nat.add_zero, updateDataLocs, if_neg (Nat.lt_irrefl _)]
      · exact hHolds
  | cons e post ih =>
    cases fuel with
    | zero => cases hFuel
    | succ fuel =>
      have hDat := hFits.datStart_lt
      have hLim := hFits.size_lt
      have hLen := hLens e List.mem_cons_self
      rw [metaSize_cons] at hLoc ⊢
      rw [dataSize_cons] at hSize
      rw [List.length_cons] at hFuel
      rw [entriesBytes, ByteMem.holds_append, length_entryBytes] at hHolds
      rcases hHolds with ⟨hEntry, hRest⟩
      have hSplit : entryLen conf e = entLenSiz + e.1.length + conf.eepregPtrLen := rfl
      rcases holds_entryBytes.mp hEntry with ⟨hByte, hName, -⟩
      -- The pointer of this entry is rewritten first.
      have hRest₁ : (mem.write (loc + entLenSiz + e.1.length)
            (metaBytes conf.eepregPtrLen (prev - e.2 + dataLen))).Holds
            (loc + entryLen conf e)
            (entriesBytes conf (prev - e.2) post) :=
        hRest.write (by rw [length_metaBytes]; omega)
      rcases ih hRest₁
          (fun f hMem => hLens f (List.mem_cons_of_mem e hMem))
          (by omega) (by omega) (by omega)
          (Nat.lt_of_succ_lt_succ hFuel) with
        ⟨mem', hLoop, hNew, hFrame⟩
      have hPtr : prev - e.2 + dataLen = prev + dataLen - e.2 := by
        omega
      refine ⟨mem', ?_, ?_, ?_⟩
      · rw [updateDataLocs, if_pos (by unfold entLenSiz at hSplit; omega),
          getMetaLen_of_holds hEntry hLen (by omega), Option.bind_eq_bind, Option.bind_some,
          getDataLoc_of_holds hFits hEntry (by omega) (by omega), Option.bind_eq_bind,
          Option.bind_some, setDataLoc, dataPtrLoc_of_le (by omega), writeMetaUint,
          Nat.mod_eq_of_lt (by omega), Nat.mod_eq_of_lt (by omega),
          eepromWrite_eq (by rw [length_metaBytes]; omega), Option.bind_some, ← Nat.add_assoc]
        exact hLoop
      · rw [entriesBytes, ByteMem.holds_append, length_entryBytes]
        refine ⟨?_, ?_⟩
        · rw [← hPtr]
          have hMoved : (mem.write (loc + entLenSiz + e.1.length)
                (metaBytes conf.eepregPtrLen (prev - e.2 + dataLen))).Holds loc
                (entryBytes conf e (prev - e.2 + dataLen)) := by
            rw [holds_entryBytes]
            refine ⟨?_, ?_, ByteMem.holds_write_self⟩
            · rw [ByteMem.write_of_not_mem (by unfold entLenSiz; omega)]
              exact hByte
            · exact hName.write (Or.inl (Nat.le_refl _))
          apply hMoved.transport
          intro i hLt
          rw [length_entryBytes] at hLt
          exact hFrame _ (by omega)
        · rw [← hPtr]
          exact hNew
      · intro x hOut
        rw [hFrame x (by omega), ByteMem.write_of_not_mem (by rw [length_metaBytes]; omega)]

/-
  The data after the removal of the entry `e`: moved up by its
  length, but for the first byte of the last entry, and with
  the first byte of `e` itself.
-/
def movedUp
    (conf : EepregConf) (mem : ByteMem) (pre : List RegEntry) (e : RegEntry)
    (post : List RegEntry) (x : Nat) : UInt8 :=
  if lastLocOf conf (pre ++ e :: post) + e.2 < x ∧
      x ≤ lastLocOf conf (pre ++ [e]) + e.2 then
    mem.byte (x - e.2)
  else
    mem.byte x

namespace EepRegistry

section

variable (hReg : EepRegistry conf mem (pre ++ e :: post))

include hReg

/- Where the parts of a registry around an entry are. -/
theorem locations :
    regEndOf conf (pre ++ e :: post) = regEndOf conf pre + entryLen conf e + metaSize conf post ∧
    regEndOf conf (pre ++ e :: post) ≤ lastLocOf conf (pre ++ e :: post) ∧
    lastLocOf conf (pre ++ [e]) = lastLocOf conf (pre ++ e :: post) + dataSize post ∧
    lastLocOf conf pre = lastLocOf conf (pre ++ [e]) + e.2 ∧
    lastLocOf conf pre ≤ conf.datStart := by
  have hSpace := hReg.space
  simp only [regEndOf, lastLocOf, metaSize_append, metaSize_cons,
    dataSize_append, dataSize_cons, dataSize_nil] at hSpace ⊢
  omega

/- The meta-data and the data after the two moves. -/
theorem moves_spec
    (hRead : regEndOf conf (pre ++ e :: post) + entryLen conf e ≤ conf.eepromSize) :
    ∃ mem₁ mem₂, moveData conf mem (regEndOf conf pre + entryLen conf e) (regEndOf conf pre)
        (regEndOf conf (pre ++ e :: post) - regEndOf conf pre) = some mem₁ ∧
      moveData conf mem₁ (lastLocOf conf (pre ++ e :: post))
        (lastLocOf conf (pre ++ e :: post) + e.2)
        (dataSize post) = some mem₂ ∧ (∀ x < regEndOf conf pre, mem₂.byte x = mem.byte x) ∧
      mem₂.Holds (regEndOf conf pre) (entriesBytes conf (lastLocOf conf (pre ++ [e])) post) ∧
      ∀ x, regEndOf conf (pre ++ e :: post) ≤ x → mem₂.byte x = movedUp conf mem pre e post x := by
  rcases hReg.locations with ⟨hEnd, hGap, hData, hPrev, hTop⟩
  have hPos : entLenSiz + conf.eepregPtrLen ≤ entryLen conf e := entryLen_pos
  unfold entLenSiz at hPos
  have hDat := hReg.fits.datStart_lt
  have hRest := hReg.holds_pre.2
  rw [entriesBytes, ByteMem.holds_append, length_entryBytes] at hRest
  have hPrevLoc : lastLocOf conf pre - e.2 = lastLocOf conf (pre ++ [e]) := by
    omega
  rw [hPrevLoc] at hRest
  rcases @moveDataFrom_down conf mem
      (regEndOf conf pre + entryLen conf e) (regEndOf conf pre)
      (regEndOf conf (pre ++ e :: post) - regEndOf conf pre)
      (regEndOf conf (pre ++ e :: post) - regEndOf conf pre)
      (by omega) (by omega) (Nat.le_refl _) with
    ⟨mem₁, hDown, hBytes₁⟩
  rcases @moveDataFrom_up conf mem₁
      (lastLocOf conf (pre ++ e :: post))
      (lastLocOf conf (pre ++ e :: post) + e.2)
      (dataSize post) (dataSize post)
      (by omega) (by omega) (Nat.le_refl _) with
    ⟨mem₂, hUp, hBytes₂⟩
  refine ⟨mem₁, mem₂, hDown, hUp, ?_, ?_, ?_⟩
  · intro x hLt
    rw [hBytes₂, if_neg (by omega), hBytes₁, if_neg (by omega)]
  · apply hRest.2.transport
    intro i hLt
    rw [length_entriesBytes] at hLt
    rw [hBytes₂, if_neg (by omega), hBytes₁, if_pos (by omega)]
    congr 1
    omega
  · intro x hGe
    have hHigh : ∀ y, regEndOf conf (pre ++ e :: post) ≤ y → mem₁.byte y = mem.byte y := by
      intro y hy
      rw [hBytes₁, if_neg (by omega)]
    unfold movedUp
    rw [hBytes₂]
    by_cases hIn : lastLocOf conf (pre ++ e :: post) + e.2 < x ∧
          x ≤ lastLocOf conf (pre ++ e :: post) + e.2 + dataSize post
    · rw [if_pos hIn, if_pos (by omega), hHigh _ (by omega)]
      congr 1
      omega
    · rw [if_neg hIn, if_neg (by omega), hHigh _ hGe]

/- The registry without an entry, in the new places. -/
theorem remove
    (hLow : ∀ x < regEndOf conf pre,
        x < conf.regEndPtrLoc ∨ conf.regEndPtrLoc + conf.eepregPtrLen ≤ x →
        mem'.byte x = mem.byte x)
    (hEndPtr : mem'.Holds conf.regEndPtrLoc
        (metaBytes conf.eepregPtrLen (regEndOf conf pre + metaSize conf post)))
    (hPost : mem'.Holds (regEndOf conf pre) (entriesBytes conf (lastLocOf conf pre) post)) :
    EepRegistry conf mem' (pre ++ post) := by
  have hEnt1 : conf.regEnt1Loc = conf.regEndPtrLoc + conf.eepregPtrLen := rfl
  have hPtrLoc : conf.regEndPtrLoc = conf.regMagicLoc + 7 := rfl
  have hMagic : eepregMagic.length = 7 := rfl
  have hStart : regEndOf conf pre = conf.regEnt1Loc + metaSize conf pre := rfl
  have hSpace := hReg.space
  refine ⟨hReg.fits, ?_, ?_, ?_, ?_, ?_, ?_⟩
  · apply hReg.magic.transport
    intro i hLt
    exact hLow _ (by omega) (by omega)
  · have hAll : regEndOf conf (pre ++ post) = regEndOf conf pre + metaSize conf post := by
      simp only [regEndOf, metaSize_append]
      omega
    rw [hAll]
    exact hEndPtr
  · rw [entriesBytes_append, ByteMem.holds_append, length_entriesBytes]
    refine ⟨?_, hPost⟩
    apply hReg.holds_pre.1.transport
    intro i hLt
    rw [length_entriesBytes] at hLt
    exact hLow _ (by omega) (by omega)
  · simp only [regEndOf, metaSize_append, metaSize_cons, dataSize_append, dataSize_cons] at hSpace ⊢
    omega
  · refine hReg.names.sublist ?_
    rw [List.map_append, List.map_append, List.map_cons]
    exact (List.Sublist.refl _).append (List.sublist_cons_self _ _)
  · intro f hMem
    apply hReg.len_lt f
    rcases List.mem_append.mp hMem with hPre | hIn
    · exact List.mem_append_left _ hPre
    · exact List.mem_append_right _ (List.mem_cons_of_mem e hIn)

/- Removing an entry. -/
theorem rm_spec
    (hRead : regEndOf conf (pre ++ e :: post) + entryLen conf e ≤ conf.eepromSize) :
    ∃ mem', eepregRm conf mem e.1 = some (.ok, mem') ∧ EepRegistry conf mem' (pre ++ post) ∧
      ∀ x, regEndOf conf (pre ++ e :: post) ≤ x → mem'.byte x = movedUp conf mem pre e post x := by
  rcases hReg.locations with ⟨hEnd, hGap, hData, hPrev, hTop⟩
  have hDat := hReg.fits.datStart_lt
  have hSize := hReg.fits.size_lt
  rcases hReg.moves_spec hRead with ⟨mem₁, mem₂, hDown, hUp, hLow, hPost, hHigh⟩
  have hEnt1 : conf.regEndPtrLoc + conf.eepregPtrLen ≤ regEndOf conf pre := Nat.le_add_right _ _
  have hLens : ∀ f ∈ post, entryLen conf f < 256 := fun f hMem =>
      hReg.len_lt f (List.mem_append_right _ (List.mem_cons_of_mem e hMem))
  have hFuel : post.length < regEndOf conf pre + metaSize conf post + 1 := by
    have hLen := length_le_regEnd conf post
    unfold regEndOf at hLen ⊢
    omega
  have hPost₁ : (mem₂.write conf.regEndPtrLoc
        (metaBytes conf.eepregPtrLen (regEndOf conf pre + metaSize conf post))).Holds
        (regEndOf conf pre)
        (entriesBytes conf (lastLocOf conf (pre ++ [e])) post) :=
    hPost.write (by rw [length_metaBytes]; omega)
  have hTop₁ : lastLocOf conf (pre ++ [e]) + e.2 ≤ conf.datStart := by
    omega
  rcases updateDataLocs_spec hReg.fits hPost₁ hLens (by omega) hTop₁ (by omega) hFuel with
    ⟨mem', hLoop, hNew, hFrame⟩
  rw [← hPrev] at hNew
  refine ⟨mem', ?_, hReg.remove ?_ ?_ hNew, ?_⟩
  · have hTotMeta : sub32 (regEndOf conf (pre ++ e :: post))
            (regEndOf conf pre) = regEndOf conf (pre ++ e :: post) - regEndOf conf pre :=
      sub32_of_le (by omega) (by omega)
    have hTotData : sub32 (lastLocOf conf (pre ++ [e]))
            (lastLocOf conf (pre ++ e :: post)) = dataSize post := by
      rw [sub32_of_le (by omega) (by omega)]
      omega
    have hNewEnd : sub32 (regEndOf conf (pre ++ e :: post))
            (entryLen conf e) = regEndOf conf pre + metaSize conf post := by
      rw [sub32_of_le (by omega) (by omega)]
      omega
    have hFrom :
        (regEndOf conf pre + entryLen conf e) % 2 ^ 32 = regEndOf conf pre + entryLen conf e :=
      Nat.mod_eq_of_lt (by omega)
    have hTo : (lastLocOf conf (pre ++ e :: post) + e.2) % 2 ^ 32 =
          lastLocOf conf (pre ++ e :: post) + e.2 :=
      Nat.mod_eq_of_lt (by omega)
    have hSet : setRegEnd conf mem₂
            (regEndOf conf pre + metaSize conf post) =
          some (mem₂.write conf.regEndPtrLoc
            (metaBytes conf.eepregPtrLen (regEndOf conf pre + metaSize conf post))) :=
      eepromWrite_eq (by rw [length_metaBytes]; omega)
    unfold eepregRm
    simp only [bind, hReg.check_eq, Option.bind_some, if_true, hReg.getMetaLoc_of_mem,
      hReg.getRegEnd_eq, hReg.getLastLoc_eq, hReg.getMetaLen_eq, hReg.getDataLoc_eq,
      hReg.getDataLen_eq, hTotMeta, hTotData, hFrom, hTo, hNewEnd, hDown, hUp, hSet, hLoop]
  · intro x hLt hOut
    rw [hFrame x (Or.inl hLt), ByteMem.write_of_not_mem (by rw [length_metaBytes]; omega)]
    exact hLow x hLt
  · apply ByteMem.holds_write_self.transport
    intro i hLt
    rw [length_metaBytes] at hLt
    exact hFrame _ (by omega)
  · intro x hGe
    rw [hFrame x (by omega), ByteMem.write_of_not_mem (by rw [length_metaBytes]; omega)]
    exact hHigh x hGe

end

end EepRegistry

end Riot
