import Riot.Storage.EepregOps

/-
  The data of the other entries after an entry has been
  removed from the EEPROM registry.
-/

----
-- Positions
----

namespace Riot

variable {conf : EepregConf} {mem mem' : ByteMem} {es pre post : List RegEntry}
variable {e f : RegEntry}

/- The position of an entry's data. -/
theorem EepRegistry.read_eq
    (hReg : EepRegistry conf mem (pre ++ e :: post)) :
    eepregRead conf mem e.1 = some (.ok, some (lastLocOf conf (pre ++ [e]))) := by
  unfold eepregRead
  simp only [bind, hReg.check_eq, Option.bind_some, if_true, hReg.getMetaLoc_of_mem,
    hReg.getMetaLen_eq, hReg.getDataLoc_eq]

/- A removal that returns has not read past the end. -/
theorem EepRegistry.rm_readable
    {ret : EepregRet} (hReg : EepRegistry conf mem (pre ++ e :: post))
    (hRm : eepregRm conf mem e.1 = some (ret, mem')) :
    regEndOf conf (pre ++ e :: post) + entryLen conf e ≤ conf.eepromSize := by
  by_contra hOut
  rcases hReg.locations with ⟨hEnd, hGap, hData, hPrev, hTop⟩
  have hDat := hReg.fits.datStart_lt
  have hSize := hReg.fits.size_lt
  have hPos : entLenSiz + conf.eepregPtrLen ≤ entryLen conf e := entryLen_pos
  unfold entLenSiz at hPos
  have hTotMeta : sub32 (regEndOf conf (pre ++ e :: post))
          (regEndOf conf pre) = entryLen conf e - 1 + metaSize conf post + 1 := by
    rw [sub32_of_le (by omega) (by omega)]
    omega
  have hFrom :
      (regEndOf conf pre + entryLen conf e) % 2 ^ 32 = regEndOf conf pre + entryLen conf e :=
    Nat.mod_eq_of_lt (by omega)
  have hMove : moveData conf mem (regEndOf conf pre + entryLen conf e)
        (regEndOf conf pre)
        (entryLen conf e - 1 + metaSize conf post + 1) = none :=
    moveDataFrom_down_none (by omega) (by omega) (Nat.le_refl _)
  unfold eepregRm at hRm
  simp only [bind, hReg.check_eq, Option.bind_some, if_true, hReg.getMetaLoc_of_mem,
    hReg.getRegEnd_eq, hReg.getLastLoc_eq, hReg.getMetaLen_eq, hReg.getDataLoc_eq,
    hReg.getDataLen_eq, hTotMeta, hFrom, hMove, Option.bind_none] at hRm
  cases hRm

----
-- Moved Data
----

/-
  Every other entry is still there, and the bytes at its new
  position are the bytes at its old position.
-/
def KeepsData
    (conf : EepregConf) (mem mem' : ByteMem) (others : List RegEntry) : Prop :=
  ∀ f ∈ others, ∃ pos pos', eepregRead conf mem f.1 = some (.ok, some pos) ∧
    eepregRead conf mem' f.1 = some (.ok, some pos') ∧ mem'.read pos' f.2 = mem.read pos f.2

/-
  Removing the entry `e` does no harm: it is the newest one;
  or the byte that stays behind at the start of the data is
  the one that belongs there, and so is the byte that reaches
  the data of the entry before `e`.
-/
def RemovalHarmless
    (conf : EepregConf) (mem : ByteMem) (pre : List RegEntry) (e : RegEntry)
    (post : List RegEntry) : Prop :=
  post = [] ∨ mem.byte (lastLocOf conf (pre ++ e :: post) + e.2) =
      mem.byte (lastLocOf conf (pre ++ e :: post)) ∧
    (pre = [] ∨ mem.byte (lastLocOf conf (pre ++ [e])) = mem.byte (lastLocOf conf pre))

section

variable
  (hReg : EepRegistry conf mem (pre ++ e :: post))
variable
  (hHarmless : RemovalHarmless conf mem pre e post)

include hReg hHarmless

/- The data before the removed entry's stays as it is. -/
theorem movedUp_of_ge
    (hPre : pre ≠ []) {x : Nat} (hGe : lastLocOf conf pre ≤ x) :
    movedUp conf mem pre e post x = mem.byte x := by
  rcases hReg.locations with ⟨hEnd, hGap, hData, hPrev, hTop⟩
  unfold movedUp
  split
  · rename_i hIn
    have hEq : x = lastLocOf conf pre := by omega
    have hSub : x - e.2 = lastLocOf conf (pre ++ [e]) := by
      omega
    rcases hHarmless with hNil | ⟨-, hFirst⟩
    · have hZero : dataSize post = 0 := by
        rw [hNil]
        rfl
      omega
    · rw [hSub, hEq]
      exact hFirst.resolve_left hPre
  · rfl

/- The data after the removed entry's goes up. -/
theorem movedUp_of_lt
    {x : Nat} (hGe : lastLocOf conf (pre ++ e :: post) ≤ x)
    (hLt : x < lastLocOf conf (pre ++ [e])) :
    movedUp conf mem pre e post (x + e.2) = mem.byte x := by
  rcases hReg.locations with ⟨hEnd, hGap, hData, hPrev, hTop⟩
  unfold movedUp
  split
  · rw [Nat.add_sub_cancel]
  · have hEq : x = lastLocOf conf (pre ++ e :: post) := by
      omega
    rcases hHarmless with hNil | ⟨hFirst, -⟩
    · have hZero : dataSize post = 0 := by
        rw [hNil]
        rfl
      omega
    · rw [hEq]
      exact hFirst

end

section

variable (hReg : EepRegistry conf mem (pre ++ e :: post))
variable (hNew : EepRegistry conf mem' (pre ++ post))
variable (hMoved :
      ∀ x, regEndOf conf (pre ++ e :: post) ≤ x → mem'.byte x = movedUp conf mem pre e post x)
variable (hHarmless : RemovalHarmless conf mem pre e post)

include hReg hNew hMoved hHarmless

/- The entries before the removed one. -/
theorem keepsData_pre :
    KeepsData conf mem mem' pre := by
  intro f hMem
  rcases List.append_of_mem hMem with ⟨before, after, hPre⟩
  rcases hReg.locations with ⟨hEnd, hGap, hData, hPrev, hTop⟩
  have hSome : pre ≠ [] := List.ne_nil_of_mem hMem
  have hOld : EepRegistry conf mem (before ++ f :: (after ++ e :: post)) := by
    rw [hPre, List.append_assoc, List.cons_append] at hReg
    exact hReg
  have hNow : EepRegistry conf mem' (before ++ f :: (after ++ post)) := by
    rw [hPre, List.append_assoc, List.cons_append] at hNew
    exact hNew
  refine ⟨_, _, hOld.read_eq, hNow.read_eq, ?_⟩
  have hGe : lastLocOf conf pre ≤ lastLocOf conf (before ++ [f]) := by
    rw [hPre]
    simp only [lastLocOf, dataSize_append, dataSize_cons, dataSize_nil]
    omega
  apply ByteMem.read_congr
  intro x hx _
  rw [hMoved x (by omega)]
  exact movedUp_of_ge hReg hHarmless hSome (by omega)

/- The entries after the removed one. -/
theorem keepsData_post :
    KeepsData conf mem mem' post := by
  intro f hMem
  rcases List.append_of_mem hMem with ⟨before, after, hPost⟩
  rcases hReg.locations with ⟨hEnd, hGap, hData, hPrev, hTop⟩
  have hOld : EepRegistry conf mem ((pre ++ e :: before) ++ f :: after) := by
    rw [List.append_assoc, List.cons_append, ← hPost]
    exact hReg
  have hNow : EepRegistry conf mem' ((pre ++ before) ++ f :: after) := by
    rw [List.append_assoc, ← hPost]
    exact hNew
  have hSpace := hReg.space
  rw [hPost] at hSpace
  have hUp :
      lastLocOf conf (pre ++ before ++ [f]) = lastLocOf conf (pre ++ e :: before ++ [f]) + e.2 := by
    simp only [lastLocOf, dataSize_append, dataSize_cons, dataSize_nil] at hSpace ⊢
    omega
  have hRange : lastLocOf conf (pre ++ e :: post) ≤ lastLocOf conf (pre ++ e :: before ++ [f]) ∧
      lastLocOf conf (pre ++ e :: before ++ [f]) + f.2 ≤ lastLocOf conf (pre ++ [e]) := by
    rw [hPost]
    simp only [lastLocOf, dataSize_append, dataSize_cons, dataSize_nil] at hSpace ⊢
    omega
  refine ⟨_, _, hOld.read_eq, hNow.read_eq, ?_⟩
  apply List.ext_getElem?
  intro i
  rcases Nat.lt_or_ge i f.2 with hLt | hGe
  · rw [ByteMem.getElem?_read hLt, ByteMem.getElem?_read hLt, hUp, Nat.add_right_comm,
      hMoved _ (by omega), movedUp_of_lt hReg hHarmless (by omega) (by omega)]
  · rw [List.getElem?_eq_none (by rw [ByteMem.length_read]; exact hGe),
      List.getElem?_eq_none (by rw [ByteMem.length_read]; exact hGe)]

end

/- The first byte of an entry whose data is kept. -/
theorem KeepsData.first_byte
    {others before after before' after' : List RegEntry}
    (hKeeps : KeepsData conf mem mem' others) (hMem : f ∈ others) (hPos : 0 < f.2)
    (hReg : EepRegistry conf mem (before ++ f :: after))
    (hNew : EepRegistry conf mem' (before' ++ f :: after')) :
    mem'.byte (lastLocOf conf (before' ++ [f])) = mem.byte (lastLocOf conf (before ++ [f])) := by
  rcases hKeeps f hMem with ⟨pos, pos', hOld, hNow, hRead⟩
  rw [hReg.read_eq] at hOld
  rw [hNew.read_eq] at hNow
  cases hOld
  cases hNow
  exact ByteMem.byte_eq_of_read_eq hRead hPos

section

variable (hKeeps : KeepsData conf mem mem' (pre ++ post))
variable (hReg : EepRegistry conf mem (pre ++ e :: post))
variable (hNew : EepRegistry conf mem' (pre ++ post))
variable (hMoved :
      ∀ x, regEndOf conf (pre ++ e :: post) ≤ x → mem'.byte x = movedUp conf mem pre e post x)

include hKeeps hReg hNew hMoved

/- The byte that stays behind is the right one. -/
theorem KeepsData.last_byte
    (hLens : ∀ f ∈ post, 0 < f.2) (hSome : post ≠ []) :
    mem.byte (lastLocOf conf (pre ++ e :: post) + e.2) =
      mem.byte (lastLocOf conf (pre ++ e :: post)) := by
  rcases hReg.locations with ⟨hEnd, hGap, hData, hPrev, hTop⟩
  have hSpace := hReg.space
  rcases List.eq_nil_or_concat post with hNil | ⟨init, f, hPost⟩
  · exact absurd hNil hSome
  · rw [List.concat_eq_append] at hPost
    have hLast : f ∈ post := by
      rw [hPost]
      exact List.mem_append_right _ List.mem_cons_self
    have hOld : EepRegistry conf mem ((pre ++ e :: init) ++ f :: []) := by
      rw [List.append_assoc, List.cons_append, ← hPost]
      exact hReg
    have hNow : EepRegistry conf mem' ((pre ++ init) ++ f :: []) := by
      rw [List.append_assoc, ← hPost]
      exact hNew
    have hByte := hKeeps.first_byte (List.mem_append_right _ hLast) (hLens f hLast) hOld hNow
    have hPos : lastLocOf conf (pre ++ e :: init ++ [f]) = lastLocOf conf (pre ++ e :: post) := by
      rw [List.append_assoc, List.cons_append, ← hPost]
    have hPos' : lastLocOf conf (pre ++ init ++ [f]) = lastLocOf conf (pre ++ e :: post) + e.2 := by
      rw [List.append_assoc, ← hPost]
      simp only [lastLocOf, dataSize_append, dataSize_cons] at hSpace ⊢
      omega
    rw [hPos, hPos', hMoved _ (by omega), movedUp, if_neg (by omega)] at hByte
    exact hByte

/- The byte that moves along is the right one. -/
theorem KeepsData.pre_byte
    (hLens : ∀ f ∈ pre, 0 < f.2) (hData : 0 < dataSize post) (hSome : pre ≠ []) :
    mem.byte (lastLocOf conf (pre ++ [e])) = mem.byte (lastLocOf conf pre) := by
  rcases hReg.locations with ⟨hEnd, hGap, hLast, hPrev, hTop⟩
  rcases List.eq_nil_or_concat pre with hNil | ⟨init, f, hPre⟩
  · exact absurd hNil hSome
  · rw [List.concat_eq_append] at hPre
    have hMem : f ∈ pre := by
      rw [hPre]
      exact List.mem_append_right _ List.mem_cons_self
    have hOld : EepRegistry conf mem (init ++ f :: (e :: post)) := by
      rw [List.append_cons, ← hPre]
      exact hReg
    have hNow : EepRegistry conf mem' (init ++ f :: post) := by
      rw [List.append_cons, ← hPre]
      exact hNew
    have hByte := hKeeps.first_byte (List.mem_append_left _ hMem) (hLens f hMem) hOld hNow
    have hSub : lastLocOf conf pre - e.2 = lastLocOf conf (pre ++ [e]) := by
      omega
    rw [← hPre, hMoved _ (by omega), movedUp, if_pos (by omega), hSub] at hByte
    exact hByte

end

/-
  A removal keeps the data of the other entries exactly when
  it is harmless.
-/
theorem keepsData_iff_removalHarmless
    (hReg : EepRegistry conf mem (pre ++ e :: post))
    (hLens : ∀ f ∈ pre ++ e :: post, 0 < f.2)
    (hRm : eepregRm conf mem e.1 = some (.ok, mem')) :
    KeepsData conf mem mem' (pre ++ post) ↔ RemovalHarmless conf mem pre e post := by
  rcases hReg.rm_spec (hReg.rm_readable hRm) with ⟨mem₁, hRm₁, hNew, hMoved⟩
  rw [hRm] at hRm₁
  cases hRm₁
  have hLensPre : ∀ f ∈ pre, 0 < f.2 := fun f hMem => hLens f (List.mem_append_left _ hMem)
  have hLensPost : ∀ f ∈ post, 0 < f.2 :=
    fun f hMem =>
      hLens f (List.mem_append_right _ (List.mem_cons_of_mem e hMem))
  constructor
  · intro hKeeps
    unfold RemovalHarmless
    rw [or_iff_not_imp_left]
    intro hSome
    have hData : 0 < dataSize post := by
      rcases List.exists_cons_of_ne_nil hSome with ⟨f, fs, rfl⟩
      have hPos := hLensPost f List.mem_cons_self
      rw [dataSize_cons]
      omega
    refine ⟨hKeeps.last_byte hReg hNew hMoved hLensPost hSome, ?_⟩
    rw [or_iff_not_imp_left]
    exact hKeeps.pre_byte hReg hNew hMoved hLensPre hData
  · intro hHarmless f hMem
    rcases List.mem_append.mp hMem with hPre | hPost
    · exact keepsData_pre hReg hNew hMoved hHarmless f hPre
    · exact keepsData_post hReg hNew hMoved hHarmless f hPost

----
-- A Registry with Two Entries
----

/- An EEPROM of 32 bytes. -/
def smallConf : EepregConf where
  eepromSize := 32
  eepromReservCpuLow := 0
  eepromReservCpuHi := 0
  eepromReservBoardLow := 0
  eepromReservBoardHi := 0

/-
  The entries "a" of one byte and "b" of two bytes, with the
  data 9 and 7, 8.
-/
def smallEntries : List RegEntry :=
  [([97], 1), ([98], 2)]

def smallRegistry : ByteMem where
  byte := fun x =>
    (eepregMagic ++ [14, 3, 97, 30, 3, 98, 28] ++ List.replicate 14 0 ++ [7, 8, 9]).getD x 0

theorem smallRegistry_holds :
    EepRegistry smallConf smallRegistry smallEntries where
  fits := ⟨by decide, by decide⟩
  magic := ByteMem.holds_of_read_eq (by decide)
  endPtr := ByteMem.holds_of_read_eq (by decide)
  entries := ByteMem.holds_of_read_eq (by decide)
  space := by decide
  names := by decide
  len_lt := by decide

/- Removing "b", the newest entry, keeps the data of "a". -/
theorem keepsData_smallRegistry :
    ∃ mem', eepregRm smallConf smallRegistry [98] = some (.ok, mem') ∧
      KeepsData smallConf smallRegistry mem' ([([97], 1)] ++ []) := by
  have hIff :=
    fun mem' =>
      @keepsData_iff_removalHarmless smallConf smallRegistry mem'
        [([97], 1)] [] ([98], 2) smallRegistry_holds (by decide)
  exact ⟨_, rfl, (hIff _ rfl).mpr (Or.inl rfl)⟩

/-
  Removing "a" loses the first byte of the data of "b": the
  second byte is read twice.
-/
theorem not_keepsData_smallRegistry :
    EepRegistry smallConf smallRegistry smallEntries ∧ ∃ mem',
      eepregRm smallConf smallRegistry [97] = some (.ok, mem') ∧
      ¬ KeepsData smallConf smallRegistry mem' ([] ++ [([98], 2)]) := by
  refine ⟨smallRegistry_holds, _, rfl, ?_⟩
  intro hKeeps
  rcases hKeeps ([98], 2) List.mem_cons_self with ⟨pos, pos', hOld, hNow, hRead⟩
  cases hOld
  cases hNow
  exact absurd hRead (by decide)

end Riot
