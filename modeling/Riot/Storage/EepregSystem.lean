import Riot.Lib.System
import Riot.Storage.EepregRemoval

/-
  The EEPROM registry as an ordered map: runs of its
  functions from a new registry, next to a map of names to
  lengths in the order in which they were added.
-/

----
-- The Map
----

namespace Riot

/- The data of a name. -/
structure Region where
  name : List UInt8
  pos : Nat
  len : Nat
  deriving DecidableEq

/- The data grows down, in the order of the entries. -/
def regions : Nat → List RegEntry → List Region
| _, [] => []
| prev, e :: es => ⟨e.1, prev - e.2, e.2⟩ :: regions (prev - e.2) es

/- The calls of the interface. -/
inductive RegOp where
  | add (name : List UInt8) (len : Nat)
  | write (name : List UInt8) (len : Nat)
  | rm (name : List UInt8)
  | read (name : List UInt8)
  | len (name : List UInt8)
  | free
  deriving DecidableEq

/- What a call returns, and the value that it hands out. -/
structure RegOutcome where
  ret : EepregRet
  value : Option Nat
  deriving DecidableEq

/- The space between the meta-data and the data. -/
def regGap
    (conf : EepregConf) (es : List RegEntry) : Nat :=
  lastLocOf conf es - regEndOf conf es

/- A new name goes to the end, if there is room for it. -/
def regAppend
    (conf : EepregConf) (es : List RegEntry) (e : RegEntry) : RegOutcome × List RegEntry :=
  if entryLen conf e + e.2 ≤ regGap conf es then
    (⟨.ok, some (lastLocOf conf es - e.2)⟩, es ++ [e])
  else
    (⟨.enospc, none⟩, es)

/- The calls on an ordered map of names to lengths. -/
def regSpec
    (conf : EepregConf) (es : List RegEntry) :
    RegOp → RegOutcome × List RegEntry
| .add name len =>
  match (regions conf.datStart es).find?
      (fun r => r.name = name) with
  | none => regAppend conf es (name, len)
  | some r =>
    if len = r.len then
      (⟨.ok, some r.pos⟩, es)
    else
      (⟨.eaddrinuse, none⟩, es)
| .write name len => regAppend conf es (name, len)
| .rm name =>
  if name ∈ es.map Prod.fst then
    (⟨.ok, none⟩, es.filter (fun e => e.1 ≠ name))
  else
    (⟨.enoent, none⟩, es)
| .read name =>
  match (regions conf.datStart es).find?
      (fun r => r.name = name) with
  | none => (⟨.enoent, none⟩, es)
  | some r => (⟨.ok, some r.pos⟩, es)
| .len name =>
  match (regions conf.datStart es).find?
      (fun r => r.name = name) with
  | none => (⟨.enoent, none⟩, es)
  | some r => (⟨.ok, some r.len⟩, es)
| .free => (⟨.ok, some (regGap conf es)⟩, es)

----
-- Runs
----

/- The value of `pos` counts only after a success. -/
def RegOutcome.ofPos
    (ret : EepregRet) (pos : Nat) : RegOutcome :=
  ⟨ret, if ret = .ok then some pos else none⟩

/- A call of the source. -/
def runOp
    (conf : EepregConf) (mem : ByteMem) :
    RegOp → Option (RegOutcome × ByteMem)
| .add name len => (eepregAdd conf mem name len).map (fun r => (.ofPos r.1 r.2.1, r.2.2))
| .write name len =>
  (eepregWrite conf mem name len).map (fun r => (.ofPos r.1 r.2.1, r.2.2))
| .rm name => (eepregRm conf mem name).map (fun r => (⟨r.1, none⟩, r.2))
| .read name => (eepregRead conf mem name).map (fun r => (⟨r.1, r.2⟩, mem))
| .len name => (eepregLen conf mem name).map (fun r => (⟨r.1, r.2⟩, mem))
| .free => (eepregFree conf mem).map (fun r => (⟨r.1, r.2⟩, mem))

/-
  The EEPROM and the map, with what the last call returned and
  what it should have returned.
-/
structure RegRun where
  mem : ByteMem
  entries : List RegEntry
  outcome : RegOutcome
  expected : RegOutcome

/- The calls that the interface is made for. -/
def RegOp.Admitted
    (conf : EepregConf)
    (es : List RegEntry) : RegOp → Prop
| .add name n => name.length < 250 ∧ n ≤ conf.eepromSize
| .write name n =>
  name.length < 250 ∧ n ≤ conf.eepromSize ∧ name ∉ es.map Prod.fst
| .rm name | .read name | .len name => name.length < 250
| .free => True

/-
  A removal copies as many bytes as the entry has from behind
  the meta-data; these have to be in the EEPROM.
-/
def RegOp.Readable
    (conf : EepregConf)
    (es : List RegEntry) : RegOp → Prop
| .rm name => ∀ e ∈ es, e.1 = name → regEndOf conf es + entryLen conf e ≤ conf.eepromSize
| _ => True

/- Runs from a new registry. -/
def eepregSystem
    (conf : EepregConf) : System RegRun RegOp where
  Start := fun s =>
    s.entries = [] ∧ s.outcome = s.expected ∧ ∃ mem, eepregReset conf mem = some (.ok, s.mem)
  Enabled := fun s op => op.Admitted conf s.entries
  exec := fun s op =>
    (runOp conf s.mem op).map
      (fun r =>
        { mem := r.2
          entries := (regSpec conf s.entries op).2
          outcome := r.1
          expected := (regSpec conf s.entries op).1 })

----
-- Steps
----

variable {conf : EepregConf} {mem : ByteMem} {es pre post : List RegEntry}
variable {e : RegEntry} {name : List UInt8}

/- The region of an entry, and of a name without one. -/
theorem regions_append
    (prev : Nat) :
    regions prev (pre ++ post) = regions prev pre ++ regions (prev - dataSize pre) post := by
  induction pre generalizing prev with
  | nil => simp [regions]
  | cons e pre ih =>
    simp only [List.cons_append, regions, ih, dataSize_cons, Nat.sub_add_eq]

theorem map_name_regions
    (prev : Nat) (es : List RegEntry) :
    (regions prev es).map Region.name = es.map Prod.fst := by
  induction es generalizing prev with
  | nil => rfl
  | cons e es ih => rw [regions, List.map_cons, List.map_cons, ih]

theorem find_region_of_not_mem
    (prev : Nat) (hNone : name ∉ es.map Prod.fst) :
    (regions prev es).find? (fun r => r.name = name) = none := by
  rw [List.find?_eq_none]
  intro r hMem hName
  rw [decide_eq_true_eq] at hName
  rw [← map_name_regions prev es] at hNone
  apply hNone
  rw [← hName]
  exact List.mem_map_of_mem hMem

theorem EepRegistry.name_not_mem
    (hReg : EepRegistry conf mem (pre ++ e :: post)) :
    e.1 ∉ pre.map Prod.fst ∧ e.1 ∉ post.map Prod.fst := by
  have hNames := hReg.names
  rw [List.map_append, List.map_cons] at hNames
  rcases List.nodup_append.mp hNames with ⟨-, hTail, hDisj⟩
  refine ⟨?_, (List.nodup_cons.mp hTail).1⟩
  intro hMem
  exact hDisj e.1 hMem e.1 List.mem_cons_self rfl

theorem EepRegistry.find_region
    (hReg : EepRegistry conf mem (pre ++ e :: post)) :
    (regions conf.datStart (pre ++ e :: post)).find?
        (fun r => r.name = e.1) = some ⟨e.1, lastLocOf conf (pre ++ [e]), e.2⟩ := by
  have hPos : conf.datStart - dataSize pre - e.2 = lastLocOf conf (pre ++ [e]) := by
    simp only [lastLocOf, dataSize_append, dataSize_cons, dataSize_nil]
    omega
  rw [regions_append, List.find?_append, find_region_of_not_mem _ hReg.name_not_mem.1,
    Option.none_or, regions, hPos, List.find?_cons_of_pos]
  exact decide_eq_true rfl

/- A name is one of an entry, or there is no entry for it. -/
theorem split_name
    (es : List RegEntry) (name : List UInt8) :
    name ∉ es.map Prod.fst ∨ ∃ pre e post, es = pre ++ e :: post ∧ e.1 = name := by
  by_cases hMem : name ∈ es.map Prod.fst
  · rcases List.mem_map.mp hMem with ⟨e, hIn, hName⟩
    rcases List.append_of_mem hIn with ⟨pre, post, hEs⟩
    exact Or.inr ⟨pre, e, post, hEs, hName⟩
  · exact Or.inl hMem

/- A call does what the map does, and an error does nothing. -/
def StepRefines
    (conf : EepregConf) (mem : ByteMem) (es : List RegEntry) (op : RegOp) : Prop :=
  ∃ mem', runOp conf mem op = some ((regSpec conf es op).1, mem') ∧
    EepRegistry conf mem' (regSpec conf es op).2 ∧
    ((regSpec conf es op).1.ret ≠ .ok → mem' = mem ∧ (regSpec conf es op).2 = es)

section

variable (hReg : EepRegistry conf mem es)

include hReg

theorem EepRegistry.checkOrReset_eq :
    eepregCheckOrReset conf mem = some mem := by
  unfold eepregCheckOrReset
  rw [hReg.check_eq]
  rfl

/- The outcome of a new entry. -/
theorem EepRegistry.append_spec
    (hFresh : e.1 ∉ es.map Prod.fst) (hName : e.1.length < 250)
    (hSum : conf.eepromSize + 255 < 2 ^ 32) (hLen : e.2 ≤ conf.eepromSize) :
    ∃ ret mem', newEntry conf mem e.1 e.2 = some (ret, mem') ∧
      RegOutcome.ofPos ret (sub32 (lastLocOf conf es) e.2) = (regAppend conf es e).1 ∧
      EepRegistry conf mem' (regAppend conf es e).2 ∧
      ((regAppend conf es e).1.ret ≠ .ok → mem' = mem ∧ (regAppend conf es e).2 = es) := by
  have hSpace := hReg.space
  have hDat := hReg.fits.datStart_lt
  have hPtr : conf.eepregPtrLen ≤ 4 := ptrLen_le
  have hEntry : entryLen conf e ≤ 254 := by
    unfold entryLen entLenSiz
    omega
  have hNew := hReg.newEntry_spec hFresh (Nat.lt_succ_of_lt (Nat.lt_succ_of_le hEntry)) (by omega)
  have hGap : entryLen conf e + e.2 ≤ regGap conf es ↔
        regEndOf conf es + dataSize es + (entryLen conf e + e.2) ≤ conf.datStart := by
    unfold regGap lastLocOf
    omega
  unfold regAppend
  by_cases hRoom : regEndOf conf es + dataSize es + (entryLen conf e + e.2) ≤ conf.datStart
  · rw [if_pos hRoom] at hNew
    rw [if_pos (hGap.mpr hRoom)]
    rcases hNew with ⟨mem', hRun, hReg', -⟩
    refine ⟨.ok, mem', hRun, ?_, hReg', fun h => absurd rfl h⟩
    rw [sub32_of_le (by unfold lastLocOf; omega) (by unfold lastLocOf; omega)]
    rfl
  · rw [if_neg hRoom] at hNew
    rw [if_neg (fun h => hRoom (hGap.mp h))]
    exact ⟨.enospc, mem, hNew, rfl, hReg, fun _ => ⟨rfl, rfl⟩⟩

/- New names, by both calls. -/
theorem EepRegistry.write_refines
    {n : Nat} (hFresh : name ∉ es.map Prod.fst) (hName : name.length < 250)
    (hSum : conf.eepromSize + 255 < 2 ^ 32) (hLen : n ≤ conf.eepromSize) :
    StepRefines conf mem es (.write name n) := by
  rcases @EepRegistry.append_spec conf mem es (name, n) hReg hFresh
      hName hSum hLen with ⟨ret, mem', hNew, hOut, hSpec⟩
  refine ⟨mem', ?_, hSpec⟩
  unfold runOp eepregWrite
  simp only [bind, hReg.getRegEnd_eq, hReg.checkOrReset_eq, hReg.getLastLoc_eq, Option.bind_some,
    hNew, Option.map_some, hOut, regSpec]

theorem EepRegistry.add_fresh_refines
    {n : Nat} (hFresh : name ∉ es.map Prod.fst) (hName : name.length < 250)
    (hSum : conf.eepromSize + 255 < 2 ^ 32) (hLen : n ≤ conf.eepromSize) :
    StepRefines conf mem es (.add name n) := by
  rcases @EepRegistry.append_spec conf mem es (name, n) hReg hFresh
      hName hSum hLen with ⟨ret, mem', hNew, hOut, hSpec⟩
  have hAdd : regSpec conf es (.add name n) = regAppend conf es (name, n) := by
    simp only [regSpec, find_region_of_not_mem conf.datStart hFresh]
  unfold StepRefines
  rw [hAdd]
  refine ⟨mem', ?_, hSpec⟩
  unfold runOp eepregAdd
  simp only [bind, hReg.getRegEnd_eq, hReg.checkOrReset_eq, hReg.getMetaLoc_of_not_mem hFresh,
    hReg.getLastLoc_eq, Option.bind_some, hNew, Option.map_some, hOut]

end

/- A name that is there already. -/
theorem EepRegistry.add_again_refines
    {n : Nat} (hReg : EepRegistry conf mem (pre ++ e :: post)) :
    StepRefines conf mem (pre ++ e :: post) (.add e.1 n) := by
  refine ⟨mem, ?_, ?_, ?_⟩
  · unfold runOp eepregAdd
    simp only [bind, hReg.getRegEnd_eq, hReg.checkOrReset_eq, hReg.getMetaLoc_of_mem,
      hReg.getMetaLen_eq, hReg.getDataLoc_eq, hReg.getDataLen_eq, Option.bind_some, regSpec,
      hReg.find_region]
    by_cases hLen : n = e.2
    · simp [hLen, RegOutcome.ofPos]
    · simp [hLen, RegOutcome.ofPos]
  · simp only [regSpec, hReg.find_region]
    split
    · exact hReg
    · exact hReg
  · simp only [regSpec, hReg.find_region]
    intro _
    split
    · exact ⟨trivial, rfl⟩
    · exact ⟨trivial, rfl⟩

/- Looking up. -/
theorem EepRegistry.len_eq
    (hReg : EepRegistry conf mem (pre ++ e :: post)) :
    eepregLen conf mem e.1 = some (.ok, some e.2) := by
  unfold eepregLen
  simp only [bind, hReg.check_eq, Option.bind_some, if_true, hReg.getMetaLoc_of_mem,
    hReg.getMetaLen_eq, hReg.getDataLoc_eq, hReg.getDataLen_eq]

theorem EepRegistry.lookup_none
    (hReg : EepRegistry conf mem es) (hNone : name ∉ es.map Prod.fst) :
    eepregRead conf mem name = some (.enoent, none) ∧
    eepregLen conf mem name = some (.enoent, none) := by
  unfold eepregRead eepregLen
  simp only [bind, hReg.check_eq, Option.bind_some, if_true,
    hReg.getMetaLoc_of_not_mem hNone, and_self]

theorem EepRegistry.free_eq
    (hReg : EepRegistry conf mem es) :
    eepregFree conf mem = some (.ok, some (regGap conf es)) := by
  have hFree : calcFreeSpace (regEndOf conf es) (lastLocOf conf es) = regGap conf es :=
    hReg.calcFreeSpace_eq
  unfold eepregFree
  simp only [bind, hReg.check_eq, Option.bind_some, if_true,
    hReg.getRegEnd_eq, hReg.getLastLoc_eq, hFree]

theorem EepRegistry.lookup_refines
    (hReg : EepRegistry conf mem es) (name : List UInt8) :
    StepRefines conf mem es (.read name) ∧ StepRefines conf mem es (.len name) := by
  rcases split_name es name with hNone | ⟨pre, e, post, rfl, rfl⟩
  · have hFind := find_region_of_not_mem conf.datStart hNone
    rcases hReg.lookup_none hNone with ⟨hRead, hLen⟩
    refine ⟨⟨mem, ?_, ?_, ?_⟩, ⟨mem, ?_, ?_, ?_⟩⟩
    · simp only [runOp, hRead, regSpec, hFind, Option.map_some]
    · simpa only [regSpec, hFind] using hReg
    · simp only [regSpec, hFind, and_self, implies_true]
    · simp only [runOp, hLen, regSpec, hFind, Option.map_some]
    · simpa only [regSpec, hFind] using hReg
    · simp only [regSpec, hFind, and_self, implies_true]
  · have hFind := hReg.find_region
    refine ⟨⟨mem, ?_, ?_, ?_⟩, ⟨mem, ?_, ?_, ?_⟩⟩
    · simp only [runOp, hReg.read_eq, regSpec, hFind, Option.map_some]
    · simpa only [regSpec, hFind] using hReg
    · simp only [regSpec, hFind, and_self, implies_true]
    · simp only [runOp, hReg.len_eq, regSpec, hFind, Option.map_some]
    · simpa only [regSpec, hFind] using hReg
    · simp only [regSpec, hFind, and_self, implies_true]

/- Removing. -/
theorem filter_name
    (hNone : name ∉ es.map Prod.fst) :
    es.filter (fun e => e.1 ≠ name) = es := by
  rw [List.filter_eq_self]
  intro e hMem
  apply decide_eq_true
  intro hName
  apply hNone
  rw [← hName]
  exact List.mem_map_of_mem hMem

theorem EepRegistry.rm_refines
    (hReg : EepRegistry conf mem es) (hRead : RegOp.Readable conf es (.rm name)) :
    StepRefines conf mem es (.rm name) := by
  rcases split_name es name with hNone | ⟨pre, e, post, rfl, rfl⟩
  · refine ⟨mem, ?_, ?_, ?_⟩
    · unfold runOp eepregRm
      simp only [bind, hReg.check_eq, Option.bind_some, if_true, hReg.getMetaLoc_of_not_mem hNone,
        Option.map_some, regSpec, hNone, if_false]
    · simpa only [regSpec, hNone, if_false] using hReg
    · simp only [regSpec, hNone, if_false, and_self, implies_true]
  · have hMem : e ∈ pre ++ e :: post := List.mem_append_right _ List.mem_cons_self
    have hName : e.1 ∈ (pre ++ e :: post).map Prod.fst := List.mem_map_of_mem hMem
    have hFilter : (pre ++ e :: post).filter (fun f => f.1 ≠ e.1) = pre ++ post := by
      rw [List.filter_append, filter_name hReg.name_not_mem.1, List.filter_cons_of_neg (by simp),
        filter_name hReg.name_not_mem.2]
    rcases hReg.rm_spec (hRead e hMem rfl) with ⟨mem', hRun, hNew, -⟩
    refine ⟨mem', ?_, ?_, ?_⟩
    · simp only [runOp, hRun, Option.map_some, regSpec, hName, if_true]
    · simp only [regSpec, hName, if_true, hFilter]
      exact hNew
    · simp only [regSpec, hName, if_true]
      intro h
      exact absurd rfl h

/- Every admitted call that does not read too far. -/
theorem EepRegistry.runOp_spec
    {op : RegOp} (hReg : EepRegistry conf mem es)
    (hSum : conf.eepromSize + 255 < 2 ^ 32) (hOp : op.Admitted conf es)
    (hRead : op.Readable conf es) :
    StepRefines conf mem es op := by
  cases op with
  | add name n =>
    rcases split_name es name with hNone | ⟨pre, e, post, rfl, rfl⟩
    · exact hReg.add_fresh_refines hNone hOp.1 hSum hOp.2
    · exact hReg.add_again_refines
  | write name n => exact hReg.write_refines hOp.2.2 hOp.1 hSum hOp.2.1
  | rm name => exact hReg.rm_refines hRead
  | read name => exact (hReg.lookup_refines name).1
  | len name => exact (hReg.lookup_refines name).2
  | free =>
    refine ⟨mem, ?_, hReg, fun _ => ⟨rfl, rfl⟩⟩
    rw [runOp, hReg.free_eq]
    rfl

----
-- Refinement
----

/- The regions follow each other down from the start. -/
theorem regions_bounds
    {prev : Nat} (hSize : dataSize es ≤ prev) :
    ∀ r ∈ regions prev es, prev - dataSize es ≤ r.pos ∧ r.pos + r.len ≤ prev := by
  induction es generalizing prev with
  | nil =>
    intro r hMem
    cases hMem
  | cons e es ih =>
    rw [dataSize_cons] at hSize
    intro r hMem
    rcases List.mem_cons.mp hMem with rfl | hRest
    · simp only [dataSize_cons]
      omega
    · rcases ih (by omega) r hRest with ⟨hLow, hHigh⟩
      rw [dataSize_cons]
      omega

theorem regions_pairwise
    {prev : Nat} (hSize : dataSize es ≤ prev) :
    (regions prev es).Pairwise (fun r r' => r'.pos + r'.len ≤ r.pos) := by
  induction es generalizing prev with
  | nil => exact List.Pairwise.nil
  | cons e es ih =>
    rw [dataSize_cons] at hSize
    rw [regions, List.pairwise_cons]
    refine ⟨?_, ih (by omega)⟩
    intro r hMem
    exact (regions_bounds (by omega) r hMem).2

/-
  The registry is the map: it has the names with their
  lengths, in regions that are disjoint and lie between the
  meta-data and the start of the data, the free space is the
  gap between these, the last call has returned what it
  should, and the next one will do what it does on the map,
  or nothing if it fails.
-/
structure RefinesMap
    (conf : EepregConf)
    (s : RegRun) : Prop where
  stored :
    ∀ r ∈ regions conf.datStart s.entries,
      eepregRead conf s.mem r.name = some (.ok, some r.pos) ∧
      eepregLen conf s.mem r.name = some (.ok, some r.len)
  absent : ∀ name ∉ s.entries.map Prod.fst, eepregRead conf s.mem name = some (.enoent, none)
  disjoint : (regions conf.datStart s.entries).Pairwise (fun r r' => r'.pos + r'.len ≤ r.pos)
  between :
    ∀ r ∈ regions conf.datStart s.entries, regEndOf conf s.entries ≤ r.pos ∧
      r.pos + r.len ≤ conf.datStart
  free : eepregFree conf s.mem = some (.ok, some (regGap conf s.entries))
  agrees : s.outcome = s.expected
  steps :
    ∀ op, op.Admitted conf s.entries → op.Readable conf s.entries →
      ∃ s', (eepregSystem conf).exec s op = some s' ∧ s'.outcome = s'.expected ∧
        (s'.outcome.ret ≠ .ok → s'.mem = s.mem ∧ s'.entries = s.entries)

/- A region belongs to an entry. -/
theorem mem_regions
    {prev : Nat} {r : Region} (hMem : r ∈ regions prev es) :
    ∃ pre e post, es = pre ++ e :: post ∧ r = ⟨e.1, prev - dataSize (pre ++ [e]), e.2⟩ := by
  induction es generalizing prev with
  | nil => cases hMem
  | cons e es ih =>
    rcases List.mem_cons.mp hMem with hHead | hRest
    · refine ⟨[], e, es, rfl, ?_⟩
      rw [hHead, List.nil_append, dataSize_cons, dataSize_nil, Nat.add_zero]
    · rcases ih hRest with ⟨pre, f, post, hEs, hRegion⟩
      refine ⟨e :: pre, f, post, ?_, ?_⟩
      · rw [hEs, List.cons_append]
      · rw [hRegion, List.cons_append, dataSize_cons, Nat.sub_add_eq]

/- The regions of the map are those of the registry. -/
theorem EepRegistry.stored
    (hReg : EepRegistry conf mem es) {r : Region}
    (hMem : r ∈ regions conf.datStart es) :
    eepregRead conf mem r.name = some (.ok, some r.pos) ∧
    eepregLen conf mem r.name = some (.ok, some r.len) := by
  rcases mem_regions hMem with ⟨pre, e, post, rfl, rfl⟩
  exact ⟨hReg.read_eq, hReg.len_eq⟩

/- One step keeps the registry next to the map. -/
theorem eepregSystem_step
    {s s' : RegRun} {op : RegOp} (hSum : conf.eepromSize + 255 < 2 ^ 32)
    (hReg : EepRegistry conf s.mem s.entries) (hRead : op.Readable conf s.entries)
    (hOp : op.Admitted conf s.entries)
    (hExec : (eepregSystem conf).exec s op = some s') :
    EepRegistry conf s'.mem s'.entries ∧ s'.outcome = s'.expected := by
  rcases hReg.runOp_spec hSum hOp hRead with ⟨mem', hRun, hReg', -⟩
  simp only [eepregSystem, hRun, Option.map_some, Option.some.injEq] at hExec
  subst hExec
  exact ⟨hReg', rfl⟩

/-
  In every run from a new registry whose removals do not read
  past the end of the EEPROM, the registry is the map.
-/
theorem refinesMap_of_reachable
    {s : RegRun} (hFits : conf.Fits) (hSum : conf.eepromSize + 255 < 2 ^ 32)
    (hReach : (eepregSystem conf).ReachableVia (fun s op => op.Readable conf s.entries) s) :
    RefinesMap conf s := by
  have hInv : EepRegistry conf s.mem s.entries ∧ s.outcome = s.expected := by
    apply
      hReach.invariant
        (I := fun s =>
          EepRegistry conf s.mem s.entries ∧ s.outcome = s.expected)
    · rintro s ⟨hEmpty, hOutcome, mem, hReset⟩
      rcases eepregReset_spec hFits with ⟨mem', hRun, hReg⟩
      rw [hReset] at hRun
      cases hRun
      rw [hEmpty]
      exact ⟨hReg, hOutcome⟩
    · intro s op s' hState hRead hOp hExec
      exact eepregSystem_step hSum hState.1 hRead hOp hExec
  rcases hInv with ⟨hReg, hOutcome⟩
  have hSpace := hReg.space
  have hSize : dataSize s.entries ≤ conf.datStart := by
    omega
  refine ⟨?_, ?_, regions_pairwise hSize, ?_, hReg.free_eq, hOutcome, ?_⟩
  · intro r hMem
    exact hReg.stored hMem
  · intro name hNone
    exact (hReg.lookup_none hNone).1
  · intro r hMem
    rcases regions_bounds hSize r hMem with ⟨hLow, hHigh⟩
    exact ⟨by omega, hHigh⟩
  · intro op hOp hRead
    rcases hReg.runOp_spec hSum hOp hRead with ⟨mem', hRun, hReg', hError⟩
    refine
      ⟨{ mem := mem'
         entries := (regSpec conf s.entries op).2
         outcome := (regSpec conf s.entries op).1
         expected := (regSpec conf s.entries op).1 }, ?_, rfl, hError⟩
    simp only [eepregSystem, hRun, Option.map_some]

/- A run can be checked call by call. -/
instance decidableAdmitted
    (conf : EepregConf) (es : List RegEntry) (op : RegOp) :
    Decidable (op.Admitted conf es) :=
  match op with
  | .add _ _ => inferInstanceAs (Decidable (_ ∧ _))
  | .write _ _ => inferInstanceAs (Decidable (_ ∧ _ ∧ _))
  | .rm _ => inferInstanceAs (Decidable (_ < _))
  | .read _ => inferInstanceAs (Decidable (_ < _))
  | .len _ => inferInstanceAs (Decidable (_ < _))
  | .free => inferInstanceAs (Decidable True)

instance decidableReadable
    (conf : EepregConf) (es : List RegEntry) (op : RegOp) :
    Decidable (op.Readable conf es) :=
  match op with
  | .rm name =>
    inferInstanceAs
      (Decidable (∀ e ∈ es, e.1 = name → regEndOf conf es + entryLen conf e ≤ conf.eepromSize))
  | .add _ _ => inferInstanceAs (Decidable True)
  | .write _ _ => inferInstanceAs (Decidable True)
  | .read _ => inferInstanceAs (Decidable True)
  | .len _ => inferInstanceAs (Decidable True)
  | .free => inferInstanceAs (Decidable True)

instance decidableEnabled
    (conf : EepregConf) (s : RegRun) (op : RegOp) :
    Decidable ((eepregSystem conf).Enabled s op) :=
  decidableAdmitted conf s.entries op

/- A new registry in an EEPROM of 32 bytes. -/
def smallStart : RegRun where
  mem := ((⟨fun _ => 0⟩ : ByteMem).write 0 eepregMagic).write 7 [8]
  entries := []
  outcome := ⟨.ok, none⟩
  expected := ⟨.ok, none⟩

theorem smallStart_start :
    (eepregSystem smallConf).Start smallStart :=
  ⟨rfl, rfl, ⟨fun _ => 0⟩, rfl⟩

/- Two entries are added, and the first one is removed. -/
theorem refinesMap_smallConf :
    ∃ s, s.entries = [([98], 2)] ∧ RefinesMap smallConf s := by
  have hRun :
      ((eepregSystem smallConf).runVia
          (fun s op => op.Readable smallConf s.entries) smallStart
          [.add [97] 1, .write [98] 2, .rm [97]]).any
        (fun s => decide (s.entries = [([98], 2)])) = true := by
    decide
  rcases System.exists_reachableVia_of_runVia smallStart_start hRun with ⟨s, -, hReach, hEntries⟩
  exact ⟨s, hEntries, refinesMap_of_reachable ⟨by decide, by decide⟩ (by decide) hReach⟩

/- An EEPROM that is full with the head of a registry. -/
def tinyConf : EepregConf :=
  { smallConf with eepromSize := 8 }

/-
  A removal of a long name reads past the end, so the
  assertion of the driver fails.  In an EEPROM without room
  for a registry, the free space is not the gap.
-/
theorem not_refinesMap_smallConf :
    (∃ s, (eepregSystem smallConf).ReachableVia (fun _ _ => True) s ∧
      (RegOp.rm (List.replicate 21 97)).Admitted smallConf s.entries ∧
      (eepregSystem smallConf).exec s (.rm (List.replicate 21 97)) = none) ∧ ∃ mem,
      (eepregReset tinyConf ⟨fun _ => 0⟩) = some (.ok, mem) ∧
      eepregFree tinyConf mem = some (.ok, some (2 ^ 32 - 1)) := by
  refine ⟨?_, _, rfl, rfl⟩
  have hRun :
      ((eepregSystem smallConf).runVia
          (fun _ _ => True) smallStart
          [.add (List.replicate 21 97) 0]).any
        (fun s =>
          decide
            (s.entries = [(List.replicate 21 97, 0)] ∧
              (runOp smallConf s.mem (.rm (List.replicate 21 97))).isNone)) = true := by
    decide
  rcases
    System.exists_reachableVia_of_runVia smallStart_start hRun
    with ⟨s, -, hReach, hEntries, hNone⟩
  have hLen : (List.replicate 21 (97 : UInt8)).length < 250 := by
    decide
  refine ⟨s, hReach, hLen, ?_⟩
  simp only [eepregSystem, Option.isNone_iff_eq_none.mp hNone, Option.map_none]

end Riot
