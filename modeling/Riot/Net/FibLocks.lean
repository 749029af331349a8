import Riot.Net.FibSr

/-
  The mutex of a table after each operation.

  Every path through an operation ends with the unlocking of the
  mutex, but for one: the deletion of a hop whose address is not
  on the path of the source route.
-/

----
-- Operations
----

namespace Riot

variable {size pool : Nat}

inductive FibOp (size pool : Nat) where
  | addEntry
      (ifaceId : Nat)
      (dst : Option (List UInt8))
      (dstFlags : Nat)
      (nextHop : Option (List UInt8))
      (nextHopFlags lifetime : Nat)
  | updateEntry
      (dst nextHop : Option (List UInt8))
      (nextHopFlags lifetime : Nat)
  | removeEntry
      (dst : List UInt8)
  | flush
      (interface : Nat)
  | getNextHop
      (outputs nextHopGiven : Bool)
      (nextHopSize : Nat)
      (dst : Option (List UInt8))
  | getDestinationSet
      (bytes : List UInt8)
      (dstSetGiven : Bool)
      (dstSetSize : Nat)
  | init
  | deinit
  | registerRp
      (bytes : Option (List UInt8))
  | getNumUsedEntries
  | srCreate
      (fibSrGiven : Bool)
      (srIfaceId srFlags srLifetime : Nat)
  | srReadHead
      (fibSr : SrPtr size)
      (outputs : Bool)
  | srReadDestination
      (fibSr : SrPtr size)
      (outputs : Bool)
      (dstSize : Nat)
  | srSet
      (fibSr : SrPtr size)
      (srIfaceId srFlags srLifetime : Option Nat)
  | srDelete
      (fibSr : SrPtr size)
  | srNext
      (fibSr : SrPtr size)
      (srPathEntry : Option (HopPtr pool))
  | srSearch
      (fibSr : SrPtr size)
      (addr : Option (List UInt8))
      (srPathEntryGiven : Bool)
  | srEntryAppend
      (fibSr : SrPtr size)
      (addr : Option (List UInt8))
  | srEntryAdd
      (fibSr : SrPtr size)
      (srPathEntry : HopPtr pool)
      (addr : Option (List UInt8))
      (keepRemainingRoute : Bool)
  | srEntryDelete
      (fibSr : SrPtr size)
      (addr : List UInt8)
      (keepRemainingRoute : Bool)
  | srEntryOverwrite
      (fibSr : SrPtr size)
      (addrOld addrNew : Option (List UInt8))
  | srEntryGetAddress
      (fibSr : SrPtr size)
      (srEntry : HopPtr pool)
      (addrSize : Nat)
  | srGetRoute
      (dst : Option (List UInt8))
      (outputs : Bool)
      (srFlags addrListElements elementSize : Nat)
      (reverse : Bool)
      (fibSr : Option (SrPtr size))

/- Run a computation for its effect on the table. -/
def effect
    {α : Type}
    (m : FibM size pool α) : FibM size pool Unit := do
  let _ ← m
  return ()

def FibOp.run : FibOp size pool → FibM size pool Unit
| .addEntry ifaceId dst dstFlags nextHop nextHopFlags
    lifetime =>
    effect (fibAddEntry ifaceId dst dstFlags nextHop nextHopFlags lifetime)
| .updateEntry dst nextHop nextHopFlags lifetime =>
  effect (fibUpdateEntry dst nextHop nextHopFlags lifetime)
| .removeEntry dst => fibRemoveEntry dst
| .flush interface => fibFlush interface
| .getNextHop outputs nextHopGiven nextHopSize dst =>
  effect (fibGetNextHop outputs nextHopGiven nextHopSize dst)
| .getDestinationSet bytes dstSetGiven dstSetSize =>
  effect (fibGetDestinationSet bytes dstSetGiven dstSetSize)
| .init => fibInit
| .deinit => fibDeinit
| .registerRp bytes => effect (fibRegisterRp bytes)
| .getNumUsedEntries => effect fibGetNumUsedEntries
| .srCreate fibSrGiven srIfaceId srFlags srLifetime =>
  effect (fibSrCreate fibSrGiven srIfaceId srFlags srLifetime)
| .srReadHead fibSr outputs => effect (fibSrReadHead fibSr outputs)
| .srReadDestination fibSr outputs dstSize =>
  effect (fibSrReadDestination fibSr outputs dstSize)
| .srSet fibSr srIfaceId srFlags srLifetime =>
  effect (fibSrSet fibSr srIfaceId srFlags srLifetime)
| .srDelete fibSr => effect (fibSrDelete fibSr)
| .srNext fibSr srPathEntry => effect (fibSrNext fibSr srPathEntry)
| .srSearch fibSr addr srPathEntryGiven => effect (fibSrSearch fibSr addr srPathEntryGiven)
| .srEntryAppend fibSr addr => effect (fibSrEntryAppend fibSr addr)
| .srEntryAdd fibSr srPathEntry addr keepRemainingRoute =>
  effect (fibSrEntryAdd fibSr srPathEntry addr keepRemainingRoute)
| .srEntryDelete fibSr addr keepRemainingRoute =>
  effect (fibSrEntryDelete fibSr addr keepRemainingRoute)
| .srEntryOverwrite fibSr addrOld addrNew =>
  effect (fibSrEntryOverwrite fibSr addrOld addrNew)
| .srEntryGetAddress fibSr srEntry addrSize =>
  effect (fibSrEntryGetAddress fibSr srEntry addrSize)
| .srGetRoute dst outputs srFlags addrListElements elementSize
    reverse fibSr =>
    effect (fibSrGetRoute dst outputs srFlags addrListElements elementSize reverse fibSr)

----
-- Unlocking
----

def FibTable.Unlocked
    (s : FibTable size pool) : Prop :=
  s.mtxAccess = false

theorem ensures_fibUnlock :
    Ensures FibTable.Unlocked (fibUnlock : FibM size pool Unit) := by
  intro s a s' hRun
  cases hRun
  rfl

/- The end of almost every path. -/
theorem ensures_unlock_return
    {α : Type} (a : α) :
    Ensures FibTable.Unlocked (fibUnlock >>= fun _ =>
        (pure a : FibM size pool α)) :=
  ensures_fibUnlock.seq (fun _ => .pure a)

theorem ensures_effect
    {α : Type} {m : FibM size pool α} (hRun : Ensures FibTable.Unlocked m) :
    Ensures FibTable.Unlocked (effect m) :=
  hRun.seq (fun _ => .pure ())

theorem ensures_fibAddEntry
    (ifaceId : Nat) (dst : Option (List UInt8)) (dstFlags : Nat) (nextHop : Option (List UInt8))
    (nextHopFlags lifetime : Nat) :
    Ensures FibTable.Unlocked
      (fibAddEntry ifaceId dst dstFlags nextHop nextHopFlags lifetime : FibM size pool FibRet) := by
  refine .bind fun _ => ?_
  split
  · refine .bind fun ⟨_, _⟩ => .ite ?_ ?_
    · exact .bind fun _ => ensures_unlock_return _
    · exact .bind fun _ => ensures_unlock_return _
  · exact ensures_unlock_return _

theorem ensures_fibUpdateEntry
    (dst nextHop : Option (List UInt8)) (nextHopFlags lifetime : Nat) :
    Ensures FibTable.Unlocked
      (fibUpdateEntry dst nextHop nextHopFlags lifetime : FibM size pool FibRet) := by
  refine .bind fun _ => ?_
  split
  · refine .bind fun ⟨_, _⟩ => .ite ?_ ?_
    · exact .bind fun _ => ensures_unlock_return _
    · exact .bind fun _ => ensures_unlock_return _
  · exact ensures_unlock_return _

theorem ensures_fibRemoveEntry
    (dst : List UInt8) :
    Ensures FibTable.Unlocked (fibRemoveEntry dst : FibM size pool Unit) := by
  refine .bind fun _ => .bind fun _ => .ite ?_ ?_
  · exact .bind fun _ => .bind fun _ => ensures_fibUnlock
  · exact ensures_fibUnlock

theorem ensures_fibNextHopOf
    (nextHopSize : Nat) (found : FibRet × Option Nat) :
    Ensures FibTable.Unlocked (fibNextHopOf nextHopSize found : FibM size pool _) := by
  refine .ite ?_ ?_
  · refine .bind fun ⟨_, _⟩ => .bind fun _ => ?_
    split
    · exact ensures_unlock_return _
    · exact ensures_unlock_return _
  · exact ensures_unlock_return _

theorem ensures_fibGetNextHop
    (outputs nextHopGiven : Bool) (nextHopSize : Nat) (dst : Option (List UInt8)) :
    Ensures FibTable.Unlocked (fibGetNextHop outputs nextHopGiven nextHopSize dst :
        FibM size pool (FibRet × Option FibHop)) := by
  refine .bind fun _ => .ite (ensures_unlock_return _) ?_
  split
  · refine .bind fun _ => .ite (.bind fun _ => .ite ?_ ?_) ?_
    · exact .bind fun _ => ensures_fibNextHopOf _ _
    · exact ensures_fibNextHopOf _ _
    · exact ensures_fibNextHopOf _ _
  · exact ensures_unlock_return _

theorem ensures_fibGetDestinationSet
    (bytes : List UInt8) (dstSetGiven : Bool) (dstSetSize : Nat) :
    Ensures FibTable.Unlocked
      (fibGetDestinationSet bytes dstSetGiven dstSetSize : FibM size pool _) :=
  .bind fun _ => .bind fun _ => .bind fun _ =>
    ensures_unlock_return _

theorem ensures_fibInit :
    Ensures FibTable.Unlocked (fibInit : FibM size pool Unit) :=
  .bind fun _ => .bind fun _ => .bind fun _ => .bind fun _ =>
    ensures_fibUnlock

theorem ensures_fibDeinit :
    Ensures FibTable.Unlocked (fibDeinit : FibM size pool Unit) :=
  .bind fun _ => .bind fun _ => .bind fun _ =>
    ensures_fibUnlock

theorem ensures_fibRegisterRp
    (bytes : Option (List UInt8)) :
    Ensures FibTable.Unlocked (fibRegisterRp bytes : FibM size pool FibRet) := by
  refine .bind fun _ => .bind fun _ =>
    .ite (ensures_unlock_return _) ?_
  split
  · exact ensures_unlock_return _
  · exact .ite (ensures_unlock_return _) (.bind fun _ => .bind fun _ => ensures_unlock_return _)

----
-- Unlocking by Source Routes
----

theorem ensures_fibSrCreate
    (fibSrGiven : Bool) (srIfaceId srFlags srLifetime : Nat) :
    Ensures FibTable.Unlocked
      (fibSrCreate fibSrGiven srIfaceId srFlags srLifetime : FibM size pool _) := by
  refine .bind fun _ => .ite (ensures_unlock_return _) ?_
  refine .bind fun found => ?_
  split
  · exact ensures_unlock_return _
  · exact ensures_unlock_return _

section

variable (fibSr : SrPtr size)

include fibSr

theorem ensures_fibSrReadHead
    (outputs : Bool) :
    Ensures FibTable.Unlocked (fibSrReadHead fibSr outputs : FibM size pool _) := by
  refine .bind fun _ => ?_
  split
  · refine .bind fun _ => .ite (ensures_unlock_return _) ?_
    exact .bind fun _ => .bind fun _ => ensures_unlock_return _
  · exact ensures_unlock_return _

theorem ensures_fibSrReadDestination
    (outputs : Bool) (dstSize : Nat) :
    Ensures FibTable.Unlocked (fibSrReadDestination fibSr outputs dstSize : FibM size pool _) := by
  refine .bind fun _ => ?_
  split
  · refine .bind fun _ => .ite (ensures_unlock_return _) ?_
    refine .bind fun _ => ?_
    split
    · exact ensures_unlock_return _
    · refine .bind fun _ => ?_
      split
      · exact ensures_unlock_return _
      · exact ensures_unlock_return _
  · exact ensures_unlock_return _

theorem ensures_fibSrSet
    (srIfaceId srFlags srLifetime : Option Nat) :
    Ensures FibTable.Unlocked (fibSrSet fibSr srIfaceId srFlags srLifetime : FibM size pool _) := by
  refine .bind fun _ => ?_
  split
  · exact ensures_unlock_return _
  · refine .bind fun _ => .ite (ensures_unlock_return _) ?_
    refine .bind fun _ => ?_
    cases srLifetime with
    | none =>
      exact .bind fun _ => .bind fun _ =>
        ensures_unlock_return _
    | some ms =>
      exact .bind fun _ => .bind fun _ =>
        ensures_unlock_return _

theorem ensures_fibSrDelete :
    Ensures FibTable.Unlocked (fibSrDelete fibSr : FibM size pool _) := by
  refine .bind fun _ => ?_
  split
  · exact ensures_unlock_return _
  · exact .bind fun _ => .bind fun _ => .bind fun _ =>
      .bind fun _ => ensures_unlock_return _

theorem ensures_fibSrNext
    (srPathEntry : Option (HopPtr pool)) :
    Ensures FibTable.Unlocked (fibSrNext fibSr srPathEntry) := by
  refine .bind fun _ => ?_
  split
  · refine .bind fun _ => .ite (ensures_unlock_return _) ?_
    refine .bind fun _ => .ite (ensures_unlock_return _) ?_
    split
    · exact .ite (ensures_unlock_return _) (ensures_unlock_return _)
    · intro s a s' hRun
      cases hRun
    · exact .ite (ensures_unlock_return _) (ensures_unlock_return _)
  · exact ensures_unlock_return _

theorem ensures_fibSrSearch
    (addr : Option (List UInt8)) (srPathEntryGiven : Bool) :
    Ensures FibTable.Unlocked (fibSrSearch fibSr addr srPathEntryGiven : FibM size pool _) := by
  refine .bind fun _ => ?_
  split
  · refine .bind fun _ => .ite (ensures_unlock_return _) ?_
    refine .bind fun _ => ?_
    split
    · exact ensures_unlock_return _
    · exact ensures_unlock_return _
  · exact ensures_unlock_return _

theorem ensures_fibSrEntryAppend
    (addr : Option (List UInt8)) :
    Ensures FibTable.Unlocked (fibSrEntryAppend fibSr addr : FibM size pool _) := by
  refine .bind fun _ => ?_
  split
  · refine .bind fun _ => .ite (ensures_unlock_return _) ?_
    refine .bind fun _ => .ite (ensures_unlock_return _) ?_
    refine .bind fun _ => ?_
    split
    · exact ensures_unlock_return _
    · refine .bind fun _ => ?_
      split
      · exact .bind fun _ => .bind fun _ =>
          ensures_unlock_return _
      · exact .bind fun _ => .bind fun _ =>
          ensures_unlock_return _
  · exact ensures_unlock_return _

theorem ensures_fibSrEntryAdd
    (srPathEntry : HopPtr pool) (addr : Option (List UInt8)) (keepRemainingRoute : Bool) :
    Ensures FibTable.Unlocked (fibSrEntryAdd fibSr srPathEntry addr keepRemainingRoute) := by
  refine .bind fun _ => ?_
  split
  · refine .ite (ensures_unlock_return _) ?_
    refine .bind fun _ => .ite (ensures_unlock_return _) ?_
    refine .bind fun _ => .bind fun _ => ?_
    split
    · exact ensures_unlock_return _
    · exact ensures_unlock_return _
    · refine .bind fun _ => ?_
      split
      · exact ensures_unlock_return _
      · exact .bind fun _ => ensures_unlock_return _
  · exact ensures_unlock_return _

theorem ensures_fibSrEntryOverwrite
    (addrOld addrNew : Option (List UInt8)) :
    Ensures FibTable.Unlocked (fibSrEntryOverwrite fibSr addrOld addrNew : FibM size pool _) := by
  refine .bind fun _ => ?_
  split
  · refine .bind fun _ => .ite (ensures_unlock_return _) ?_
    refine .bind fun _ => .bind fun _ => ?_
    split
    · exact ensures_unlock_return _
    · exact ensures_unlock_return _
    · refine .bind fun _ => .bind fun _ => .bind fun _ =>
        .ite ?_ ?_
      · exact .bind fun _ => ensures_unlock_return _
      · exact .bind fun _ => ensures_unlock_return _
  · exact ensures_unlock_return _

theorem ensures_fibSrEntryGetAddress
    (srEntry : HopPtr pool) (addrSize : Nat) :
    Ensures FibTable.Unlocked (fibSrEntryGetAddress fibSr srEntry addrSize) := by
  refine .bind fun _ => ?_
  split
  · exact ensures_unlock_return _
  · refine .bind fun _ => .ite (ensures_unlock_return _) ?_
    refine .bind fun _ => .bind fun _ => ?_
    split
    · exact ensures_unlock_return _
    · refine .bind fun _ => ?_
      split
      · exact ensures_unlock_return _
      · exact ensures_unlock_return _

end

theorem ensures_fibSrRouteOf
    (dst : List UInt8) (addrListElements elementSize : Nat) (reverse : Bool)
    (tmpHit : Option (Fin size)) (p : SrPartial size) :
    Ensures FibTable.Unlocked
      (fibSrRouteOf dst addrListElements elementSize reverse tmpHit p : FibM size pool _) := by
  refine .ite ?_ ?_
  · exact .bind fun _ => ensures_unlock_return _
  · split
    · exact .bind fun _ => ensures_unlock_return _
    · refine .bind fun ⟨_, _⟩ => ensures_fibUnlock.seq ?_
      intro _
      split
      · exact .pure _
      · split
        · exact .pure _
        · exact .pure _

theorem ensures_fibSrGetRoute
    (dst : Option (List UInt8)) (outputs : Bool) (srFlags addrListElements elementSize : Nat)
    (reverse : Bool) (fibSr : Option (SrPtr size)) :
    Ensures FibTable.Unlocked (fibSrGetRoute dst outputs srFlags addrListElements
        elementSize reverse fibSr : FibM size pool _) := by
  refine .bind fun _ => ?_
  split
  · refine .bind fun _ => .ite ?_ ?_
    · exact .bind fun _ => ensures_fibSrRouteOf _ _ _ _ _ _
    · exact ensures_fibSrRouteOf _ _ _ _ _ _
  · exact ensures_unlock_return _

----
-- Deleting a Hop
----

/- The comparison finds the address of a hop equal. -/
def HasAddress
    (s : FibTable size pool) (e : Fin pool) (addr : List UInt8) : Prop :=
  ∃ c, (s.address e).bind (fun k => s.ua.containers[k]?) = some c ∧
      (universalAddressCompare c addr (addr.length * 8)).1 = .equal

/- The path of a source route comes by a hop. -/
def OnPath
    (s : FibTable size pool) (i : Fin size) (e : Fin pool) : Prop :=
  ∃ l, s.links.Seg (s.links (.head i)) l (.ref e)

section

variable {s s' : FibTable size pool} {addr : List UInt8} {i : Fin size}

theorem fibLock_spec
    (hRun : fibLock s = some ((), s')) :
    s.mtxAccess = false ∧ s' = { s with mtxAccess := true } := by
  cases hLocked : s.mtxAccess with
  | true =>
    simp [fibLock, hLocked, bind, StateT.bind, get, getThe, MonadStateOf.get, StateT.get, failure,
      StateT.failure] at hRun
  | false =>
    simp [fibLock, hLocked, bind, StateT.bind, get, getThe, MonadStateOf.get, StateT.get, modify,
      modifyGet, MonadStateOf.modifyGet, StateT.modifyGet] at hRun
    exact ⟨rfl, hRun.symm⟩

theorem uaContainer_spec
    {entry : Option Nat} {c : UaContainer}
    (hRun : uaContainer entry s = some (c, s')) :
    s' = s ∧ entry.bind (fun k => s.ua.containers[k]?) = some c := by
  rcases bind_eq_some.mp hRun with ⟨_, t, hGet, hRest⟩
  cases hGet
  cases hSome : entry.bind (fun k => s.ua.containers[k]?) with
  | none =>
    simp only [hSome] at hRest
    cases hRest
  | some c' =>
    simp only [hSome] at hRest
    cases hRest
    exact ⟨rfl, rfl⟩

theorem uaCompare_spec
    {entry : Option Nat} {n : Nat} {res : UaMatch × Nat}
    (hRun : uaCompare entry addr n s = some (res, s')) :
    s' = s ∧ ∃ c, entry.bind (fun k => s.ua.containers[k]?) = some c ∧
        res = universalAddressCompare c addr n := by
  rcases bind_eq_some.mp hRun with ⟨c, t, hRead, hRest⟩
  rcases uaContainer_spec hRead with ⟨rfl, hSome⟩
  cases hRest
  exact ⟨rfl, c, hSome, rfl⟩

/- The walk finds a hop with the address if there is one. -/
theorem srFindLoop_spec
    {fuel : Nat} {tmp p : Link (Fin pool)} {res : Option (Link (Fin pool) × Fin pool)}
    (hRun : srFindLoop addr fuel tmp p s = some (res, s')) :
    s' = s ∧ (res ≠ none ↔ ∃ l e, s.links.Seg p l (.ref e) ∧ HasAddress s e addr) := by
  induction fuel generalizing tmp p with
  | zero => cases hRun
  | succ fuel ih =>
    cases p with
    | null =>
      cases hRun
      refine ⟨rfl, ?_⟩
      constructor
      · intro hNe
        exact absurd rfl hNe
      · rintro ⟨l, e, hSeg, _⟩
        cases l with
        | nil => cases hSeg
        | cons x l => cases hSeg.1
    | mark => cases hRun
    | ref x =>
      rcases bind_eq_some.mp hRun with ⟨_, _, hGet, hRest⟩
      cases hGet
      rcases bind_eq_some.mp hRest with ⟨⟨ret, n⟩, t, hComp, hEnd⟩
      rcases uaCompare_spec hComp with ⟨rfl, c, hc, hRes⟩
      have hHas : ret = .equal ↔ HasAddress t x addr := by
        constructor
        · rintro rfl
          exact ⟨c, hc, by rw [← hRes]⟩
        · rintro ⟨c', hc', hEqual⟩
          rw [hc] at hc'
          cases hc'
          rw [← hEqual, ← hRes]
      dsimp only at hEnd
      split at hEnd
      · rename_i hEqual
        cases hEnd
        refine ⟨rfl, ?_⟩
        constructor
        · intro _
          exact ⟨[], x, rfl, hHas.mp hEqual⟩
        · intro _ hNone
          cases hNone
      · rename_i hNot
        rcases ih hEnd with ⟨rfl, hIff⟩
        refine ⟨rfl, hIff.trans ?_⟩
        constructor
        · rintro ⟨l, e, hSeg, hAddr⟩
          exact ⟨x :: l, e, ⟨rfl, hSeg⟩, hAddr⟩
        · rintro ⟨l, e, hSeg, hAddr⟩
          cases l with
          | nil =>
            cases hSeg
            exact absurd (hHas.mpr hAddr) hNot
          | cons y l =>
            rcases hSeg with ⟨hy, hSeg⟩
            cases hy
            exact ⟨l, e, hSeg, hAddr⟩

/- A source route that did not expire is left as it is. -/
theorem fibSrCheckLifetime_spec
    {expired : Bool} (hRun : fibSrCheckLifetime i s = some (expired, s')) :
    expired = lifetimeExpired (s.headers i).lifetime (s.clock s.reads) ∧
      (expired = false → s' = { s with reads := s.reads + 1 }) := by
  rcases bind_eq_some.mp hRun with ⟨now, t, hNow, hRest⟩
  cases hNow
  rcases bind_eq_some.mp hRest with ⟨_, _, hGet, hEnd⟩
  cases hGet
  dsimp only at hEnd
  split at hEnd
  · rename_i hExpired
    rcases bind_eq_some.mp hEnd with ⟨_, _, _, hEnd⟩
    rcases bind_eq_some.mp hEnd with ⟨_, _, _, hEnd⟩
    rcases bind_eq_some.mp hEnd with ⟨_, _, _, hEnd⟩
    cases hEnd
    exact ⟨hExpired.symm, fun hFalse => by cases hFalse⟩
  · rename_i hExpired
    cases hEnd
    exact ⟨(Bool.eq_false_of_not_eq_true hExpired).symm, fun _ => rfl⟩

/- The deletion unlocks the mutex if it finds the address. -/
theorem fibSrEntryDelete_unlocked_iff
    {keep : Bool} {ret : FibRet}
    (hRun : fibSrEntryDelete (.header i) addr keep s = some (ret, s')) :
    s'.Unlocked ↔ ¬ (lifetimeExpired (s.headers i).lifetime
            (s.clock s.reads) = false ∧ ∀ e, OnPath s i e → ¬ HasAddress s e addr) := by
  rcases bind_eq_some.mp hRun with ⟨_, t, hLock, hRest⟩
  rcases fibLock_spec hLock with ⟨_, rfl⟩
  rcases bind_eq_some.mp hRest with ⟨expired, t, hCheck, hEnd⟩
  rcases fibSrCheckLifetime_spec hCheck with ⟨hExp, hSame⟩
  cases expired with
  | true =>
    have hFree : s'.Unlocked := ensures_unlock_return _ _ _ _ hEnd
    refine ⟨fun _ => ?_, fun _ => hFree⟩
    rintro ⟨hNot, _⟩
    rw [hNot] at hExp
    cases hExp
  | false =>
    cases hSame rfl
    rcases bind_eq_some.mp hEnd with ⟨found, t, hFind, hEnd⟩
    rcases bind_eq_some.mp hFind with ⟨_, _, hGet, hWalk⟩
    cases hGet
    rcases srFindLoop_spec hWalk with ⟨rfl, hIff⟩
    cases found with
    | none =>
      cases hEnd
      refine ⟨fun hFree => ?_, fun hNot => ?_⟩
      · cases hFree
      · exfalso
        apply hNot
        refine ⟨hExp.symm, ?_⟩
        rintro e ⟨l, hSeg⟩ hAddr
        exact hIff.mpr ⟨l, e, hSeg, hAddr⟩ rfl
    | some found =>
      have hFree : s'.Unlocked := (Ensures.bind fun _ => ensures_unlock_return _) _ _ _ hEnd
      refine ⟨fun _ => ?_, fun _ => hFree⟩
      rintro ⟨_, hMiss⟩
      rcases hIff.mp (fun hNone => by cases hNone) with ⟨l, e, hSeg, hAddr⟩
      exact hMiss e ⟨l, hSeg⟩ hAddr

end

----
-- All Operations
----

/-
  An unexpired source route of the table is to lose a hop with
  an address that no hop on its path has.
-/
def FibOp.MissesAddress
    (s : FibTable size pool) : FibOp size pool → Prop
| .srEntryDelete (.header i) addr _ =>
  lifetimeExpired (s.headers i).lifetime
      (s.clock s.reads) = false ∧ ∀ e, OnPath s i e → ¬ HasAddress s e addr
| _ => False

/- A pointer that is not into the table is refused. -/
theorem fibSrEntryDelete_refused
    {fibSr : SrPtr size} (addr : List UInt8) (keep : Bool)
    (hNot : fibIsSrInTable fibSr = none) :
    Ensures FibTable.Unlocked (fibSrEntryDelete fibSr addr keep : FibM size pool _) := by
  refine .bind fun _ => ?_
  rw [hNot]
  exact ensures_unlock_return _

theorem FibOp.ensures_unlocked
    (op : FibOp size pool)
    (hNot : ∀ i addr keep, op ≠ .srEntryDelete (.header i) addr keep) :
    Ensures FibTable.Unlocked op.run := by
  cases op with
  | addEntry => exact ensures_effect (ensures_fibAddEntry _ _ _ _ _ _)
  | updateEntry => exact ensures_effect (ensures_fibUpdateEntry _ _ _ _)
  | removeEntry => exact ensures_fibRemoveEntry _
  | flush =>
    exact .bind fun _ => .bind fun _ => .bind fun _ =>
      ensures_fibUnlock
  | getNextHop => exact ensures_effect (ensures_fibGetNextHop _ _ _ _)
  | getDestinationSet => exact ensures_effect (ensures_fibGetDestinationSet _ _ _)
  | init => exact ensures_fibInit
  | deinit => exact ensures_fibDeinit
  | registerRp => exact ensures_effect (ensures_fibRegisterRp _)
  | getNumUsedEntries =>
    exact ensures_effect (.bind fun _ => .bind fun _ =>
      ensures_unlock_return _)
  | srCreate => exact ensures_effect (ensures_fibSrCreate _ _ _ _)
  | srReadHead => exact ensures_effect (ensures_fibSrReadHead _ _)
  | srReadDestination => exact ensures_effect (ensures_fibSrReadDestination _ _ _)
  | srSet => exact ensures_effect (ensures_fibSrSet _ _ _ _)
  | srDelete => exact ensures_effect (ensures_fibSrDelete _)
  | srNext => exact ensures_effect (ensures_fibSrNext _ _)
  | srSearch => exact ensures_effect (ensures_fibSrSearch _ _ _)
  | srEntryAppend => exact ensures_effect (ensures_fibSrEntryAppend _ _)
  | srEntryAdd => exact ensures_effect (ensures_fibSrEntryAdd _ _ _ _)
  | srEntryDelete fibSr addr keep =>
    refine ensures_effect (fibSrEntryDelete_refused addr keep ?_)
    cases fibSr with
    | header i => exact absurd rfl (hNot i addr keep)
    | _ => rfl
  | srEntryOverwrite => exact ensures_effect (ensures_fibSrEntryOverwrite _ _ _)
  | srEntryGetAddress => exact ensures_effect (ensures_fibSrEntryGetAddress _ _ _)
  | srGetRoute => exact ensures_effect (ensures_fibSrGetRoute _ _ _ _ _ _ _)

/-
  An operation that returns leaves the mutex unlocked, unless it
  is to delete a hop that it does not find.
-/
theorem fibUnlocked_iff
    {op : FibOp size pool} {s s' : FibTable size pool}
    (hRun : op.run s = some ((), s')) :
    s'.mtxAccess = false ↔ ¬ op.MissesAddress s := by
  by_cases hDelete : ∃ i addr keep, op = .srEntryDelete (.header i) addr keep
  · rcases hDelete with ⟨i, addr, keep, rfl⟩
    rcases bind_eq_some.mp hRun with ⟨ret, t, hBody, hEnd⟩
    cases hEnd
    exact fibSrEntryDelete_unlocked_iff hBody
  · have hNot :
        ∀ i addr keep, op ≠ .srEntryDelete (.header i) addr keep :=
      fun i addr keep hEq => hDelete ⟨i, addr, keep, hEq⟩
    have hFree : s'.Unlocked := op.ensures_unlocked hNot s () s' hRun
    refine ⟨fun _ => ?_, fun _ => hFree⟩
    intro hMiss
    unfold FibOp.MissesAddress at hMiss
    split at hMiss
    · exact hNot _ _ _ rfl
    · exact hMiss

/- A source route with one hop, that has the address 1. -/
def oneHopTable : FibTable 1 1 where
  mtxAccess := false
  entries := []
  headers := fun _ => ⟨7, 1000, 0⟩
  links := fun c =>
    match c with
    | .head _ => .ref 0
    | .entry _ => .null
  srDest := fun _ => some 0
  address := fun _ => some 0
  prefixRp := []
  ua := ⟨[⟨1, [1]⟩], 1⟩
  clock := fun _ => 10
  reads := 0

theorem fibUnlocked_found :
    ∃ s',
      (FibOp.srEntryDelete (.header 0) [1] false).run
          oneHopTable = some ((), s') ∧ s'.mtxAccess = false := by
  have hSome : ((FibOp.srEntryDelete (.header 0) [1] false).run oneHopTable).isSome = true := by
    decide +kernel
  rcases Option.isSome_iff_exists.mp hSome with ⟨⟨⟨⟩, s'⟩, hRun⟩
  refine ⟨s', hRun, (fibUnlocked_iff hRun).mpr ?_⟩
  rintro ⟨_, hMiss⟩
  exact hMiss 0 ⟨[], rfl⟩ ⟨⟨1, [1]⟩, rfl, by decide⟩

/- No hop has the address 2, and the mutex stays locked. -/
theorem not_fibUnlocked_missing :
    ¬ ∀ (op : FibOp 1 1) (s s' : FibTable 1 1),
      op.run s = some ((), s') → s'.mtxAccess = false := by
  intro hAll
  have hLocked :
      ((FibOp.srEntryDelete (.header 0) [2] false).run
        oneHopTable).any (fun x => x.2.mtxAccess) = true := by
    decide +kernel
  rcases (Option.any_eq_true _ _).mp hLocked with ⟨⟨⟨⟩, s'⟩, hRun, hTrue⟩
  rw [hAll _ _ s' hRun] at hTrue
  cases hTrue

end Riot
