import Riot.Net.Fib

/-
  The source routes of `fib.c`.

  The path of a source route is a list of hops from a pool. A
  walk along a path that comes to no end does not return.
-/

----
-- Pointers
----

namespace Riot

/- A pointer to a source route, of this table or not. -/
inductive SrPtr (size : Nat) where
  | null
  | foreign
  | header
      (i : Fin size)
deriving DecidableEq, Repr

/- A pointer to a hop, of the pool of this table or not. -/
inductive HopPtr (pool : Nat) where
  | null
  | foreign
  | hop
      (e : Fin pool)
deriving DecidableEq, Repr

variable {size pool : Nat}

/- The source route, if it is one of the table. -/
def fibIsSrInTable : SrPtr size → Option (Fin size)
| .header i => some i
| _ => none

def fibSetHeader
    (i : Fin size)
    (h : FibSr) : FibM size pool Unit :=
  modify (fun s =>
    { s with headers := Function.update s.headers i h })

def fibSetLink
    (c : Cell (Fin size) (Fin pool)) (v : Link (Fin pool)) : FibM size pool Unit :=
  modify (fun s => { s with links := s.links.set c v })

def fibSetDest
    (i : Fin size) (e : Option (Fin pool)) : FibM size pool Unit :=
  modify (fun s =>
    { s with srDest := Function.update s.srDest i e })

def fibSetAddress
    (e : Fin pool) (entry : Option Nat) : FibM size pool Unit :=
  modify (fun s =>
    { s with address := Function.update s.address e entry })

def hopLink : Option (Fin pool) → Link (Fin pool)
| some e => .ref e
| none => .null

----
-- Walks
----

/- Leave the address of each hop, but keep the pointers. -/
def srRemLoop :
    Nat → Link (Fin pool) → FibM size pool Unit
| 0, _ => failure
| _ + 1, .null => return
| _ + 1, .mark => failure
| fuel + 1, .ref e => do
    let s ← get
    uaRem (s.address e)
    srRemLoop fuel (s.links (.entry e))

/- Return each hop to the pool. -/
def srClearLoop :
    Nat → Link (Fin pool) → FibM size pool Unit
| 0, _ => failure
| _ + 1, .null => return
| _ + 1, .mark => failure
| fuel + 1, .ref e => do
    let s ← get
    uaRem (s.address e)
    fibSetAddress e none
    srClearLoop fuel (s.links (.entry e))

/-
  The first hop with an address, and the one before it. The
  walk starts with `tmp` for the hop before.
-/
def srFindLoop
    (addr : List UInt8) :
    Nat → Link (Fin pool) → Link (Fin pool) → FibM size pool (Option (Link (Fin pool) × Fin pool))
| 0, _, _ => failure
| _ + 1, _, .null => return none
| _ + 1, _, .mark => failure
| fuel + 1, tmp, .ref e => do
    let s ← get
    let (retComp, _) ← uaCompare (s.address e) addr (addr.length * 8)
    if retComp = .equal then
      return some (tmp, e)
    else
      srFindLoop addr fuel (.ref e) (s.links (.entry e))

def srFind
    (i : Fin size) (addr : List UInt8) :
    FibM size pool (Option (Link (Fin pool) × Fin pool)) := do
  let s ← get
  srFindLoop addr (pool + 1) (s.links (.head i)) (s.links (.head i))

----
-- Lifetimes and the Pool
----

def fibSrCreateLoop
    (srIfaceId srFlags srLifetime : Nat) :
    List (Fin size) → FibM size pool (Option (Fin size))
| [] => return none
| i :: rest => do
    let s ← get
    if (s.headers i).lifetime = 0 then
      fibSetLink (.head i) .null
      fibSetDest i none
      let lifetime ←
        if srLifetime < 2 ^ 32 - 1 then
          fibLifetimeToAbsolute srLifetime
        else
          pure fibLifetimeNoExpire
      fibSetHeader i ⟨srIfaceId, lifetime, srFlags⟩
      return some i
    else
      fibSrCreateLoop srIfaceId srFlags srLifetime rest

def fibSrCreate
    (fibSrGiven : Bool) (srIfaceId srFlags srLifetime : Nat) :
    FibM size pool (FibRet × Option (Fin size)) := do
  fibLock
  if fibSrGiven = false ∨ srLifetime = 0 then
    fibUnlock
    return (.efault, none)
  match ← fibSrCreateLoop srIfaceId srFlags srLifetime
      (List.finRange size) with
  | some i =>
    fibUnlock
    return (.ok, some i)
  | none =>
    fibUnlock
    return (.enobufs, none)

/- The difference is taken as a signed number. -/
def lifetimeExpired
    (lifetime now : Nat) : Bool :=
  2 ^ 63 ≤ (lifetime + 2 ^ 64 - now) % 2 ^ 64

/- Whether the source route expired, and was removed. -/
def fibSrCheckLifetime
    (i : Fin size) : FibM size pool Bool := do
  let now ← xtimerNowUsec64
  let s ← get
  if lifetimeExpired (s.headers i).lifetime now = true then
    fibSetHeader i { s.headers i with lifetime := 0 }
    srRemLoop (pool + 1) (s.links (.head i))
    fibSetLink (.head i) .null
    return true
  else
    return false

def fibSrNewEntry
    (addr : List UInt8) :
    FibM size pool (Option (Fin pool)) := do
  let s ← get
  match (List.finRange pool).find?
      (fun e => s.address e = none) with
  | none => return none
  | some e =>
    let entry ← uaAdd addr
    fibSetAddress e entry
    if entry = none then
      return none
    else
      return some e

----
-- Heads
----

def fibSrReadHead
    (fibSr : SrPtr size) (outputs : Bool) :
    FibM size pool (FibRet × Option FibSr) := do
  fibLock
  match fibIsSrInTable fibSr, outputs with
  | some i, true =>
    if (← fibSrCheckLifetime i) = true then
      fibUnlock
      return (.enoent, none)
    let s ← get
    let now ← xtimerNowUsec64
    fibUnlock
    return (.ok, some
      { s.headers i with lifetime := ((s.headers i).lifetime + 2 ^ 64 - now) % 2 ^ 32 })
  | _, _ =>
    fibUnlock
    return (.efault, none)

def fibSrReadDestination
    (fibSr : SrPtr size) (outputs : Bool) (dstSize : Nat) :
    FibM size pool (FibRet × Option (List UInt8)) := do
  fibLock
  match fibIsSrInTable fibSr, outputs with
  | some i, true =>
    if (← fibSrCheckLifetime i) = true then
      fibUnlock
      return (.enoent, none)
    let s ← get
    match s.srDest i with
    | none =>
      fibUnlock
      return (.ehostunreach, none)
    | some e =>
      let c ← uaContainer (s.address e)
      match universalAddressGetAddress c dstSize with
      | none =>
        fibUnlock
        return (.enobufs, none)
      | some addr =>
        fibUnlock
        return (.ok, some addr)
  | _, _ =>
    fibUnlock
    return (.efault, none)

def fibSrSet
    (fibSr : SrPtr size) (srIfaceId srFlags srLifetime : Option Nat) :
    FibM size pool FibRet := do
  fibLock
  match fibIsSrInTable fibSr with
  | none =>
    fibUnlock
    return .efault
  | some i =>
    if (← fibSrCheckLifetime i) = true then
      fibUnlock
      return .enoent
    let s ← get
    let h := s.headers i
    let lifetime ←
      match srLifetime with
      | none => pure h.lifetime
      | some ms => fibLifetimeToAbsolute ms
    fibSetHeader i
      { ifaceId := srIfaceId.getD h.ifaceId
        lifetime := lifetime
        flags := srFlags.getD h.flags }
    fibUnlock
    return .ok

def fibSrDelete
    (fibSr : SrPtr size) : FibM size pool FibRet := do
  fibLock
  match fibIsSrInTable fibSr with
  | none =>
    fibUnlock
    return .efault
  | some i =>
    let s ← get
    fibSetHeader i { s.headers i with lifetime := 0 }
    srClearLoop (pool + 1) (s.links (.head i))
    fibSetLink (.head i) .null
    fibUnlock
    return .ok

----
-- Hops
----

/- Reading the next pointer of a foreign hop is not modelled. -/
def fibSrNext
    (fibSr : SrPtr size) (srPathEntry : Option (HopPtr pool)) :
    FibM size pool (FibRet × Option (Link (Fin pool))) := do
  fibLock
  match fibIsSrInTable fibSr, srPathEntry with
  | some i, some hop =>
    let s ← get
    if s.links (.head i) = .null then
      fibUnlock
      return (.efault, none)
    if (← fibSrCheckLifetime i) = true then
      fibUnlock
      return (.enoent, none)
    match hop with
    | .null =>
      if s.srDest i = none then
        fibUnlock
        return (.one, none)
      fibUnlock
      return (.ok, some (s.links (.head i)))
    | .foreign => failure
    | .hop e =>
      if s.srDest i = some e then
        fibUnlock
        return (.one, none)
      fibUnlock
      return (.ok, some (s.links (.entry e)))
  | _, _ =>
    fibUnlock
    return (.efault, none)

def fibSrSearch
    (fibSr : SrPtr size) (addr : Option (List UInt8)) (srPathEntryGiven : Bool) :
    FibM size pool (FibRet × Option (Fin pool)) := do
  fibLock
  match fibIsSrInTable fibSr, addr, srPathEntryGiven with
  | some i, some addr, true =>
    if (← fibSrCheckLifetime i) = true then
      fibUnlock
      return (.enoent, none)
    match ← srFind i addr with
    | some (_, e) =>
      fibUnlock
      return (.ok, some e)
    | none =>
      fibUnlock
      return (.ehostunreach, none)
  | _, _, _ =>
    fibUnlock
    return (.efault, none)

def fibSrEntryAppend
    (fibSr : SrPtr size) (addr : Option (List UInt8)) :
    FibM size pool FibRet := do
  fibLock
  match fibIsSrInTable fibSr, addr with
  | some i, some addr =>
    if (← fibSrCheckLifetime i) = true then
      fibUnlock
      return .enoent
    if (← srFind i addr) ≠ none then
      fibUnlock
      return .einval
    match ← fibSrNewEntry addr with
    | none =>
      fibUnlock
      return .enomem
    | some e =>
      let s ← get
      match s.srDest i with
      | some tmp => fibSetLink (.entry tmp) (.ref e)
      | none => fibSetLink (.head i) (.ref e)
      fibSetDest i (some e)
      fibUnlock
      return .ok
  | _, _ =>
    fibUnlock
    return .efault

/-
  The search for a hop, that ends early if the new address is
  met before: whether it was met, or else whether the hop was.
-/
def srAddLoop
    (addr : List UInt8) (srPathEntry : HopPtr pool) :
    Nat → Link (Fin pool) → FibM size pool (Option (Option (Fin pool)))
| 0, _ => failure
| _ + 1, .null => return some none
| _ + 1, .mark => failure
| fuel + 1, .ref e => do
    let s ← get
    let (retComp, _) ← uaCompare (s.address e) addr (addr.length * 8)
    if retComp = .equal then
      return none
    else if srPathEntry = .hop e then
      return some (some e)
    else
      srAddLoop addr srPathEntry fuel (s.links (.entry e))

/- The new hop is linked in behind a hop of the path. -/
def srInsert
    (i : Fin size) (e new : Fin pool)
    (keepRemainingRoute : Bool) : FibM size pool Unit := do
  let s ← get
  let remaining := s.links (.entry e)
  fibSetLink (.entry e) (.ref new)
  if keepRemainingRoute = true then
    fibSetLink (.entry new) remaining
  else
    srClearLoop (pool + 1) remaining
    fibSetLink (.entry new) .null
    fibSetDest i (some new)

def fibSrEntryAdd
    (fibSr : SrPtr size) (srPathEntry : HopPtr pool) (addr : Option (List UInt8))
    (keepRemainingRoute : Bool) : FibM size pool FibRet := do
  fibLock
  match fibIsSrInTable fibSr, addr with
  | some i, some addr =>
    if srPathEntry = .null then
      fibUnlock
      return .efault
    if (← fibSrCheckLifetime i) = true then
      fibUnlock
      return .enoent
    let s ← get
    match ← srAddLoop addr srPathEntry (pool + 1)
        (s.links (.head i)) with
    | none =>
      fibUnlock
      return .einval
    | some none =>
      fibUnlock
      return .enoent
    | some (some e) =>
      match ← fibSrNewEntry addr with
      | none =>
        fibUnlock
        return .enomem
      | some new =>
        srInsert i e new keepRemainingRoute
        fibUnlock
        return .ok
  | _, _ =>
    fibUnlock
    return .efault

/- A hop is taken out, with the hop `tmp` before it. -/
def srRemove
    (i : Fin size) (tmp : Link (Fin pool)) (e : Fin pool)
    (keepRemainingRoute : Bool) : FibM size pool Unit := do
  let s ← get
  uaRem (s.address e)
  let tmp ←
    if keepRemainingRoute = true then do
      match tmp with
      | .ref x =>
        fibSetLink (.entry x) (s.links (.entry e))
        pure tmp
      | _ => failure
    else do
      srClearLoop (pool + 1) tmp
      pure .null
  let s ← get
  if s.links (.head i) = .ref e then
    fibSetLink (.head i) (s.links (.entry e))
  if s.srDest i = some e then
    match tmp with
    | .ref x => fibSetDest i (some x)
    | _ => fibSetDest i none

/- The mutex is not unlocked if the address is not found. -/
def fibSrEntryDelete
    (fibSr : SrPtr size) (addr : List UInt8)
    (keepRemainingRoute : Bool) : FibM size pool FibRet := do
  fibLock
  match fibIsSrInTable fibSr with
  | none =>
    fibUnlock
    return .efault
  | some i =>
    if (← fibSrCheckLifetime i) = true then
      fibUnlock
      return .enoent
    match ← srFind i addr with
    | some (tmp, e) =>
      srRemove i tmp e keepRemainingRoute
      fibUnlock
      return .ok
    | none => return .enoent

/-
  The last hop with the old address, unless a hop has the new
  one. Both are compared with the size of the old address.
-/
def srOverwriteLoop
    (addrOld addrNew : List UInt8) :
    Nat → Option (Fin pool) → Link (Fin pool) → FibM size pool (Option (Option (Fin pool)))
| 0, _, _ => failure
| _ + 1, eltRepl, .null => return some eltRepl
| _ + 1, _, .mark => failure
| fuel + 1, eltRepl, .ref e => do
    let s ← get
    let (retOld, _) ← uaCompare (s.address e) addrOld (addrOld.length * 8)
    let eltRepl := if retOld = .equal then some e else eltRepl
    let (retNew, _) ← uaCompare (s.address e) addrNew (addrOld.length * 8)
    if retNew = .equal then
      return none
    else
      srOverwriteLoop addrOld addrNew fuel eltRepl (s.links (.entry e))

def fibSrEntryOverwrite
    (fibSr : SrPtr size) (addrOld addrNew : Option (List UInt8)) :
    FibM size pool FibRet := do
  fibLock
  match fibIsSrInTable fibSr, addrOld, addrNew with
  | some i, some addrOld, some addrNew =>
    if (← fibSrCheckLifetime i) = true then
      fibUnlock
      return .enoent
    let s ← get
    match ← srOverwriteLoop addrOld addrNew (pool + 1) none
        (s.links (.head i)) with
    | none =>
      fibUnlock
      return .einval
    | some none =>
      fibUnlock
      return .ok
    | some (some e) =>
      let s ← get
      uaRem (s.address e)
      let add ← uaAdd addrNew
      if add = none then
        let _ ← uaAdd addrOld
        fibUnlock
        return .enomem
      fibSetAddress e add
      fibUnlock
      return .ok
  | _, _, _ =>
    fibUnlock
    return .efault

/- Whether the walk meets a hop. -/
def srMeetsLoop
    (srEntry : HopPtr pool) :
    Nat → Link (Fin pool) → FibM size pool (Option (Fin pool))
| 0, _ => failure
| _ + 1, .null => return none
| _ + 1, .mark => failure
| fuel + 1, .ref e => do
    let s ← get
    if srEntry = .hop e then
      return some e
    else
      srMeetsLoop srEntry fuel (s.links (.entry e))

def fibSrEntryGetAddress
    (fibSr : SrPtr size) (srEntry : HopPtr pool) (addrSize : Nat) :
    FibM size pool (FibRet × Option (List UInt8)) := do
  fibLock
  match fibIsSrInTable fibSr with
  | none =>
    fibUnlock
    return (.efault, none)
  | some i =>
    if (← fibSrCheckLifetime i) = true then
      fibUnlock
      return (.enoent, none)
    let s ← get
    match ← srMeetsLoop srEntry (pool + 1)
        (s.links (.head i)) with
    | none =>
      fibUnlock
      return (.enoent, none)
    | some e =>
      let c ← uaContainer (s.address e)
      match universalAddressGetAddress c addrSize with
      | some addr =>
        fibUnlock
        return (.ok, some addr)
      | none =>
        fibUnlock
        return (.enomem, none)

----
-- Routes
----

/- The variables of the search for a direct route. -/
structure SrSearch (size : Nat) where
  hit : Option (Fin size)
  tmpHit : Option (Fin size)
  checkFreeEntry : Option (Fin size)
  skip : Bool

def fibSrDirectLoop
    (dst : List UInt8) (srFlags : Nat) (fibSr : SrPtr size) :
    List (Fin size) → SrSearch size → FibM size pool (SrSearch size)
| [], v => return v
| i :: rest, v => do
    if (← fibSrCheckLifetime i) = true then
      fibSrDirectLoop dst srFlags fibSr rest
        { v with checkFreeEntry := v.checkFreeEntry.or (some i) }
    else if v.skip = true then
      fibSrDirectLoop dst srFlags fibSr rest { v with skip := decide (fibSr ≠ .header i) }
    else
      let s ← get
      match s.srDest i with
      | none => failure
      | some e =>
        let (retComp, _) ← uaCompare (s.address e) dst (dst.length * 8)
        if retComp ≠ .equal then
          fibSrDirectLoop dst srFlags fibSr rest v
        else if srFlags = (s.headers i).flags then
          return { v with
            hit := some i
            tmpHit := none
            checkFreeEntry := v.checkFreeEntry.or (some i) }
        else
          fibSrDirectLoop dst srFlags fibSr rest { v with tmpHit := some i }

/- How the copy of a path ends. -/
inductive SrCopy where
  | noRoom
  | ended
  | reached
deriving DecidableEq, Repr

/-
  Copy a path up to the hop `e` to the source route `j`, behind
  the hop `eltAdd`.
-/
def fibSrCopyLoop
    (j : Fin size) (e : Fin pool) :
    Nat → Option (Fin pool) → Link (Fin pool) → FibM size pool SrCopy
| 0, _, _ => failure
| _ + 1, _, .null => return .ended
| _ + 1, _, .mark => failure
| fuel + 1, eltAdd, .ref x => do
    let s ← get
    let c ← uaContainer (s.address x)
    match ← fibSrNewEntry c.address with
    | none => return .noRoom
    | some new =>
      match eltAdd with
      | none => fibSetLink (.head j) (.ref new)
      | some last => fibSetLink (.entry last) (.ref new)
      if x = e then
        fibSetDest j (some new)
        return .reached
      else
        let s ← get
        fibSrCopyLoop j e fuel (some new) (s.links (.entry x))

/- The state of a partial search: the route, and the error. -/
structure SrPartial (size : Nat) where
  hit : Option (Fin size)
  error : Option FibRet

/- Every free source route gets a copy of the path. -/
def fibSrFillLoop
    (i : Fin size) (e : Fin pool) :
    List (Fin size) → SrPartial size → FibM size pool (SrPartial size × Bool)
| [], v => return (v, true)
| j :: rest, v => do
    let s ← get
    if (s.headers j).lifetime ≠ 0 then
      fibSrFillLoop i e rest v
    else
      fibSetHeader j (s.headers i)
      fibSetLink (.head j) .null
      let s ← get
      match ← fibSrCopyLoop j e (pool + 1) none
          (s.links (.head i)) with
      | .noRoom => return (⟨some j, some .enobufs⟩, false)
      | .ended => fibSrFillLoop i e rest v
      | .reached =>
        let s ← get
        match s.srDest j with
        | none => failure
        | some new =>
          let c ← uaContainer (s.address new)
          let responsible ← fibSignalRp c.address
          fibSrFillLoop i e rest
            ⟨some j,
              if responsible = true then v.error
              else some .ehostunreach⟩

def fibSrPartialLoop
    (dst : List UInt8) (checkFreeEntry : Option (Fin size)) :
    List (Fin size) → SrPartial size → FibM size pool (SrPartial size)
| [], v => return v
| i :: rest, v => do
    let s ← get
    if (s.headers i).lifetime = 0 then
      fibSrPartialLoop dst checkFreeEntry rest v
    else
      match ← srFind i dst with
      | none => fibSrPartialLoop dst checkFreeEntry rest v
      | some (_, e) =>
        match checkFreeEntry with
        | none => return ⟨none, some .enobufs⟩
        | some first =>
          let (v, complete) ← fibSrFillLoop i e ((List.finRange size).drop first) v
          if complete = false then
            return v
          else if v.hit ≠ none then
            return v
          else
            fibSrPartialLoop dst checkFreeEntry rest v

/- The addresses along a path. -/
def srAddressLoop :
    Nat → Link (Fin pool) → FibM size pool (List (List UInt8))
| 0, _ => failure
| _ + 1, .null => return []
| _ + 1, .mark => failure
| fuel + 1, .ref e => do
    let s ← get
    let c ← uaContainer (s.address e)
    let rest ← srAddressLoop fuel (s.links (.entry e))
    return c.address :: rest

/- The number of hops along a path. -/
def srCountLoop :
    Nat → Link (Fin pool) → FibM size pool Nat
| 0, _ => failure
| _ + 1, .null => return 0
| _ + 1, .mark => failure
| fuel + 1, .ref e => do
    let s ← get
    let rest ← srCountLoop fuel (s.links (.entry e))
    return rest + 1

/- A route that could not be completed is removed. -/
def fibSrCleanUp
    (hit : Option (Fin size)) : FibM size pool Unit := do
  match hit with
  | none => return
  | some i =>
    let s ← get
    fibSetHeader i { s.headers i with lifetime := 0 }
    srClearLoop (pool + 1) (s.links (.head i))
    fibSetLink (.head i) .null

def universalAddressSize : Nat := 16

/- What is stored through the pointers of the caller. -/
structure SrRoute where
  srIfaceId : Nat
  srFlags : Nat
  addrList : List (List UInt8)
deriving DecidableEq, Repr

/- The route that was found, its length, and its hops. -/
structure SrOutput (size : Nat) where
  fibSr : Option (Fin size)
  addrListElements : Option Nat
  route : Option SrRoute
deriving DecidableEq, Repr

def SrOutput.nothing : SrOutput size :=
  ⟨none, none, none⟩

/- Copy the path of the route that was found, if it fits. -/
def fibSrCopyRoute
    (i : Fin size) (addrListElements elementSize : Nat) (reverse : Bool) :
    FibM size pool (Nat × Option SrRoute) := do
  let s ← get
  let count ← srCountLoop (pool + 1) (s.links (.head i))
  if addrListElements < count ∨
      elementSize < universalAddressSize then
    return (count, none)
  let addrList ← srAddressLoop (pool + 1) (s.links (.head i))
  return (count, some
    ⟨(s.headers i).ifaceId, (s.headers i).flags,
      if reverse = true then addrList.reverse else addrList⟩)

/- The end of a search, with what was found. -/
def fibSrRouteOf
    (dst : List UInt8) (addrListElements elementSize : Nat) (reverse : Bool)
    (tmpHit : Option (Fin size)) (p : SrPartial size) :
    FibM size pool (FibRet × SrOutput size) := do
  if p.error ≠ none ∧ p.error ≠ some .ehostunreach then
    fibSrCleanUp p.hit
    fibUnlock
    return (p.error.getD .ok, .nothing)
  match p.hit with
  | none =>
    let _ ← fibSignalRp dst
    fibUnlock
    return (.ehostunreach, .nothing)
  | some i =>
    let (count, route) ← fibSrCopyRoute i addrListElements elementSize reverse
    fibUnlock
    if route = none then
      return (.enobufs, ⟨some i, some count, none⟩)
    else if tmpHit = none then
      return (.ok, ⟨some i, some count, route⟩)
    else
      return (.one, ⟨some i, some count, route⟩)

/-
  `fibSr` is the source route after which the search starts, if
  the caller gave a pointer for it.
-/
def fibSrGetRoute
    (dst : Option (List UInt8)) (outputs : Bool) (srFlags addrListElements elementSize : Nat)
    (reverse : Bool) (fibSr : Option (SrPtr size)) :
    FibM size pool (FibRet × SrOutput size) := do
  fibLock
  match dst, outputs with
  | some dst, true =>
    let start := fibSr.getD .null
    let v ← fibSrDirectLoop dst srFlags start
      (List.finRange size)
      { hit := none
        tmpHit := none
        checkFreeEntry := none
        skip := decide (start ≠ .null) }
    if v.hit.or v.tmpHit = none then
      let p ← fibSrPartialLoop dst v.checkFreeEntry (List.finRange size) ⟨none, none⟩
      fibSrRouteOf dst addrListElements elementSize reverse v.tmpHit p
    else
      fibSrRouteOf dst addrListElements elementSize reverse v.tmpHit ⟨v.hit.or v.tmpHit, none⟩
  | _, _ =>
    fibUnlock
    return (.efault, .nothing)

end Riot
