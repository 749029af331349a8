import Riot.Lib.LinkMemory
import Riot.Lib.StateRules
import Riot.Sys.UniversalAddress

/-
  The forwarding information base of `fib.c`: the table, and the
  operations on single-hop entries.

  A computation that has no result does not return: it reads
  through a null pointer, or waits for a locked mutex.
-/

----
-- Tables
----

namespace Riot

/- The results: zero, one, and the error codes. -/
inductive FibRet where
  | ok
  | one
  | efault
  | einval
  | enoent
  | enomem
  | enobufs
  | ehostunreach
deriving DecidableEq, Repr

structure FibEntry where
  ifaceId : Nat
  lifetime : Nat
  global : Option Nat
  globalFlags : Nat
  nextHop : Option Nat
  nextHopFlags : Nat
deriving DecidableEq, Repr

structure FibSr where
  ifaceId : Nat
  lifetime : Nat
  flags : Nat
deriving DecidableEq, Repr

/-
  A table of single-hop entries, or of source routes with the
  pool of their hops. The links are the path of each source
  route and the next pointer of each hop.
-/
structure FibTable (size pool : Nat) where
  mtxAccess : Bool
  entries : List FibEntry
  headers : Fin size → FibSr
  links : LinkMem (Fin size) (Fin pool)
  srDest : Fin size → Option (Fin pool)
  address : Fin pool → Option Nat
  -- the prefixes of the registered routing protocols
  prefixRp : List (Option Nat)
  ua : UaTable
  -- what the clock shows at each reading
  clock : Nat → Nat
  reads : Nat

def fibIfaceUndef : Nat := 0

def fibMaxRegisteredRp : Nat := 5

def fibLifetimeNoExpire : Nat := 0xffffffffffffffff

abbrev FibM (size pool : Nat) :=
  StateT (FibTable size pool) Option

variable {size pool : Nat}

/- A caller that finds the mutex locked does not return. -/
def fibLock : FibM size pool Unit := do
  if (← get).mtxAccess then
    failure
  else
    modify (fun s => { s with mtxAccess := true })

def fibUnlock : FibM size pool Unit :=
  modify (fun s => { s with mtxAccess := false })

def xtimerNowUsec64 : FibM size pool Nat := do
  let s ← get
  set { s with reads := s.reads + 1 }
  return s.clock s.reads

/- The product has the width of `unsigned long`. -/
def fibLifetimeToAbsolute
    (ms : Nat) : FibM size pool Nat := do
  let now ← xtimerNowUsec64
  return (now + ms * 1000 % 2 ^ 32) % 2 ^ 64

----
-- Addresses
----

def uaAdd
    (addr : List UInt8) : FibM size pool (Option Nat) := do
  let s ← get
  set { s with ua := (universalAddressAdd s.ua addr).1 }
  return (universalAddressAdd s.ua addr).2

def uaRem
    (entry : Option Nat) : FibM size pool Unit :=
  modify (fun s =>
    { s with ua := universalAddressRem s.ua entry })

/- Read through a pointer to a container. -/
def uaContainer
    (entry : Option Nat) : FibM size pool UaContainer := do
  let s ← get
  match entry.bind (fun i => s.ua.containers[i]?) with
  | some c => return c
  | none => failure

def uaCompare
    (entry : Option Nat) (addr : List UInt8) (addrSizeInBits : Nat) :
    FibM size pool (UaMatch × Nat) := do
  let c ← uaContainer entry
  return universalAddressCompare c addr addrSizeInBits

----
-- Lookup
----

def fibFlagNetPrefixMask : Nat := 0xff000000

def fibFlagNetPrefixShift : Nat := 24

def fibPrefixLen
    (globalFlags : Nat) : Nat :=
  (globalFlags &&& fibFlagNetPrefixMask) >>> fibFlagNetPrefixShift

def FibEntry.cleared
    (e : FibEntry) : FibEntry :=
  { e with
    lifetime := 0
    globalFlags := 0
    nextHopFlags := 0
    ifaceId := fibIfaceUndef
    global := none
    nextHop := none }

def fibSetEntry
    (i : Nat) (e : FibEntry) : FibM size pool Unit :=
  modify (fun s => { s with entries := s.entries.set i e })

/- An entry is removed if its lifetime expired. -/
def fibExpire
    (now i : Nat)
    (e : FibEntry) : FibM size pool FibEntry := do
  if e.lifetime ≠ fibLifetimeNoExpire ∧ e.lifetime < now then
    uaRem e.global
    uaRem e.nextHop
    fibSetEntry i e.cleared
    return e.cleared
  else
    return e

/- The variables of the search. -/
structure FibSearch where
  prefixSize : Nat
  matchSize : Nat
  ret : FibRet
  entry : Option Nat

/- The search after the comparison with entry `i`. -/
def FibSearch.next
    (v : FibSearch) (dstSize i : Nat) (e : FibEntry) (retComp : UaMatch)
    (matchSize : Nat) : FibSearch :=
  if retComp = .matchingPrefix ∧ e.globalFlags &&& fibFlagNetPrefixMask ≠ 0 ∧
      fibPrefixLen e.globalFlags ≤ matchSize ∧
      (v.prefixSize = 0 ∨ v.prefixSize < matchSize) then
    { prefixSize := matchSize
      matchSize := dstSize * 8
      ret := .ok
      entry := some i }
  else if retComp = .isAllZeroAddress ∧ v.prefixSize = 0 then
    { v with matchSize := dstSize * 8, ret := .ok, entry := some i }
  else
    { v with matchSize := dstSize * 8 }

def fibFindLoop
    (dst : List UInt8) (now : Nat) (isAllZerosAddr : Bool) :
    List FibEntry → Nat → FibSearch → FibM size pool (FibRet × Option Nat)
| [], _, v => return (v.ret, v.entry)
| e :: rest, i, v => do
    let e ← fibExpire now i e
    if v.prefixSize < dst.length * 8 ∧ e.global ≠ none then
      let (retComp, matchSize) ← uaCompare e.global dst v.matchSize
      -- an exact match cannot be improved
      if retComp = .equal ∨ (isAllZerosAddr = true ∧
            retComp = .isAllZeroAddress) then
        return (.one, some i)
      else
        fibFindLoop dst now isAllZerosAddr rest (i + 1) (v.next dst.length i e retComp matchSize)
    else
      fibFindLoop dst now isAllZerosAddr rest (i + 1) v

def fibFindEntry
    (dst : List UInt8) :
    FibM size pool (FibRet × Option Nat) := do
  let now ← xtimerNowUsec64
  let s ← get
  fibFindLoop dst now (dst.all (fun b => b == 0)) s.entries 0
    { prefixSize := 0
      matchSize := dst.length * 8
      ret := .ehostunreach
      entry := none }

/- Read through a pointer to an entry. -/
def fibEntry
    (entry : Option Nat) :
    FibM size pool (Nat × FibEntry) := do
  let s ← get
  match entry with
  | none => failure
  | some i =>
    match s.entries[i]? with
    | none => failure
    | some e => return (i, e)

----
-- Entries
----

def fibLifetime
    (lifetime : Nat) : FibM size pool Nat := do
  if lifetime ≠ 2 ^ 32 - 1 then
    fibLifetimeToAbsolute lifetime
  else
    return fibLifetimeNoExpire

def fibUpdEntry
    (entry : Option Nat) (nextHop : List UInt8)
    (nextHopFlags lifetime : Nat) : FibM size pool FibRet := do
  let container ← uaAdd nextHop
  if container = none then
    return .enomem
  let (i, e) ← fibEntry entry
  uaRem e.nextHop
  let lifetime ← fibLifetime lifetime
  fibSetEntry i
    { e with nextHop := container, nextHopFlags := nextHopFlags, lifetime := lifetime }
  return .ok

/- An entry that is not complete leaves what was stored. -/
def fibCreateLoop
    (ifaceId : Nat) (dst : List UInt8) (dstFlags : Nat) (nextHop : List UInt8)
    (nextHopFlags lifetime : Nat) :
    List FibEntry → Nat → FibM size pool FibRet
| [], _ => return .enomem
| e :: rest, i => do
    if e.lifetime = 0 then
      let global ← uaAdd dst
      let e' ←
        if global ≠ none then do
          let hop ← uaAdd nextHop
          pure
            { e with
              global := global
              globalFlags := dstFlags
              nextHop := hop
              nextHopFlags := nextHopFlags }
        else
          pure { e with global := global }
      if e'.nextHop ≠ none then
        let lifetime ← fibLifetime lifetime
        fibSetEntry i
          { e' with ifaceId := ifaceId, lifetime := lifetime }
        return .ok
      else
        fibSetEntry i e'
        fibCreateLoop ifaceId dst dstFlags nextHop nextHopFlags lifetime rest (i + 1)
    else
      fibCreateLoop ifaceId dst dstFlags nextHop nextHopFlags lifetime rest (i + 1)

def fibCreateEntry
    (ifaceId : Nat) (dst : List UInt8) (dstFlags : Nat) (nextHop : List UInt8)
    (nextHopFlags lifetime : Nat) : FibM size pool FibRet := do
  let s ← get
  fibCreateLoop ifaceId dst dstFlags nextHop nextHopFlags lifetime s.entries 0

def fibRemove
    (i : Nat)
    (e : FibEntry) : FibM size pool Unit := do
  uaRem e.global
  uaRem e.nextHop
  fibSetEntry i e.cleared

def fibAddEntry
    (ifaceId : Nat) (dst : Option (List UInt8)) (dstFlags : Nat) (nextHop : Option (List UInt8))
    (nextHopFlags lifetime : Nat) : FibM size pool FibRet := do
  fibLock
  match dst, nextHop with
  | some dst, some nextHop =>
    let (ret, entry) ← fibFindEntry dst
    let ret ←
      if ret = .one then
        fibUpdEntry entry nextHop nextHopFlags lifetime
      else
        fibCreateEntry ifaceId dst dstFlags nextHop nextHopFlags lifetime
    fibUnlock
    return ret
  | _, _ =>
    fibUnlock
    return .efault

def fibUpdateEntry
    (dst nextHop : Option (List UInt8))
    (nextHopFlags lifetime : Nat) : FibM size pool FibRet := do
  fibLock
  match dst, nextHop with
  | some dst, some nextHop =>
    let (found, entry) ← fibFindEntry dst
    let ret ←
      if found = .one then
        fibUpdEntry entry nextHop nextHopFlags lifetime
      else
        pure .enomem
    fibUnlock
    return ret
  | _, _ =>
    fibUnlock
    return .efault

def fibRemoveEntry
    (dst : List UInt8) : FibM size pool Unit := do
  fibLock
  let (ret, entry) ← fibFindEntry dst
  if ret = .one then
    let (i, e) ← fibEntry entry
    fibRemove i e
    fibUnlock
  else
    fibUnlock

def fibFlushLoop
    (interface : Nat) :
    List FibEntry → Nat → FibM size pool Unit
| [], _ => return
| e :: rest, i => do
    if interface = fibIfaceUndef ∨ interface = e.ifaceId then
      fibRemove i e
    fibFlushLoop interface rest (i + 1)

def fibFlush
    (interface : Nat) : FibM size pool Unit := do
  fibLock
  let s ← get
  fibFlushLoop interface s.entries 0
  fibUnlock

----
-- Next Hops
----

/- Each protocol whose prefix is comparable is asked. -/
def fibSignalLoop
    (addr : List UInt8) :
    List (Option Nat) → Bool → FibM size pool Bool
| [], responsible => return responsible
| prefixRp :: rest, responsible => do
    let (retComp, _) ← uaCompare prefixRp addr (addr.length * 8)
    fibSignalLoop addr rest (responsible || (retComp != .enoent))

def fibSignalRp
    (addr : List UInt8) : FibM size pool Bool := do
  let s ← get
  fibSignalLoop addr s.prefixRp false

/- What is stored through the pointers of the caller. -/
structure FibHop where
  ifaceId : Nat
  nextHop : List UInt8
  nextHopFlags : Nat
deriving DecidableEq, Repr

/- The end of a lookup, with what was found. -/
def fibNextHopOf
    (nextHopSize : Nat) (found : FibRet × Option Nat) :
    FibM size pool (FibRet × Option FibHop) := do
  if found.1 = .ok ∨ found.1 = .one then
    let (_, e) ← fibEntry found.2
    let c ← uaContainer e.nextHop
    match universalAddressGetAddress c nextHopSize with
    | none =>
      fibUnlock
      return (.enobufs, none)
    | some addr =>
      fibUnlock
      return (.ok, some ⟨e.ifaceId, addr, e.nextHopFlags⟩)
  else
    fibUnlock
    return (.ehostunreach, none)

/- `outputs` says whether the caller gave all pointers. -/
def fibGetNextHop
    (outputs nextHopGiven : Bool) (nextHopSize : Nat) (dst : Option (List UInt8)) :
    FibM size pool (FibRet × Option FibHop) := do
  fibLock
  if outputs = false then
    fibUnlock
    return (.einval, none)
  match dst, nextHopGiven with
  | some dst, true =>
    let found ← fibFindEntry dst
    if found.1 ≠ .ok ∧ found.1 ≠ .one then
      -- ask the routing protocols, and look again
      if (← fibSignalRp dst) = true then
        fibNextHopOf nextHopSize (← fibFindEntry dst)
      else
        fibNextHopOf nextHopSize found
    else
      fibNextHopOf nextHopSize found
  | _, _ =>
    fibUnlock
    return (.efault, none)

/- The addresses that match, and how many there are. -/
def fibDestinationLoop
    (bytes : List UInt8) (dstSetGiven : Bool) (dstSetSize : Nat) :
    List FibEntry → List (List UInt8) → Nat → FibM size pool (List (List UInt8) × Nat)
| [], dstSet, found => return (dstSet, found)
| e :: rest, dstSet, found => do
    if e.global = none then
      fibDestinationLoop bytes dstSetGiven dstSetSize rest dstSet found
    else
      let c ← uaContainer e.global
      match universalAddressComparePrefix c bytes
          (bytes.length * 8) with
      | none => failure
      | some .enoent => fibDestinationLoop bytes dstSetGiven dstSetSize rest dstSet found
      | some _ =>
        fibDestinationLoop bytes dstSetGiven dstSetSize rest
          (if dstSetGiven = true ∧ found < dstSetSize then
            dstSet ++ [c.address]
          else
            dstSet) (found + 1)

def fibGetDestinationSet
    (bytes : List UInt8) (dstSetGiven : Bool) (dstSetSize : Nat) :
    FibM size pool (FibRet × List (List UInt8) × Nat) := do
  fibLock
  let s ← get
  let (dstSet, found) ← fibDestinationLoop bytes dstSetGiven dstSetSize s.entries [] 0
  let ret : FibRet :=
    if dstSetSize < found then .enobufs
    else if 0 < found then .ok
    else .ehostunreach
  fibUnlock
  return (ret, dstSet, found)

----
-- Tables as a Whole
----

/- All data of the table is zeroed. -/
def fibClear
    (s : FibTable size pool) : FibTable size pool :=
  { s with
    prefixRp := []
    entries := s.entries.map (fun _ => ⟨0, 0, none, 0, none, 0⟩)
    headers := fun _ => ⟨0, 0, 0⟩
    links := fun _ => .null
    srDest := fun _ => none
    address := fun _ => none }

def fibInit : FibM size pool Unit := do
  fibUnlock
  fibLock
  modify fibClear
  modify (fun s => { s with ua := universalAddressInit s.ua })
  fibUnlock

def fibDeinit : FibM size pool Unit := do
  fibLock
  modify fibClear
  modify (fun s => { s with ua := universalAddressReset s.ua })
  fibUnlock

def fibRegisterRp
    (bytes : Option (List UInt8)) : FibM size pool FibRet := do
  fibLock
  let s ← get
  if fibMaxRegisteredRp ≤ s.prefixRp.length then
    fibUnlock
    return .enomem
  match bytes with
  | none =>
    fibUnlock
    return .einval
  | some bytes =>
    if bytes = [] then
      fibUnlock
      return .einval
    let container ← uaAdd bytes
    modify (fun s =>
      { s with prefixRp := s.prefixRp ++ [container] })
    fibUnlock
    return .ok

def fibGetNumUsedEntries : FibM size pool Nat := do
  fibLock
  let s ← get
  fibUnlock
  return s.entries.countP (fun e => e.global.isSome)

end Riot
