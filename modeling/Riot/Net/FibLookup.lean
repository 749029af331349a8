import Mathlib.Data.Finset.Max
import Mathlib.Data.Nat.Bitwise
import Riot.Net.FibLocks

/-
  The lookup of a next hop, and the longest matching prefix.

  The comparison of addresses counts the bits in the first
  distinct byte from the wrong end. The lookup ranks entries by
  this count, and finds the longest matching prefix exactly if
  the counts put that entry first.
-/

----
-- Longest Matching Prefixes
----

namespace Riot

/- An address, and the number of its bits that count. -/
structure Route where
  address : List UInt8
  len : Nat
deriving DecidableEq, Repr

/- The bits of an address, most significant bits first. -/
def addrBits
    (addr : List UInt8) : List Bool :=
  addr.flatMap (fun b =>
    (List.range 8).map (fun j => b.toNat.testBit (7 - j)))

def Route.Matches
    (r : Route) (dst : List UInt8) : Prop :=
  (addrBits r.address).take r.len = (addrBits dst).take r.len

/-
  The position of the route to take: the one with the address of
  the destination, or the longest one that matches, or the
  default route.
-/
inductive LongestMatch
    (routes : List (Option Route))
    (dst : List UInt8) : Option Nat → Prop
| exact
    {i : Nat} {r : Route}
    (hRoute : routes[i]? = some (some r))
    (hEq : r.address = dst) :
    LongestMatch routes dst (some i)
| longest
    {i : Nat} {r : Route}
    (hNone : ∀ r', some r' ∈ routes → r'.address ≠ dst)
    (hRoute : routes[i]? = some (some r))
    (hMatch : r.Matches dst)
    (hMax : ∀ r', some r' ∈ routes → r'.Matches dst → r'.len ≤ r.len) :
    LongestMatch routes dst (some i)
| default
    {i : Nat} {r : Route}
    (hNone : ∀ r', some r' ∈ routes → r'.address ≠ dst)
    (hMatch : ∀ r', some r' ∈ routes → ¬ r'.Matches dst)
    (hRoute : routes[i]? = some (some r))
    (hZero : allZero r.address = true) :
    LongestMatch routes dst (some i)
| unreachable
    (hNone : ∀ r', some r' ∈ routes → r'.address ≠ dst)
    (hMatch : ∀ r', some r' ∈ routes → ¬ r'.Matches dst)
    (hZero : ∀ r', some r' ∈ routes → allZero r'.address = false) :
    LongestMatch routes dst none

/-
  Distinct addresses of one size, with a prefix length that has
  room in the flags and zero bits beyond it.
-/
structure WellFormedRoutes
    (routes : List (Option Route))
    (size : Nat) : Prop where
  size_pos : 0 < size
  length : ∀ r, some r ∈ routes → r.address.length = size
  len_lt : ∀ r, some r ∈ routes → r.len < 2 ^ 8
  zero : ∀ r, some r ∈ routes → ∀ b ∈ (addrBits r.address).drop r.len, b = false
  distinct :
    ∀ (i j : Nat) (r r' : Route), routes[i]? = some (some r) → routes[j]? = some (some r') →
      r.address = r'.address → i = j

----
-- Tables of Routes
----

variable {size pool : Nat}

/- Read through a pointer to a container, if it is valid. -/
def UaTable.read
    (t : UaTable) (entry : Option Nat) : Option UaContainer :=
  entry.bind (fun k => t.containers[k]?)

def FibEntry.free : FibEntry :=
  ⟨fibIfaceUndef, 0, none, 0, none, 0⟩

/- An entry that is free, or unexpired and holds a route. -/
def HoldsRoute
    (ua : UaTable) (now : Nat)
    (e : FibEntry) : Option Route → Prop
| none => e = FibEntry.free
| some r =>
  (e.lifetime = fibLifetimeNoExpire ∨ now ≤ e.lifetime) ∧ fibPrefixLen e.globalFlags = r.len ∧
  (∃ c, ua.read e.global = some c ∧ c.address = r.address) ∧ ∃ c, ua.read e.nextHop = some c

/- A table of routes without a routing protocol. -/
structure RouteTable
    (s : FibTable size pool)
    (routes : List (Option Route)) : Prop where
  unlocked : s.mtxAccess = false
  noRp : s.prefixRp = []
  holds : List.Forall₂ (HoldsRoute s.ua (s.clock s.reads)) s.entries routes

/- The next hop of an entry, if it fits. -/
def nextHopOf
    (ua : UaTable) (nextHopSize : Nat) (e : FibEntry) : FibRet × Option FibHop :=
  match ua.read e.nextHop with
  | none => (.ehostunreach, none)
  | some c =>
    if c.address.length ≤ nextHopSize then
      (.ok, some ⟨e.ifaceId, c.address, e.nextHopFlags⟩)
    else
      (.enobufs, none)

/- The result of a lookup that takes the given position. -/
def lookupResult
    (s : FibTable size pool) (nextHopSize : Nat) :
    Option Nat → FibRet × Option FibHop
| none => (.ehostunreach, none)
| some i =>
  match s.entries[i]? with
  | none => (.ehostunreach, none)
  | some e => nextHopOf s.ua nextHopSize e

/- The lookup returns the next hop of the longest match. -/
def LookupRight
    (s : FibTable size pool) (nextHopSize : Nat) (routes : List (Option Route))
    (dst : List UInt8) : Prop :=
  ∃ m s', LongestMatch routes dst m ∧
      fibGetNextHop true true nextHopSize (some dst) s = some (lookupResult s nextHopSize m, s')

----
-- What the Search Finds
----

/- The count of the comparison reaches the prefix length. -/
def Route.Passes
    (r : Route) (dst : List UInt8) : Prop :=
  allZero r.address = false ∧ r.len ≠ 0 ∧ r.len ≤ matchCount r.address dst

/- The state of the search behind some entries. -/
inductive Chosen
    (dst : List UInt8)
    (routes : List (Option Route)) : FibSearch → Prop
| nothing
    (hPass : ∀ r, some r ∈ routes → ¬ r.Passes dst)
    (hZero : ∀ r, some r ∈ routes → allZero r.address = false) :
    Chosen dst routes ⟨0, dst.length * 8, .ehostunreach, none⟩
| zero
    {i : Nat} {r : Route}
    (hPass : ∀ r, some r ∈ routes → ¬ r.Passes dst)
    (hRoute : routes[i]? = some (some r))
    (hZero : allZero r.address = true) :
    Chosen dst routes ⟨0, dst.length * 8, .ok, some i⟩
| best
    {i : Nat} {r : Route}
    (hRoute : routes[i]? = some (some r))
    (hPass : r.Passes dst)
    (hBest :
      ∀ (j : Nat) r', routes[j]? = some (some r') → r'.Passes dst →
        matchCount r'.address dst < matchCount r.address dst ∨
          (matchCount r'.address dst = matchCount r.address dst ∧ i ≤ j)) :
    Chosen dst routes ⟨matchCount r.address dst, dst.length * 8, .ok, some i⟩

theorem firstDiff_lt
    {a b : List UInt8} {idx : Nat} (hDiff : firstDiff a b = some idx) :
    idx < a.length := by
  induction a generalizing b idx with
  | nil => cases hDiff
  | cons x a ih =>
    unfold firstDiff at hDiff
    split at hDiff
    · cases hDiff
      simp
    · rcases Option.map_eq_some_iff.mp hDiff with ⟨k, hk, rfl⟩
      have hLt := ih hk
      simp only [List.length_cons]
      omega

theorem countFrom_le
    (x : UInt8) (j : Nat) :
    countFrom x j ≤ j := by
  induction j with
  | zero => exact Nat.le_refl 0
  | succ j ih =>
    unfold countFrom
    split
    · exact Nat.le_refl _
    · omega

theorem matchCount_lt
    {a dst : List UInt8} (hLength : a.length = dst.length) (hPos : 0 < dst.length) :
    matchCount a dst < dst.length * 8 := by
  unfold matchCount
  cases hDiff : firstDiff a dst with
  | none =>
    dsimp only
    omega
  | some idx =>
    have hIdx := firstDiff_lt hDiff
    have hCount := countFrom_le (a.getD idx 0 ^^^ dst.getD idx 0) 7
    dsimp only
    omega

/- The search never thinks that it found all bits. -/
theorem Chosen.prefixSize_lt
    {dst : List UInt8} {routes : List (Option Route)} {v : FibSearch}
    (h : Chosen dst routes v)
    (hRoutes : ∀ r, some r ∈ routes → r.address.length = dst.length)
    (hPos : 0 < dst.length) :
    v.prefixSize < dst.length * 8 ∧ v.matchSize = dst.length * 8 := by
  cases h with
  | nothing => exact ⟨by dsimp only; omega, rfl⟩
  | zero => exact ⟨by dsimp only; omega, rfl⟩
  | best hRoute => exact ⟨matchCount_lt (hRoutes _ (List.mem_of_getElem? hRoute)) hPos, rfl⟩

/- The mask of the flags is empty if the length is zero. -/
theorem mask_eq_zero_iff
    (flags : Nat) :
    flags &&& fibFlagNetPrefixMask = 0 ↔ fibPrefixLen flags = 0 := by
  unfold fibPrefixLen
  constructor
  · intro hZero
    rw [hZero]
    rfl
  · intro hZero
    apply Nat.eq_of_testBit_eq
    intro j
    rw [Nat.zero_testBit, Nat.testBit_and]
    by_cases hj : j < 24
    · have hMask : fibFlagNetPrefixMask.testBit j = false := by
        have hAll : ∀ j < 24, fibFlagNetPrefixMask.testBit j = false := by
          decide
        exact hAll j hj
      rw [hMask, Bool.and_false]
    · have hBit := congrArg (fun n => n.testBit (j - 24)) hZero
      simp only [fibFlagNetPrefixShift, Nat.testBit_shiftRight,
        Nat.testBit_and, Nat.zero_testBit] at hBit
      rwa [show 24 + (j - 24) = j by omega] at hBit

section

variable {dst : List UInt8} {routes : List (Option Route)} {v : FibSearch} {r : Route}

theorem getElem?_snoc_iff
    {α : Type} {l : List α} {x y : α} {j : Nat} :
    (l ++ [x])[j]? = some y ↔ l[j]? = some y ∨ (j = l.length ∧ x = y) := by
  grind

theorem not_passes_snoc
    {x : Option Route} (hNot : ∀ r, x = some r → ¬ r.Passes dst)
    (hOld : ∀ r, some r ∈ routes → ¬ r.Passes dst) :
    ∀ r, some r ∈ routes ++ [x] → ¬ r.Passes dst := by
  intro r hr
  rcases List.mem_append.mp hr with hIn | hIn
  · exact hOld r hIn
  · exact hNot r (List.mem_singleton.mp hIn).symm

/- What does not pass changes nothing, unless it is a first default. -/
theorem Chosen.snoc_other
    {x : Option Route} (h : Chosen dst routes v)
    (hNot : ∀ r, x = some r → ¬ r.Passes dst)
    (hZero : v.entry = none → ∀ r, x = some r → allZero r.address = false) :
    Chosen dst (routes ++ [x]) v := by
  cases h with
  | nothing hPass hOld =>
    refine .nothing (not_passes_snoc hNot hPass) ?_
    intro r hr
    rcases List.mem_append.mp hr with hIn | hIn
    · exact hOld r hIn
    · exact hZero rfl r (List.mem_singleton.mp hIn).symm
  | zero hPass hRoute hOld =>
    exact .zero (not_passes_snoc hNot hPass) (getElem?_snoc_iff.mpr (.inl hRoute)) hOld
  | best hRoute hPass hBest =>
    refine .best (getElem?_snoc_iff.mpr (.inl hRoute)) hPass ?_
    intro j r' hr' hPass'
    rcases getElem?_snoc_iff.mp hr' with hOld | ⟨_, hNew⟩
    · exact hBest j r' hOld hPass'
    · exact absurd hPass' (hNot r' hNew)

/- A default route is kept if nothing passed. -/
theorem Chosen.snoc_zero
    (h : Chosen dst routes v) (e : FibEntry) (hZero : allZero r.address = true) :
    Chosen dst (routes ++ [some r]) (v.next dst.length routes.length e .isAllZeroAddress 0) := by
  have hNot : ∀ r', some r = some r' → ¬ r'.Passes dst := by
    rintro _ ⟨⟩ hPass
    rw [hPass.1] at hZero
    cases hZero
  cases h with
  | nothing hPass _ =>
    exact .zero (not_passes_snoc hNot hPass) (getElem?_snoc_iff.mpr (.inr ⟨rfl, rfl⟩)) hZero
  | zero hPass _ _ =>
    exact .zero (not_passes_snoc hNot hPass) (getElem?_snoc_iff.mpr (.inr ⟨rfl, rfl⟩)) hZero
  | best hRoute hPass hBest =>
    have hNe := Nat.ne_of_gt (Nat.lt_of_lt_of_le (Nat.pos_of_ne_zero hPass.2.1) hPass.2.2)
    simp only [FibSearch.next, hNe, and_false, false_and, if_false, reduceCtorEq]
    exact (Chosen.best hRoute hPass hBest).snoc_other hNot (fun h => by cases h)

/- A route is taken if it passes with a greater count. -/
theorem Chosen.snoc_prefix
    (h : Chosen dst routes v) (e : FibEntry)
    (hLen : fibPrefixLen e.globalFlags = r.len)
    (hZero : allZero r.address = false) :
    Chosen dst (routes ++ [some r])
      (v.next dst.length routes.length e .matchingPrefix (matchCount r.address dst)) := by
  have hMask : e.globalFlags &&& fibFlagNetPrefixMask ≠ 0 ↔ r.len ≠ 0 := by
    rw [Ne, mask_eq_zero_iff, hLen]
  have hPassIff : (e.globalFlags &&& fibFlagNetPrefixMask ≠ 0 ∧
          fibPrefixLen e.globalFlags ≤ matchCount r.address dst) ↔ r.Passes dst := by
    rw [hMask, hLen]
    exact ⟨fun hBoth => ⟨hZero, hBoth.1, hBoth.2⟩, fun hPass => ⟨hPass.2.1, hPass.2.2⟩⟩
  have hTaken : ∀ v' : FibSearch, r.Passes dst →
        v'.prefixSize = 0 ∨ v'.prefixSize < matchCount r.address dst →
        (∀ (j : Nat) r', routes[j]? = some (some r') → r'.Passes dst →
          matchCount r'.address dst < matchCount r.address dst) →
        Chosen dst (routes ++ [some r])
          (v'.next dst.length routes.length e .matchingPrefix (matchCount r.address dst)) := by
    intro v' hPass hSize hLess
    have hCond := hPassIff.mpr hPass
    rw [FibSearch.next, if_pos ⟨rfl, hCond.1, hCond.2, hSize⟩]
    refine .best (getElem?_snoc_iff.mpr (.inr ⟨rfl, rfl⟩)) hPass ?_
    intro j r' hr' hPass'
    rcases getElem?_snoc_iff.mp hr' with hIn | ⟨hj, hEq⟩
    · exact .inl (hLess j r' hIn hPass')
    · cases hEq
      exact .inr ⟨rfl, hj.ge⟩
  have hLeft : ∀ v' : FibSearch, ¬ (r.Passes dst ∧
          (v'.prefixSize = 0 ∨ v'.prefixSize < matchCount r.address dst)) →
        v'.next dst.length routes.length e .matchingPrefix (matchCount r.address dst) =
          { v' with matchSize := dst.length * 8 } := by
    intro v' hNot
    rw [FibSearch.next, if_neg (fun hAll => hNot ⟨hPassIff.mp ⟨hAll.2.1, hAll.2.2.1⟩, hAll.2.2.2⟩)]
    exact if_neg (fun hBoth => by cases hBoth.1)
  by_cases hPass : r.Passes dst
  · cases h with
    | nothing hOld _ =>
      exact hTaken _ hPass (.inl rfl)
        (fun j r' hIn hPass' => absurd hPass' (hOld r' (List.mem_of_getElem? hIn)))
    | zero hOld _ _ =>
      exact hTaken _ hPass (.inl rfl)
        (fun j r' hIn hPass' => absurd hPass' (hOld r' (List.mem_of_getElem? hIn)))
    | best hRoute hPass₀ hBest =>
      rename_i i r₀
      by_cases hGt : matchCount r₀.address dst < matchCount r.address dst
      · refine hTaken _ hPass (.inr hGt) ?_
        intro j r' hIn hPass'
        rcases hBest j r' hIn hPass' with hLt | ⟨hEq, _⟩
        · omega
        · omega
      · have hNe := Nat.lt_of_lt_of_le (Nat.pos_of_ne_zero hPass₀.2.1) hPass₀.2.2
        rw [hLeft _ (fun hBoth => by rcases hBoth.2 with h | h <;> dsimp only at h <;> omega)]
        refine .best (getElem?_snoc_iff.mpr (.inl hRoute)) hPass₀ ?_
        intro j r' hr' hPass'
        rcases getElem?_snoc_iff.mp hr' with hIn | ⟨hj, hEq⟩
        · exact hBest j r' hIn hPass'
        · cases hEq
          have hi : i < routes.length := (List.getElem?_eq_some_iff.mp hRoute).1
          rcases Nat.lt_or_eq_of_le (Nat.le_of_not_lt hGt) with hLt | hEq
          · exact Or.inl hLt
          · exact Or.inr ⟨hEq, by omega⟩
  · rw [hLeft _ (fun hBoth => hPass hBoth.1)]
    have hSize : v.matchSize = dst.length * 8 := by
      cases h <;> rfl
    rw [← hSize]
    exact h.snoc_other (by rintro _ ⟨⟩; exact hPass) (by rintro _ _ ⟨⟩; exact hZero)

----
-- The Search
----

variable {s : FibTable size pool}

theorem uaContainer_eq
    {entry : Option Nat} {c : UaContainer} (hRead : s.ua.read entry = some c) :
    uaContainer entry s = some (c, s) := by
  have hRead' : entry.bind (fun k => s.ua.containers[k]?) = some c := hRead
  unfold uaContainer
  refine bind_eq_some.mpr ⟨s, s, rfl, ?_⟩
  simp only [hRead']
  rfl

theorem uaCompare_eq
    {entry : Option Nat} {c : UaContainer} (hRead : s.ua.read entry = some c)
    (n : Nat) :
    uaCompare entry dst n s = some (universalAddressCompare c dst n, s) :=
  bind_eq_some.mpr ⟨c, s, uaContainer_eq hRead, rfl⟩

/- An entry that holds a route or nothing is left as it is. -/
theorem fibExpire_eq
    {now i : Nat} {e : FibEntry} {route : Option Route}
    (hHolds : HoldsRoute s.ua now e route) (hEntry : s.entries[i]? = some e) :
    fibExpire now i e s = some (e, s) := by
  unfold fibExpire
  split
  · rename_i hExpired
    cases route with
    | some r =>
      exfalso
      rcases hHolds.1 with hNever | hLater
      · exact hExpired.1 hNever
      · omega
    | none =>
      have hFree : e = FibEntry.free := hHolds
      subst hFree
      have hSet : s.entries.set i FibEntry.free.cleared = s.entries := by
        rcases List.getElem?_eq_some_iff.mp hEntry with ⟨hLt, hGet⟩
        have hSame : FibEntry.free.cleared = s.entries[i] := by
          rw [hGet]
          rfl
        rw [hSame, List.set_getElem_self]
      refine bind_eq_some.mpr ⟨(), s, rfl, ?_⟩
      refine bind_eq_some.mpr ⟨(), s, rfl, ?_⟩
      refine bind_eq_some.mpr ⟨(), s, ?_, rfl⟩
      change some ((), { s with entries := s.entries.set i FibEntry.free.cleared }) = _
      rw [hSet]
  · rfl

theorem eq_of_allZero
    {a b : List UInt8} (ha : allZero a = true) (hb : allZero b = true)
    (hLength : a.length = b.length) :
    a = b := by
  have hRep : ∀ {l : List UInt8}, allZero l = true → l = List.replicate l.length 0 := by
    intro l hl
    rw [List.eq_replicate_iff]
    refine ⟨rfl, ?_⟩
    intro x hx
    have hAll := List.all_eq_true.mp hl x hx
    simpa using hAll
  rw [hRep ha, hRep hb, hLength]

/- What a search reports about all routes. -/
def FoundBy
    (dst : List UInt8) (routes : List (Option Route)) (res : FibRet × Option Nat) : Prop :=
  (∃ (i : Nat) (r : Route), routes[i]? = some (some r) ∧ r.address = dst ∧ res = (.one, some i)) ∨
  ((∀ r : Route, some r ∈ routes → r.address ≠ dst) ∧
    ∃ v, Chosen dst routes v ∧ res = (v.ret, v.entry))

/- The search goes on behind the entries that were seen. -/
theorem fibFindLoop_spec
    {now : Nat} {seen rest : List FibEntry} {routes' : List (Option Route)}
    (hPos : 0 < dst.length) (hEntries : s.entries = seen ++ rest)
    (hSeen : seen.length = routes.length)
    (hHolds : List.Forall₂ (HoldsRoute s.ua now) rest routes')
    (hLength : ∀ r : Route, some r ∈ routes ++ routes' → r.address.length = dst.length)
    (hNone : ∀ r : Route, some r ∈ routes → r.address ≠ dst)
    (hChosen : Chosen dst routes v) :
    ∃ res, fibFindLoop dst now (dst.all (fun b => b == 0)) rest
          seen.length v s = some (res, s) ∧ FoundBy dst (routes ++ routes') res := by
  induction hHolds generalizing seen routes v with
  | nil =>
    refine ⟨(v.ret, v.entry), rfl, Or.inr ⟨?_, v, ?_, rfl⟩⟩
    · rw [List.append_nil]
      exact hNone
    · rw [List.append_nil]
      exact hChosen
  | cons hHead hTail ih =>
    rename_i e route rest routes'
    have hEntry : s.entries[seen.length]? = some e := by
      rw [hEntries]
      simp
    have hExpire := fibExpire_eq hHead hEntry
    have hAssoc : routes ++ route :: routes' = (routes ++ [route]) ++ routes' := by
      simp
    have hRest : s.entries = (seen ++ [e]) ++ rest := by
      rw [hEntries]
      simp
    have hSeen' : (seen ++ [e]).length = (routes ++ [route]).length := by
      simp [hSeen]
    have hOld : ∀ r : Route, some r ∈ routes → r.address.length = dst.length :=
      fun r hr => hLength r (List.mem_append_left _ hr)
    rcases hChosen.prefixSize_lt hOld hPos with ⟨hPrefix, hMatchSize⟩
    rw [hAssoc] at hLength ⊢
    cases route with
    | none =>
      have hFree : e = FibEntry.free := hHead
      have hNone' : ∀ r : Route, some r ∈ routes ++ [none] → r.address ≠ dst := by
        intro r hr
        exact hNone r (by simpa using hr)
      have hChosen' := hChosen.snoc_other (x := none) (by simp) (by simp)
      rcases ih hRest hSeen' hLength hNone' hChosen' with ⟨res, hRun, hFound⟩
      refine ⟨res, ?_, hFound⟩
      refine bind_eq_some.mpr ⟨e, s, hExpire, ?_⟩
      have hGlobal : e.global = none := by
        rw [hFree]
        rfl
      rw [if_neg (fun hBoth => hBoth.2 hGlobal)]
      rw [List.length_append, List.length_singleton] at hRun
      exact hRun
    | some r =>
      rcases hHead with ⟨_, hLen, ⟨c, hRead, hAddr⟩, _⟩
      have hGlobal : e.global ≠ none := by
        intro hEq
        rw [hEq] at hRead
        cases hRead
      have hSize : c.address.length = dst.length := by
        rw [hAddr]
        exact hLength r (by simp)
      have hComp : uaCompare e.global dst (dst.length * 8) s = _ := uaCompare_eq hRead _
      rw [universalAddressCompare_eq hSize, hAddr] at hComp
      have hStep : ∀ {res : FibRet × Option Nat} {ret : UaMatch}
            {m : Nat}, uaCompare e.global dst (dst.length * 8) s = some ((ret, m), s) →
            (if ret = .equal ∨ (dst.all (fun b => b == 0) = true ∧ ret = .isAllZeroAddress) then
              return (.one, some seen.length)
            else
              fibFindLoop dst now
                (dst.all (fun b => b == 0)) rest
                (seen.length + 1)
                (v.next dst.length seen.length e ret m) :
              FibM size pool (FibRet × Option Nat)) s = some (res, s) →
            fibFindLoop dst now
                (dst.all (fun b => b == 0)) (e :: rest)
                seen.length v s = some (res, s) := by
        intro res ret m hCompare hRun
        refine bind_eq_some.mpr ⟨e, s, hExpire, ?_⟩
        rw [if_pos ⟨hPrefix, hGlobal⟩, hMatchSize]
        exact bind_eq_some.mpr ⟨(ret, m), s, hCompare, hRun⟩
      have hExact : r.address = dst →
            FoundBy dst ((routes ++ [some r]) ++ routes') (.one, some seen.length) := by
        intro hEq
        refine Or.inl ⟨seen.length, r, ?_, hEq, rfl⟩
        rw [hSeen]
        simp
      have hNone' :
          r.address ≠ dst → ∀ r' : Route, some r' ∈ routes ++ [some r] → r'.address ≠ dst := by
        intro hNe r' hr'
        rcases List.mem_append.mp hr' with hIn | hIn
        · exact hNone r' hIn
        · cases List.mem_singleton.mp hIn
          exact hNe
      have hNext :
          ∀ {v' : FibSearch}, r.address ≠ dst → Chosen dst (routes ++ [some r]) v' → ∃ res,
              fibFindLoop dst now
                  (dst.all (fun b => b == 0)) rest
                  (seen.length + 1) v' s = some (res, s) ∧
                FoundBy dst ((routes ++ [some r]) ++ routes')
                  res := by
        intro v' hNe hChosen'
        have hNext := ih hRest hSeen' hLength (hNone' hNe) hChosen'
        rw [List.length_append, List.length_singleton] at hNext
        exact hNext
      cases hZero : allZero r.address with
      | true =>
        rw [hZero, if_pos rfl] at hComp
        cases hDst : dst.all (fun b => b == 0) with
        | true =>
          -- two addresses that are all zero
          have hEq : r.address = dst := eq_of_allZero hZero hDst (hAddr ▸ hSize)
          refine ⟨_, hDst ▸ hStep hComp ?_, hExact hEq⟩
          rw [if_pos (Or.inr ⟨hDst, rfl⟩)]
          rfl
        | false =>
          have hNe : r.address ≠ dst := by
            intro hEq
            rw [hEq, allZero, hDst] at hZero
            cases hZero
          rcases hNext hNe (hChosen.snoc_zero e hZero) with ⟨res, hRun, hFound⟩
          refine ⟨res, hDst ▸ hStep hComp ?_, hFound⟩
          rw [if_neg, hSeen]
          · rw [hSeen] at hRun
            exact hRun
          · rintro (hEqual | ⟨hAll, _⟩)
            · cases hEqual
            · rw [hDst] at hAll
              cases hAll
      | false =>
        rw [hZero, if_neg Bool.false_ne_true] at hComp
        by_cases hEq : r.address = dst
        · rw [if_pos hEq] at hComp
          refine ⟨_, hStep hComp ?_, hExact hEq⟩
          rw [if_pos (Or.inl rfl)]
          rfl
        · rw [if_neg hEq] at hComp
          rcases hNext hEq (hChosen.snoc_prefix e hLen hZero) with ⟨res, hRun, hFound⟩
          refine ⟨res, hStep hComp ?_, hFound⟩
          rw [if_neg, hSeen]
          · rw [hSeen] at hRun
            exact hRun
          · rintro (hEqual | ⟨_, hEqual⟩)
            · cases hEqual
            · cases hEqual

----
-- The Lookup
----

/- The table while it is locked, after the clock was read. -/
def FibTable.searched
    (s : FibTable size pool) : FibTable size pool :=
  { s with mtxAccess := true, reads := s.reads + 1 }

theorem fibFindEntry_spec
    (hTable : RouteTable s routes) (hRoutes : WellFormedRoutes routes dst.length) :
    ∃ res, fibFindEntry dst { s with mtxAccess := true } =
          some (res, s.searched) ∧ FoundBy dst routes res := by
  have hStart : Chosen dst [] ⟨0, dst.length * 8, .ehostunreach, none⟩ := by
    refine .nothing ?_ ?_
    · intro r hr
      cases hr
    · intro r hr
      cases hr
  have hNone : ∀ r : Route, some r ∈ ([] : List (Option Route)) → r.address ≠ dst := by
    intro r hr
    cases hr
  have hEntries : s.searched.entries = [] ++ s.entries := rfl
  have hSeen : ([] : List FibEntry).length = ([] : List (Option Route)).length := rfl
  rcases fibFindLoop_spec hRoutes.size_pos hEntries hSeen
    hTable.holds hRoutes.length hNone hStart with
    ⟨res, hRun, hFound⟩
  exact ⟨res, hRun, hFound⟩

/- The end of a lookup that found an entry. -/
theorem fibNextHopOf_eq
    {now i nextHopSize : Nat} {e : FibEntry} {ret : FibRet} {r : Route}
    (hHolds : HoldsRoute s.ua now e (some r)) (hEntry : s.entries[i]? = some e)
    (hRet : ret = .ok ∨ ret = .one) :
    fibNextHopOf nextHopSize (ret, some i) s =
      some (lookupResult s nextHopSize (some i), { s with mtxAccess := false }) := by
  rcases hHolds with ⟨_, _, _, c, hRead⟩
  have hGet : fibEntry (some i) s = some ((i, e), s) := by
    unfold fibEntry
    refine bind_eq_some.mpr ⟨s, s, rfl, ?_⟩
    simp only [hEntry]
    rfl
  unfold fibNextHopOf
  rw [if_pos hRet]
  refine bind_eq_some.mpr ⟨(i, e), s, hGet, ?_⟩
  refine bind_eq_some.mpr ⟨c, s, uaContainer_eq hRead, ?_⟩
  unfold lookupResult nextHopOf universalAddressGetAddress
  simp only [hEntry, hRead]
  by_cases hFits : c.address.length ≤ nextHopSize
  · simp only [if_pos hFits]
    rfl
  · simp only [if_neg hFits]
    rfl

/- The lookup takes the entry that the search found. -/
theorem fibGetNextHop_spec
    (hTable : RouteTable s routes) (hRoutes : WellFormedRoutes routes dst.length)
    (nextHopSize : Nat) :
    ∃ res s', FoundBy dst routes res ∧ fibGetNextHop true true nextHopSize (some dst) s =
          some (lookupResult s nextHopSize res.2, s') := by
  rcases fibFindEntry_spec hTable hRoutes with ⟨res, hFind, hFound⟩
  refine ⟨res, { s.searched with mtxAccess := false }, hFound, ?_⟩
  have hLock : fibLock s = some ((), { s with mtxAccess := true }) := by
    unfold fibLock
    refine bind_eq_some.mpr ⟨s, s, rfl, ?_⟩
    rw [if_neg (by rw [hTable.unlocked]; exact Bool.false_ne_true)]
    rfl
  have hEnd : ∀ {i : Nat} {ret : FibRet} {r : Route},
        routes[i]? = some (some r) → (ret = .ok ∨ ret = .one) →
        fibNextHopOf nextHopSize (ret, some i) s.searched =
          some (lookupResult s nextHopSize (some i), { s.searched with mtxAccess := false }) := by
    intro i ret r hRoute hRet
    rcases List.getElem?_eq_some_iff.mp hRoute with ⟨hi, hGet⟩
    have hLen := hTable.holds.length_eq
    have hEntry : s.entries[i]? = some s.entries[i] := List.getElem?_eq_getElem (by omega)
    have hHolds : HoldsRoute s.ua (s.clock s.reads) s.entries[i] routes[i] :=
      List.Forall₂.get hTable.holds (by omega) hi
    rw [hGet] at hHolds
    exact fibNextHopOf_eq hHolds hEntry hRet
  unfold fibGetNextHop
  refine bind_eq_some.mpr ⟨(), { s with mtxAccess := true }, hLock, ?_⟩
  rw [if_neg (by decide)]
  refine bind_eq_some.mpr ⟨res, s.searched, hFind, ?_⟩
  rcases hFound with ⟨i, r, hRoute, _, rfl⟩ | ⟨_, v, hChosen, rfl⟩
  · rw [if_neg (fun hBoth => hBoth.2 rfl)]
    exact hEnd hRoute (Or.inr rfl)
  · cases hChosen with
    | nothing hPass hZero =>
      -- there is no routing protocol to ask
      rw [if_pos ⟨(fun h => by cases h), (fun h => by cases h)⟩]
      refine bind_eq_some.mpr ⟨false, s.searched, ?_, ?_⟩
      · unfold fibSignalRp
        refine bind_eq_some.mpr ⟨s.searched, s.searched, rfl, ?_⟩
        have hNoRp : s.searched.prefixRp = [] := hTable.noRp
        rw [hNoRp]
        rfl
      · rw [if_neg (by decide)]
        rfl
    | zero hPass hRoute hZero =>
      rw [if_neg (fun hBoth => hBoth.1 rfl)]
      exact hEnd hRoute (Or.inl rfl)
    | best hRoute hPass hBest =>
      rw [if_neg (fun hBoth => hBoth.1 rfl)]
      exact hEnd hRoute (Or.inl rfl)

end

----
-- Bits of Addresses
----

theorem addrBits_cons
    (b : UInt8) (addr : List UInt8) :
    addrBits (b :: addr) = (List.range 8).map (fun j => b.toNat.testBit (7 - j)) ++ addrBits addr :=
  rfl

theorem addrBits_length
    (addr : List UInt8) :
    (addrBits addr).length = addr.length * 8 := by
  induction addr with
  | nil => rfl
  | cons b addr ih =>
    rw [addrBits_cons, List.length_append, ih]
    simp only [List.length_map, List.length_range, List.length_cons]
    omega

/- A byte is known by its bits. -/
theorem byte_eq_of_bits
    {x y : UInt8}
    (hBits : (List.range 8).map (fun j => x.toNat.testBit (7 - j)) =
        (List.range 8).map (fun j => y.toNat.testBit (7 - j))) :
    x = y := by
  apply UInt8.toNat_inj.mp
  apply Nat.eq_of_testBit_eq
  intro j
  by_cases hj : j < 8
  · have hBit := congrArg (fun l => l[7 - j]?) hBits
    simp only [List.getElem?_map, List.getElem?_range (show 7 - j < 8 by omega), Option.map_some,
      Option.some.injEq] at hBit
    rwa [show 7 - (7 - j) = j by omega] at hBit
  · have hPow : 2 ^ 8 ≤ 2 ^ j := Nat.pow_le_pow_right (by decide) (by omega)
    rw [Nat.testBit_lt_two_pow (Nat.lt_of_lt_of_le x.toNat_lt hPow),
      Nat.testBit_lt_two_pow (Nat.lt_of_lt_of_le y.toNat_lt hPow)]

theorem eq_of_addrBits
    {a b : List UInt8} (hLength : a.length = b.length)
    (hBits : addrBits a = addrBits b) :
    a = b := by
  induction a generalizing b with
  | nil => exact (List.eq_nil_of_length_eq_zero hLength.symm).symm
  | cons x a ih =>
    cases b with
    | nil => simp at hLength
    | cons y b =>
      rw [addrBits_cons, addrBits_cons] at hBits
      rcases List.append_inj hBits (by simp) with ⟨hByte, hRest⟩
      rw [byte_eq_of_bits hByte, ih (by simpa using hLength) hRest]

/- An address is all zero if its bits are. -/
theorem allZero_iff_addrBits
    {a : List UInt8} :
    allZero a = true ↔ ∀ b ∈ addrBits a, b = false := by
  constructor
  · intro hZero b hb
    unfold addrBits at hb
    rcases List.mem_flatMap.mp hb with ⟨x, hx, hBit⟩
    have hx0 : x = 0 := by
      simpa using List.all_eq_true.mp hZero x hx
    rcases List.mem_map.mp hBit with ⟨j, _, rfl⟩
    rw [hx0]
    exact Nat.zero_testBit _
  · intro hBits
    apply List.all_eq_true.mpr
    intro x hx
    have hZero : x = 0 := by
      apply byte_eq_of_bits
      apply List.map_congr_left
      intro j hj
      have hIn : x.toNat.testBit (7 - j) ∈ addrBits a :=
        List.mem_flatMap.mpr ⟨x, hx, List.mem_map.mpr ⟨j, hj, rfl⟩⟩
      rw [hBits _ hIn]
      exact (Nat.zero_testBit _).symm
    simp [hZero]

----
-- Unique Matches
----

section

variable {dst : List UInt8} {routes : List (Option Route)} {r r' : Route}

section

variable (h : WellFormedRoutes routes dst.length) (hr : some r ∈ routes)

include h hr

/- Two matches of the same length are the same address. -/
theorem WellFormedRoutes.eq_of_matches
    (hr' : some r' ∈ routes) (hMatch : r.Matches dst) (hMatch' : r'.Matches dst)
    (hLen : r.len = r'.len) :
    r.address = r'.address := by
  have hLength : r.address.length = r'.address.length := by
    rw [h.length r hr, h.length r' hr']
  apply eq_of_addrBits hLength
  rw [← List.take_append_drop r.len (addrBits r.address),
    ← List.take_append_drop r.len (addrBits r'.address)]
  have hTake : (addrBits r.address).take r.len = (addrBits r'.address).take r.len := by
    rw [hMatch, hLen]
    exact hMatch'.symm
  have hDrop : (addrBits r.address).drop r.len = (addrBits r'.address).drop r.len := by
    have hRep : ∀ {l : List Bool}, (∀ b ∈ l, b = false) → l = List.replicate l.length false := by
      intro l hl
      exact List.eq_replicate_iff.mpr ⟨rfl, hl⟩
    rw [hRep (h.zero r hr), hLen, hRep (h.zero r' hr')]
    simp [addrBits_length, hLength]
  rw [hTake, hDrop]

/- A default route that matches is the shortest match. -/
theorem WellFormedRoutes.len_lt_of_allZero
    (hMatch : r.Matches dst) (hMatch' : r'.Matches dst)
    (hZero : allZero r.address = false) (hZero' : allZero r'.address = true) :
    r'.len < r.len := by
  by_contra hNot
  have hLe : r.len ≤ r'.len := Nat.le_of_not_lt hNot
  have hFalse : allZero r.address = true := by
    rw [allZero_iff_addrBits]
    intro b hb
    rw [← List.take_append_drop r.len (addrBits r.address)] at hb
    rcases List.mem_append.mp hb with hTake | hDrop
    · -- these bits are bits of the default route
      have hSame : (addrBits r.address).take r.len = (addrBits r'.address).take r.len := by
        have hShort := congrArg (fun l => l.take r.len) hMatch'
        simp only [List.take_take, Nat.min_eq_left hLe] at hShort
        rw [hMatch]
        exact hShort.symm
      rw [hSame] at hTake
      exact allZero_iff_addrBits.mp hZero' b (List.mem_of_mem_take hTake)
    · exact h.zero r hr b hDrop
  rw [hZero] at hFalse
  cases hFalse

/- A route that is not all zero has a length. -/
theorem WellFormedRoutes.len_ne_zero
    (hZero : allZero r.address = false) :
    r.len ≠ 0 := by
  intro hLen
  have hAll := h.zero r hr
  rw [hLen, List.drop_zero, ← allZero_iff_addrBits, hZero] at hAll
  cases hAll

/- If some route matches, one of the longest does. -/
theorem WellFormedRoutes.exists_longest
    (hZero : allZero r.address = false) (hMatch : r.Matches dst) :
    ∃ (i : Nat) (r₁ : Route), routes[i]? = some (some r₁) ∧
      allZero r₁.address = false ∧ r₁.Matches dst ∧
      ∀ r', some r' ∈ routes → r'.Matches dst → r'.len ≤ r₁.len := by
  classical
  let matching := (routes.filterMap id).toFinset.filter (fun r =>
      allZero r.address = false ∧ r.Matches dst)
  have hMem :
      ∀ r', r' ∈ matching ↔ some r' ∈ routes ∧ allZero r'.address = false ∧ r'.Matches dst := by
    intro r'
    simp [matching]
  rcases matching.exists_max_image Route.len
    ⟨r, (hMem r).mpr ⟨hr, hZero, hMatch⟩⟩ with ⟨r₁, hIn, hMax⟩
  rcases (hMem r₁).mp hIn with ⟨hr₁, hZero₁, hMatch₁⟩
  rcases List.getElem?_of_mem hr₁ with ⟨i, hi⟩
  refine ⟨i, r₁, hi, hZero₁, hMatch₁, ?_⟩
  intro r' hr' hMatch'
  cases hZero' : allZero r'.address with
  | true => exact Nat.le_of_lt (h.len_lt_of_allZero hr₁ hMatch₁ hMatch' hZero₁ hZero')
  | false => exact hMax r' ((hMem r').mpr ⟨hr', hZero', hMatch'⟩)

end

/- There is one default route at most. -/
theorem WellFormedRoutes.eq_of_allZero
    {i : Nat} (h : WellFormedRoutes routes dst.length)
    (hRoute : routes[i]? = some (some r)) (hZero : allZero r.address = true)
    (hr' : some r' ∈ routes) (hZero' : allZero r'.address = true) :
    r' = r := by
  have hr := List.mem_of_getElem? hRoute
  have hEq : r.address = r'.address :=
    Riot.eq_of_allZero hZero hZero' ((h.length r hr).trans (h.length r' hr').symm)
  rcases List.getElem?_of_mem hr' with ⟨j, hj⟩
  have hij := h.distinct i j r r' hRoute hj hEq
  subst hij
  rw [hRoute] at hj
  cases hj
  rfl

----
-- The Condition
----

/-
  Some route has the address of the destination. Otherwise the
  longest match passes with the greatest count, at the first
  position with this count, and if no route matches no route
  passes.
-/
def CountsRight
    (routes : List (Option Route)) (dst : List UInt8) : Prop :=
  (∃ r, some r ∈ routes ∧ r.address = dst) ∨
  ((∀ (i : Nat) (r : Route), routes[i]? = some (some r) →
      allZero r.address = false → r.Matches dst →
      (∀ r', some r' ∈ routes → r'.Matches dst → r'.len ≤ r.len) →
      r.len ≤ matchCount r.address dst ∧ ∀ (j : Nat) (r' : Route), routes[j]? = some (some r') →
          j ≠ i → r'.Passes dst → matchCount r'.address dst < matchCount r.address dst ∨
            (matchCount r'.address dst = matchCount r.address dst ∧ i < j)) ∧
    ((∀ r, some r ∈ routes → allZero r.address = false → ¬ r.Matches dst) →
      ∀ r, some r ∈ routes → ¬ r.Passes dst))

/- What the search finds is the longest match. -/
theorem longestMatch_of_foundBy
    {res : FibRet × Option Nat} (h : WellFormedRoutes routes dst.length)
    (hCounts : CountsRight routes dst) (hFound : FoundBy dst routes res) :
    LongestMatch routes dst res.2 := by
  rcases hFound with ⟨i, r, hRoute, hEq, rfl⟩ | ⟨hNone, v, hChosen, rfl⟩
  · exact .exact hRoute hEq
  rcases hCounts with ⟨r, hr, hEq⟩ | ⟨hFirst, hOther⟩
  · exact absurd hEq (hNone r hr)
  -- without a pass there is no match but the default route
  have hNoMatch : (∀ r, some r ∈ routes → ¬ r.Passes dst) →
        ∀ r, some r ∈ routes → allZero r.address = false → ¬ r.Matches dst := by
    intro hPass r hr hZero hMatch
    rcases h.exists_longest hr hZero hMatch with ⟨i, r₁, hRoute, hZero₁, hMatch₁, hMax⟩
    have hr₁ := List.mem_of_getElem? hRoute
    exact hPass r₁ hr₁
      ⟨hZero₁, h.len_ne_zero hr₁ hZero₁, (hFirst i r₁ hRoute hZero₁ hMatch₁ hMax).1⟩
  cases hChosen with
  | nothing hPass hZero =>
    refine .unreachable hNone ?_ hZero
    intro r hr
    exact hNoMatch hPass r hr (hZero r hr)
  | zero hPass hRoute hZero =>
    rename_i i r₀
    by_cases hMatch : r₀.Matches dst
    · refine .longest hNone hRoute hMatch ?_
      intro r' hr' hMatch'
      cases hZero' : allZero r'.address with
      | true => rw [h.eq_of_allZero hRoute hZero hr' hZero']
      | false => exact absurd hMatch' (hNoMatch hPass r' hr' hZero')
    · refine .default hNone ?_ hRoute hZero
      intro r' hr'
      cases hZero' : allZero r'.address with
      | true =>
        rw [h.eq_of_allZero hRoute hZero hr' hZero']
        exact hMatch
      | false => exact hNoMatch hPass r' hr' hZero'
  | best hRoute hPass hBest =>
    rename_i i r₀
    have hr₀ := List.mem_of_getElem? hRoute
    by_cases hSome : ∃ r, some r ∈ routes ∧ allZero r.address = false ∧ r.Matches dst
    · rcases hSome with ⟨r, hr, hZero, hMatch⟩
      rcases h.exists_longest hr hZero hMatch with ⟨k, r₁, hk, hZero₁, hMatch₁, hMax⟩
      rcases hFirst k r₁ hk hZero₁ hMatch₁ hMax with ⟨hLe, hBest₁⟩
      have hPass₁ : r₁.Passes dst := ⟨hZero₁, h.len_ne_zero (List.mem_of_getElem? hk) hZero₁, hLe⟩
      have hik : i = k := by
        by_contra hNe
        have hLeft := hBest k r₁ hk hPass₁
        have hRight := hBest₁ i r₀ hRoute hNe hPass
        omega
      subst hik
      rw [hRoute] at hk
      cases hk
      exact .longest hNone hRoute hMatch₁ hMax
    · exfalso
      refine hOther ?_ r₀ hr₀ hPass
      intro r hr hZero hMatch
      exact hSome ⟨r, hr, hZero, hMatch⟩

----
-- A Table for Given Routes
----

/- The entry for a route, with its position as interface. -/
def routeEntry
    (i : Nat) : Option Route → FibEntry
| none => FibEntry.free
| some r => ⟨i, fibLifetimeNoExpire, some i, r.len <<< 24, some i, 0⟩

/- The next hop of each route is the address of the route. -/
def routeTable
    (routes : List (Option Route)) : FibTable size pool where
  mtxAccess := false
  entries := routes.mapIdx routeEntry
  headers := fun _ => ⟨0, 0, 0⟩
  links := fun _ => .null
  srDest := fun _ => none
  address := fun _ => none
  prefixRp := []
  ua :=
    ⟨routes.map (fun route =>
      ⟨1, (route.map Route.address).getD []⟩), routes.length⟩
  clock := fun _ => 0
  reads := 0

theorem fibPrefixLen_shiftLeft
    {len : Nat} (hLt : len < 2 ^ 8) :
    fibPrefixLen (len <<< 24) = len := by
  have hAll : ∀ n < 2 ^ 8, fibPrefixLen (n <<< 24) = n := by
    decide +kernel
  exact hAll len hLt

theorem routeTable_read
    {i : Nat} (hRoute : routes[i]? = some (some r)) :
    (routeTable routes : FibTable size pool).ua.read (some i) = some ⟨1, r.address⟩ := by
  simp [UaTable.read, routeTable, hRoute]

theorem routeTable_routes
    (h : WellFormedRoutes routes dst.length) :
    RouteTable (routeTable routes : FibTable size pool) routes := by
  refine ⟨rfl, rfl, ?_⟩
  rw [List.forall₂_iff_get]
  refine ⟨by simp [routeTable], ?_⟩
  intro i h₁ h₂
  have hEntry : (routeTable routes : FibTable size pool).entries.get
          ⟨i, h₁⟩ = routeEntry i (routes.get ⟨i, h₂⟩) := by
    simp [routeTable]
  rw [hEntry]
  cases hRoute : routes.get ⟨i, h₂⟩ with
  | none => rfl
  | some r =>
    have hGet : routes[i]? = some (some r) := by
      rw [List.getElem?_eq_getElem h₂]
      exact congrArg some hRoute
    have hRead :
        (routeTable routes : FibTable size pool).ua.read (some i) = some ⟨1, r.address⟩ :=
      routeTable_read hGet
    exact ⟨Or.inl rfl, fibPrefixLen_shiftLeft (h.len_lt r (List.mem_of_getElem? hGet)),
      ⟨_, hRead, rfl⟩, ⟨_, hRead⟩⟩

/- The result tells which route was taken. -/
theorem lookupResult_routeTable
    {i : Nat} (h : WellFormedRoutes routes dst.length)
    (hRoute : routes[i]? = some (some r)) :
    lookupResult (routeTable routes : FibTable size pool)
        dst.length (some i) = (.ok, some ⟨i, r.address, 0⟩) := by
  have hEntry :
      (routeTable routes : FibTable size pool).entries[i]? = some (routeEntry i (some r)) := by
    simp [routeTable, hRoute]
  have hRead : (routeTable routes : FibTable size pool).ua.read
          (routeEntry i (some r)).nextHop = some ⟨1, r.address⟩ := routeTable_read hRoute
  have hFits : r.address.length ≤ dst.length :=
    Nat.le_of_eq (h.length r (List.mem_of_getElem? hRoute))
  unfold lookupResult nextHopOf
  simp only [hEntry, hRead, if_pos hFits]
  rfl

/- A position that is taken holds a route. -/
theorem LongestMatch.route
    {i : Nat} (h : LongestMatch routes dst (some i)) :
    ∃ r : Route, routes[i]? = some (some r) := by
  cases h with
  | exact hRoute _ => exact ⟨_, hRoute⟩
  | longest _ hRoute _ _ => exact ⟨_, hRoute⟩
  | default _ _ hRoute _ => exact ⟨_, hRoute⟩

theorem FoundBy.route
    {i : Nat} {ret : FibRet} (h : FoundBy dst routes (ret, some i)) :
    ∃ r : Route, routes[i]? = some (some r) := by
  rcases h with ⟨j, r, hRoute, _, hEq⟩ | ⟨_, v, hChosen, hEq⟩
  · cases hEq
    exact ⟨r, hRoute⟩
  · cases hChosen with
    | nothing => cases hEq
    | zero _ hRoute _ =>
      cases hEq
      exact ⟨_, hRoute⟩
    | best hRoute _ _ =>
      cases hEq
      exact ⟨_, hRoute⟩

section

variable (h : WellFormedRoutes routes dst.length)

include h

/- Equal results come from the same position. -/
theorem position_eq
    {m m' : Option Nat} (hm : ∀ i, m = some i → ∃ r : Route, routes[i]? = some (some r))
    (hm' : ∀ i, m' = some i → ∃ r : Route, routes[i]? = some (some r))
    (hEq : lookupResult (routeTable routes : FibTable size pool)
          dst.length m = lookupResult (routeTable routes : FibTable size pool) dst.length m') :
    m = m' := by
  cases m with
  | none =>
    cases m' with
    | none => rfl
    | some j =>
      rcases hm' j rfl with ⟨r, hr⟩
      rw [lookupResult_routeTable h hr] at hEq
      cases hEq
  | some i =>
    rcases hm i rfl with ⟨r, hr⟩
    rw [lookupResult_routeTable h hr] at hEq
    cases m' with
    | none => cases hEq
    | some j =>
      rcases hm' j rfl with ⟨r', hr'⟩
      rw [lookupResult_routeTable h hr'] at hEq
      simp only [Prod.mk.injEq, Option.some.injEq, FibHop.mk.injEq] at hEq
      rw [hEq.2.1]

/- The counts are right if the search finds longest matches. -/
theorem countsRight_of_longestMatch
    {res : FibRet × Option Nat} (hFound : FoundBy dst routes res)
    (hLongest : LongestMatch routes dst res.2) :
    CountsRight routes dst := by
  rcases hFound with ⟨i, r, hRoute, hEq, rfl⟩ | ⟨hNone, v, hChosen, rfl⟩
  · exact Or.inl ⟨r, List.mem_of_getElem? hRoute, hEq⟩
  refine Or.inr ⟨?_, ?_⟩
  · intro i r hRoute hZero hMatch hMax
    have hr := List.mem_of_getElem? hRoute
    -- the longest match is the one that the search took
    have hEntry : v.entry = some i := by
      have hAt : ∀ {m}, LongestMatch routes dst m → m = some i := by
        intro m hm
        cases hm with
        | exact hRoute' hEq => exact absurd hEq (hNone _ (List.mem_of_getElem? hRoute'))
        | longest hNone' hRoute' hMatch' hMax' =>
          rename_i j r'
          have hr' := List.mem_of_getElem? hRoute'
          have hLen : r.len = r'.len := Nat.le_antisymm (hMax' r hr hMatch) (hMax r' hr' hMatch')
          have hAddr := h.eq_of_matches hr hr' hMatch hMatch' hLen
          rw [h.distinct i j r r' hRoute hRoute' hAddr]
        | default _ hMatch' _ _ => exact absurd hMatch (hMatch' r hr)
        | unreachable _ hMatch' _ => exact absurd hMatch (hMatch' r hr)
      exact hAt hLongest
    cases hChosen with
    | nothing => cases hEntry
    | zero _ hRoute' hZero' =>
      cases hEntry
      rw [hRoute] at hRoute'
      cases hRoute'
      rw [hZero] at hZero'
      cases hZero'
    | best hRoute' hPass hBest =>
      cases hEntry
      rw [hRoute] at hRoute'
      cases hRoute'
      refine ⟨hPass.2.2, ?_⟩
      intro j r' hr' hj hPass'
      have hOrder := hBest j r' hr' hPass'
      omega
  · intro hNoMatch r hr hPass
    cases hChosen with
    | nothing hNoPass _ => exact hNoPass r hr hPass
    | zero hNoPass _ _ => exact hNoPass r hr hPass
    | best hRoute hPass₀ hBest =>
      rename_i i r₀
      have hLongest' : LongestMatch routes dst (some i) := hLongest
      cases hLongest' with
      | exact hRoute' hEq => exact hNone _ (List.mem_of_getElem? hRoute') hEq
      | longest _ hRoute' hMatch _ =>
        rw [hRoute] at hRoute'
        cases hRoute'
        exact hNoMatch r₀ (List.mem_of_getElem? hRoute) hPass₀.1 hMatch
      | default _ _ hRoute' hZero =>
        rw [hRoute] at hRoute'
        cases hRoute'
        rw [hPass₀.1] at hZero
        cases hZero

end

end

----
-- A Lookup
----

/- The prefix fe80::/10. -/
def linkLocalRoute : Route :=
  ⟨[0xfe, 0x80, 0, 0, 0, 0, 0, 0, 0, 0, 0, 0, 0, 0, 0, 0], 10⟩

/- The address fe81::1. -/
def linkLocalDst : List UInt8 :=
  [0xfe, 0x81, 0, 0, 0, 0, 0, 0, 0, 0, 0, 0, 0, 0, 0, 1]

theorem wellFormedRoutes_singleton
    {r : Route} {n : Nat} (hPos : 0 < n) (hLength : r.address.length = n)
    (hLen : r.len < 2 ^ 8)
    (hZero : ∀ b ∈ (addrBits r.address).drop r.len, b = false) :
    WellFormedRoutes [some r] n := by
  have hMem : ∀ r', some r' ∈ [some r] → r' = r := by
    intro r' hr'
    cases List.mem_singleton.mp hr'
    rfl
  refine ⟨hPos, ?_, ?_, ?_, ?_⟩
  · intro r' hr'
    rw [hMem r' hr']
    exact hLength
  · intro r' hr'
    rw [hMem r' hr']
    exact hLen
  · intro r' hr'
    rw [hMem r' hr']
    exact hZero
  · intro i j r₁ r₂ h₁ h₂ _
    have hi := (List.getElem?_eq_some_iff.mp h₁).1
    have hj := (List.getElem?_eq_some_iff.mp h₂).1
    simp only [List.length_singleton] at hi hj
    omega

theorem linkLocal_wellFormed :
    WellFormedRoutes [some linkLocalRoute] linkLocalDst.length :=
  wellFormedRoutes_singleton (by decide) (by decide) (by decide) (by decide)

end Riot
