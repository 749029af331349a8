import Riot.Net.FibAdd
import Riot.Net.FibLookup

/-
  Routes that are added to a table, and how long they are used.

  The table takes two routes with one address for the same one,
  and computes lifetimes in 32 bits. Otherwise each route is
  found until it expires, whatever else is added.
-/

----
-- References to Containers
----

namespace Riot

/- The address behind a pointer to a container. -/
def UaTable.addrOf
    (t : UaTable) (p : Option Nat) : Option (List UInt8) :=
  (t.read p).map UaContainer.address

def UaTable.useOf
    (t : UaTable) (k : Nat) : Nat :=
  (t.containers[k]?).elim 0 UaContainer.useCount

/- The pointers of an entry to container `k`. -/
def FibEntry.uses
    (e : FibEntry) (k : Nat) : Nat :=
  (if e.global = some k then 1 else 0) + (if e.nextHop = some k then 1 else 0)

def usesOf
    (k : Nat) : List FibEntry → Nat
| [] => 0
| e :: entries => e.uses k + usesOf k entries

variable {t t' : UaTable} {entries : List FibEntry} {e e' : FibEntry} {i k : Nat}

theorem usesOf_set
    (hGet : entries[i]? = some e) :
    usesOf k (entries.set i e') + e.uses k = usesOf k entries + e'.uses k := by
  induction entries generalizing i with
  | nil => cases hGet
  | cons head entries ih =>
    cases i with
    | zero =>
      cases hGet
      simp only [List.set_cons_zero, usesOf]
      omega
    | succ i =>
      have hRest := ih hGet
      simp only [List.set_cons_succ, usesOf]
      omega

theorem uses_le_usesOf
    (hGet : entries[i]? = some e) :
    e.uses k ≤ usesOf k entries := by
  have hSet := @usesOf_set entries e e.cleared i k hGet
  have hZero : e.cleared.uses k = 0 := rfl
  omega

theorem usesOf_le :
    usesOf k entries ≤ 2 * entries.length := by
  induction entries with
  | nil => exact Nat.le_refl 0
  | cons e entries ih =>
    have hTwo : e.uses k ≤ 2 := by
      unfold FibEntry.uses
      split_ifs <;> omega
    rw [usesOf, List.length_cons]
    omega

/- A container that is in use keeps its address. -/
def UaTable.Keeps
    (t t' : UaTable) : Prop :=
  ∀ k, t.useOf k ≠ 0 → t'.addrOf (some k) = t.addrOf (some k)

theorem universalAddressAdd_uses
    {addr : List UInt8} (hSmall : ∀ k, t.useOf k < 255)
    (hAdd : universalAddressAdd t addr = (t', some k)) :
    (∀ j, t'.useOf j = t.useOf j + if some k = some j then 1 else 0) ∧
      t.Keeps t' ∧ t'.addrOf (some k) = some addr := by
  rcases universalAddressAdd_cases t addr with ⟨hNone, _⟩ | ⟨k', c, hGet, hPlace, hSome⟩
  · rw [hAdd] at hNone
    cases hNone
  rw [hAdd] at hSome
  cases hSome
  rcases List.getElem?_eq_some_iff.mp hGet with ⟨hLt, _⟩
  have hUse : t.useOf k = c.useCount := by
    rw [UaTable.useOf, hGet]
    rfl
  have hCount : (c.useCount + 1) % 2 ^ 8 = c.useCount + 1 := by
    have hLess := hSmall k
    omega
  refine ⟨?_, ?_, ?_⟩
  · intro j
    by_cases hEq : k = j
    · subst hEq
      rw [if_pos rfl, hUse, UaTable.useOf, List.getElem?_set_self hLt]
      exact hCount
    · rw [if_neg (fun h => hEq (Option.some.inj h)), UaTable.useOf, List.getElem?_set_ne hEq]
      rfl
  · intro j hUsed
    by_cases hEq : k = j
    · subst hEq
      rcases hPlace with ⟨hAddr, _⟩ | ⟨hUnused, _, _⟩
      · rw [UaTable.addrOf, UaTable.addrOf, UaTable.read, UaTable.read, Option.bind_some,
          Option.bind_some, List.getElem?_set_self hLt, hGet, ← hAddr]
        rfl
      · exact absurd (hUse.trans hUnused) hUsed
    · simp [UaTable.addrOf, UaTable.read, hEq]
  · simp [UaTable.addrOf, UaTable.read, hLt]

theorem universalAddressAdd_none
    {addr : List UInt8} (hAdd : universalAddressAdd t addr = (t', none)) :
    t' = t := by
  rcases universalAddressAdd_cases t addr with ⟨hNone, _⟩ | ⟨_, _, _, _, hSome⟩
  · exact congrArg Prod.fst (hAdd.symm.trans hNone)
  · rw [hAdd] at hSome
    cases hSome

theorem universalAddressRem_uses
    (t : UaTable) (p : Option Nat) :
    (∀ j, (universalAddressRem t p).useOf j = t.useOf j - if p = some j then 1 else 0) ∧
      ∀ q, (universalAddressRem t p).addrOf q = t.addrOf q := by
  rcases universalAddressRem_cases t p with ⟨hRem, hZero⟩ | ⟨k, c, rfl, hGet, _, hRem⟩
  · rw [hRem]
    refine ⟨fun j => ?_, fun _ => rfl⟩
    by_cases hEq : p = some j
    · have hNone : t.useOf j = 0 := by
        cases hGet : t.containers[j]? with
        | none => simp [UaTable.useOf, hGet]
        | some c => simp [UaTable.useOf, hGet, hZero j c hEq hGet]
      rw [hNone]
      exact (Nat.zero_sub _).symm
    · rw [if_neg hEq]
      rfl
  · rcases List.getElem?_eq_some_iff.mp hGet with ⟨hLt, hIn⟩
    rw [hRem]
    refine ⟨fun j => ?_, fun q => ?_⟩
    · by_cases hEq : k = j
      · subst hEq
        simp [UaTable.useOf, hLt, hIn]
      · simp [UaTable.useOf, hEq]
    · cases q with
      | none => rfl
      | some j =>
        by_cases hEq : k = j
        · subst hEq
          simp [UaTable.addrOf, UaTable.read, hLt, hIn]
        · simp [UaTable.addrOf, UaTable.read, hEq]

----
-- Tables that Hold Routes
----

variable {size pool : Nat}

/- A route as it was added, and when it expires. -/
structure FibRoute where
  ifaceId : Nat
  dst : List UInt8
  dstFlags : Nat
  nextHop : List UInt8
  hopFlags : Nat
  deadline : Nat
deriving DecidableEq

structure FibRoute.HeldBy
    (r : FibRoute) (ua : UaTable)
    (e : FibEntry) : Prop where
  lifetime : e.lifetime = r.deadline
  ifaceId : e.ifaceId = r.ifaceId
  dstFlags : e.globalFlags = r.dstFlags
  hopFlags : e.nextHopFlags = r.hopFlags
  dst : ua.addrOf e.global = some r.dst
  nextHop : ua.addrOf e.nextHop = some r.nextHop

/-
  The use counts are those of the entries, no address is in two
  entries, and each route that is not expired has an entry.
-/
structure FibTable.Holds
    (s : FibTable size pool) (now : Nat)
    (routes : List FibRoute) : Prop where
  small : s.entries.length ≤ 127
  uses : ∀ k, s.ua.useOf k = usesOf k s.entries
  distinct :
    ∀ (i j : Nat) (e e' : FibEntry), s.entries[i]? = some e → s.entries[j]? = some e' →
      e.lifetime ≠ 0 → e'.lifetime ≠ 0 → e.global ≠ none →
      s.ua.addrOf e.global = s.ua.addrOf e'.global → i = j
  held :
    ∀ r ∈ routes, now ≤ r.deadline →
      ∃ (i : Nat) (e : FibEntry), s.entries[i]? = some e ∧ r.HeldBy s.ua e

variable {s s' t : FibTable size pool} {routes : List FibRoute} {now : Nat}

namespace FibTable.Holds

theorem useOf_lt
    (h : s.Holds now routes) (k : Nat) :
    s.ua.useOf k < 255 := by
  have hLe := @usesOf_le s.entries k
  rw [← h.uses] at hLe
  have hSmall := h.small
  omega

/- What an entry points to keeps its address. -/
theorem addrOf_eq
    {ua : UaTable} {p : Option Nat} (h : s.Holds now routes)
    (hKeeps : s.ua.Keeps ua) (hGet : s.entries[i]? = some e)
    (hPtr : p = e.global ∨ p = e.nextHop) :
    ua.addrOf p = s.ua.addrOf p := by
  cases p with
  | none => rfl
  | some k =>
    apply hKeeps
    have hLe := @uses_le_usesOf s.entries e i k hGet
    rw [h.uses]
    rcases hPtr with hPtr | hPtr
    all_goals
      rw [FibEntry.uses, ← hPtr, if_pos rfl] at hLe
      omega

/- An entry is replaced that no route needs any longer. -/
theorem set
    {ua : UaTable} (h : s.Holds now routes) (hGet : s.entries[i]? = some e)
    (hKeeps : s.ua.Keeps ua)
    (hUses : ∀ k, ua.useOf k + e.uses k = s.ua.useOf k + e'.uses k)
    (hLost : ∀ r ∈ routes, now ≤ r.deadline → ¬r.HeldBy s.ua e)
    (hDistinct :
      e'.lifetime ≠ 0 → ∀ (j : Nat) e'', j ≠ i → s.entries[j]? = some e'' → e''.lifetime ≠ 0 →
          s.ua.addrOf e''.global ≠ ua.addrOf e'.global) :
    FibTable.Holds { s with ua := ua, entries := s.entries.set i e' } now routes := by
  rcases List.getElem?_eq_some_iff.mp hGet with ⟨hLt, _⟩
  refine ⟨by simpa using h.small, ?_, ?_, ?_⟩
  · intro k
    have hSet := @usesOf_set s.entries e e' i k hGet
    have hSum := hUses k
    rw [h.uses] at hSum
    dsimp only
    omega
  · intro j j' d d' hJ hJ' hLive hLive' hSome hSame
    dsimp only at hJ hJ' hSame
    by_cases hI : j = i <;> by_cases hI' : j' = i
    · rw [hI, hI']
    · subst hI
      rw [List.getElem?_set_self hLt] at hJ
      rw [List.getElem?_set_ne (fun h => hI' h.symm)] at hJ'
      cases hJ
      rw [h.addrOf_eq hKeeps hJ' (Or.inl rfl)] at hSame
      exact absurd hSame.symm (hDistinct hLive j' d' hI' hJ' hLive')
    · subst hI'
      rw [List.getElem?_set_self hLt] at hJ'
      rw [List.getElem?_set_ne (fun h => hI h.symm)] at hJ
      cases hJ'
      rw [h.addrOf_eq hKeeps hJ (Or.inl rfl)] at hSame
      exact absurd hSame (hDistinct hLive' j d hI hJ hLive)
    · rw [List.getElem?_set_ne (fun h => hI h.symm)] at hJ
      rw [List.getElem?_set_ne (fun h => hI' h.symm)] at hJ'
      rw [h.addrOf_eq hKeeps hJ (Or.inl rfl), h.addrOf_eq hKeeps hJ' (Or.inl rfl)] at hSame
      exact h.distinct j j' d d' hJ hJ' hLive hLive' hSome hSame
  · intro r hr hNow
    rcases h.held r hr hNow with ⟨j, d, hJ, hHeld⟩
    have hNe : i ≠ j := by
      rintro rfl
      rw [hGet] at hJ
      cases hJ
      exact hLost r hr hNow hHeld
    refine ⟨j, d, (List.getElem?_set_ne hNe).trans hJ, ?_⟩
    refine { hHeld with dst := ?_, nextHop := ?_ }
    · rw [h.addrOf_eq hKeeps hJ (Or.inl rfl)]
      exact hHeld.dst
    · rw [h.addrOf_eq hKeeps hJ (Or.inr rfl)]
      exact hHeld.nextHop

end FibTable.Holds

----
-- Searching
----

variable {dst : List UInt8}

theorem FibTable.Holds.mono
    {routes' : List FibRoute} {now' : Nat} (h : s.Holds now routes)
    (hNow : now ≤ now') (hSub : ∀ r ∈ routes', r ∈ routes) :
    s.Holds now' routes' :=
  { h with
    held := fun r hr hLate =>
      h.held r (hSub r hr) (hNow.trans hLate) }

theorem FibTable.Holds.expireAt
    (h : s.Holds now routes) (i : Nat) :
    (s.expireAt now i).Holds now routes := by
  unfold FibTable.expireAt
  split
  · exact h
  rename_i e hGet
  split
  · rename_i hExpired
    rcases universalAddressRem_uses s.ua e.global with ⟨hUse, hAddr⟩
    rcases universalAddressRem_uses
      (universalAddressRem s.ua e.global) e.nextHop with
      ⟨hUse', hAddr'⟩
    refine h.set hGet ?_ ?_ ?_ (fun hLive => absurd rfl hLive)
    · intro k _
      rw [hAddr', hAddr]
    · intro k
      have hLe := @uses_le_usesOf s.entries e i k hGet
      rw [← h.uses] at hLe
      have hZero : e.cleared.uses k = 0 := rfl
      rw [hUse', hUse, hZero]
      unfold FibEntry.uses at *
      omega
    · intro r _ hNow hHeld
      have hLife := hHeld.lifetime
      omega
  · exact h

/- What a search leaves, whatever it removes. -/
structure FibTable.Searched
    (now : Nat)
    (s t : FibTable size pool) : Prop where
  frame :
    ∃ ua entries, t = { s with ua := ua, entries := entries }
  kept :
    ∀ (j : Nat) (e : FibEntry), s.entries[j]? = some e → e.Unexpired now → t.entries[j]? = some e
  old : ∀ (j : Nat) (e : FibEntry), t.entries[j]? = some e → e.lifetime ≠ 0 → s.entries[j]? = some e
  addr : ∀ p, t.ua.addrOf p = s.ua.addrOf p

theorem FibTable.searched_expireAt
    (s : FibTable size pool) (now i : Nat) :
    FibTable.Searched now s (s.expireAt now i) := by
  have hRefl : FibTable.Searched now s s :=
    ⟨⟨s.ua, s.entries, rfl⟩, fun _ _ h _ => h, fun _ _ h _ => h, fun _ => rfl⟩
  unfold FibTable.expireAt
  split
  · exact hRefl
  rename_i e hGet
  rcases List.getElem?_eq_some_iff.mp hGet with ⟨hLt, _⟩
  split
  · rename_i hExpired
    refine ⟨⟨_, _, rfl⟩, ?_, ?_, ?_⟩
    · intro j d hJ hLive
      have hNe : i ≠ j := by
        rintro rfl
        rw [hGet] at hJ
        cases hJ
        rcases hLive with hNever | hLate
        · exact hExpired.1 hNever
        · omega
      exact (List.getElem?_set_ne hNe).trans hJ
    · intro j d hJ hLive
      dsimp only at hJ
      by_cases hEq : i = j
      · subst hEq
        rw [List.getElem?_set_self hLt] at hJ
        cases hJ
        exact absurd rfl hLive
      · rwa [List.getElem?_set_ne hEq] at hJ
    · intro p
      exact ((universalAddressRem_uses _ _).2 p).trans ((universalAddressRem_uses _ _).2 p)
  · exact hRefl

theorem FibTable.Holds.expired
    (h : s.Holds now routes) (i n : Nat) :
    (s.expired now i n).Holds now routes ∧ FibTable.Searched now s (s.expired now i n) := by
  induction n with
  | zero =>
    exact ⟨h, ⟨⟨s.ua, s.entries, rfl⟩, fun _ _ h _ => h, fun _ _ h _ => h, fun _ => rfl⟩⟩
  | succ n ih =>
    rw [FibTable.expired_succ]
    have hStep := FibTable.searched_expireAt (s.expired now i n) now (i + n)
    refine ⟨ih.1.expireAt _, ⟨?_, ?_, ?_, ?_⟩⟩
    · rcases ih.2.frame with ⟨ua, entries, hEq⟩
      rcases hStep.frame with ⟨ua', entries', hEq'⟩
      exact ⟨ua', entries', by rw [hEq', hEq]⟩
    · intro j e hJ hLive
      exact hStep.kept j e (ih.2.kept j e hJ hLive) hLive
    · intro j e hJ hLive
      exact ih.2.old j e (hStep.old j e hJ hLive) hLive
    · intro p
      exact (hStep.addr p).trans (ih.2.addr p)

/- The comparison tells whether the addresses are equal. -/
theorem universalAddressCompare_one
    {c : UaContainer} (hPos : 0 < dst.length) :
    ((universalAddressCompare c dst (dst.length * 8)).1 = .equal ∨
        (dst.all (fun b => b == 0) = true ∧ (universalAddressCompare c dst (dst.length * 8)).1 =
            .isAllZeroAddress) ↔ c.address = dst) ∧
      ((universalAddressCompare c dst (dst.length * 8)).1 = .matchingPrefix →
        (universalAddressCompare c dst (dst.length * 8)).2 < dst.length * 8) := by
  by_cases hSize : c.address.length = dst.length
  · rw [universalAddressCompare_eq hSize]
    have hAll : dst.all (fun b => b == 0) = allZero dst := rfl
    rw [hAll]
    by_cases hZero : allZero c.address = true
    · rw [if_pos hZero]
      refine ⟨⟨?_, ?_⟩, fun h => by cases h⟩
      · rintro (hEq | ⟨hDst, _⟩)
        · cases hEq
        · exact eq_of_allZero hZero hDst hSize
      · rintro rfl
        exact Or.inr ⟨hZero, rfl⟩
    · rw [if_neg hZero]
      by_cases hEq : c.address = dst
      · rw [if_pos hEq]
        exact ⟨iff_of_true (Or.inl rfl) hEq, fun h => by cases h⟩
      · rw [if_neg hEq]
        refine ⟨iff_of_false ?_ hEq, fun _ => ?_⟩
        · rintro (h | ⟨_, h⟩) <;> cases h
        · exact matchCount_lt hSize hPos
  · have hNone : universalAddressCompare c dst (dst.length * 8) = (.enoent, dst.length * 8) := by
      unfold universalAddressCompare
      exact if_pos (fun h => hSize (by omega))
    rw [hNone]
    refine ⟨iff_of_false ?_ ?_, fun h => by cases h⟩
    · rintro (h | ⟨_, h⟩) <;> cases h
    · rintro rfl
      exact hSize rfl

/- A search that can still find the address. -/
def FibSearch.Open
    (v : FibSearch) (dst : List UInt8) : Prop :=
  v.prefixSize < dst.length * 8 ∧ v.matchSize = dst.length * 8 ∧ v.ret ≠ .one

theorem FibSearch.Open.next
    {v : FibSearch} {retComp : UaMatch} {m : Nat} (h : v.Open dst)
    (hLess : retComp = .matchingPrefix → m < dst.length * 8) :
    (v.next dst.length i e retComp m).Open dst := by
  unfold FibSearch.next FibSearch.Open
  split
  · rename_i hPrefix
    exact ⟨hLess hPrefix.1, rfl, by simp⟩
  split
  · exact ⟨h.1, rfl, by simp⟩
  · exact ⟨h.1, rfl, h.2.2⟩

/- One round of the search. -/
theorem fibFindLoop_step
    (rest : List FibEntry) {v : FibSearch} (h : s.Holds now routes)
    (hGet : s.entries[i]? = some e) (hOpen : v.Open dst) (hPos : 0 < dst.length) :
    (e.Unexpired now ∧ s.ua.addrOf e.global = some dst ∧
      fibFindLoop dst now (dst.all (fun b => b == 0)) (e :: rest) i
        v s = some ((.one, some i), s.expireAt now i)) ∨
    ((e.Unexpired now → s.ua.addrOf e.global ≠ some dst) ∧ ∃ v' : FibSearch, v'.Open dst ∧
        fibFindLoop dst now (dst.all (fun b => b == 0)) (e :: rest) i v s =
          fibFindLoop dst now (dst.all (fun b => b == 0)) rest (i + 1) v' (s.expireAt now i)) := by
  have hAt : s.expireAt now i = if e.lifetime ≠ fibLifetimeNoExpire ∧ e.lifetime < now then
        { s with
          ua := universalAddressRem (universalAddressRem s.ua e.global) e.nextHop
          entries := s.entries.set i e.cleared }
      else s := by
    unfold FibTable.expireAt
    rw [hGet]
  by_cases hExpired : e.lifetime ≠ fibLifetimeNoExpire ∧ e.lifetime < now
  · right
    refine ⟨?_, v, hOpen, ?_⟩
    · rintro (hNever | hLate)
      · exact absurd hNever hExpired.1
      · omega
    · rw [hAt, if_pos hExpired, fibFindLoop, fibExpire, if_pos hExpired]
      change (if v.prefixSize < dst.length * 8 ∧ e.cleared.global ≠ none then _ else _ :
          FibM size pool (FibRet × Option Nat)) _ = _
      rw [if_neg (fun hBoth => hBoth.2 rfl)]
  · rw [hAt, if_neg hExpired, fibFindLoop, fibExpire, if_neg hExpired]
    change (e.Unexpired now ∧ _ ∧ (if v.prefixSize < dst.length * 8 ∧ e.global ≠ none then _
        else _ : FibM size pool (FibRet × Option Nat)) s = _) ∨
      (_ ∧ ∃ v', _ ∧ (if v.prefixSize < dst.length * 8 ∧ e.global ≠ none then _ else _ :
        FibM size pool (FibRet × Option Nat)) s = _)
    cases hGlobal : e.global with
    | none =>
      right
      refine ⟨fun _ => Option.some_ne_none dst |>.symm, v, hOpen, ?_⟩
      rw [if_neg (fun hBoth => hBoth.2 rfl)]
    | some k =>
      have hUsed := @uses_le_usesOf s.entries e i k hGet
      rw [← h.uses, FibEntry.uses, hGlobal, if_pos rfl] at hUsed
      cases hRead : s.ua.containers[k]? with
      | none =>
        rw [UaTable.useOf, hRead] at hUsed
        exact absurd hUsed (by simp)
      | some c =>
        have hRead' : s.ua.read (some k) = some c := hRead
        have hAddr : s.ua.addrOf (some k) = some c.address := by
          rw [UaTable.addrOf, hRead']
          rfl
        rcases @universalAddressCompare_one dst c hPos with ⟨hIff, hLess⟩
        rw [if_pos ⟨hOpen.1, Option.some_ne_none k⟩, hAddr, hOpen.2.1]
        have hCompare : uaCompare (some k) dst (dst.length * 8) s = _ := uaCompare_eq hRead' _
        by_cases hEq : c.address = dst
        · left
          refine ⟨?_, congrArg some hEq, ?_⟩
          · rw [not_and_or] at hExpired
            exact hExpired.imp not_not.mp Nat.not_lt.mp
          · refine bind_eq_some.mpr ⟨_, s, hCompare, ?_⟩
            dsimp only
            rw [if_pos (hIff.mpr hEq)]
            rfl
        · right
          refine ⟨fun _ hSame => hEq (Option.some.inj hSame), v.next dst.length i e _ _,
            hOpen.next hLess, ?_⟩
          change ((uaCompare (some k) dst (dst.length * 8) : FibM size pool _) s).bind _ = _
          rw [hCompare, Option.bind_some]
          dsimp only
          rw [if_neg (fun hOne => hEq (hIff.mp hOne))]

/-
  A search returns, and finds the address if it is in an entry
  that is not expired.
-/
theorem fibFindLoop_holds
    (rest : List FibEntry) {v : FibSearch} (h : s.Holds now routes)
    (hRest : ∀ j, s.entries[i + j]? = rest[j]?) (hOpen : v.Open dst)
    (hPos : 0 < dst.length) (hNow : 0 < now) :
    ∃ n found,
      fibFindLoop dst now (dst.all (fun b => b == 0)) rest i v s = some (found, s.expired now i n) ∧
      (found.1 ≠ .one → n = rest.length ∧
        ∀ e ∈ rest, e.Unexpired now → s.ua.addrOf e.global ≠ some dst) ∧
      (found.1 = .one → ∃ (j : Nat) (e : FibEntry), found.2 = some j ∧
        s.entries[j]? = some e ∧ e.Unexpired now ∧ s.ua.addrOf e.global = some dst) := by
  induction rest generalizing s i v with
  | nil =>
    exact ⟨0, (v.ret, v.entry), rfl, fun _ => ⟨rfl, by simp⟩, fun hOne => absurd hOne hOpen.2.2⟩
  | cons e rest ih =>
    have hGet : s.entries[i]? = some e := hRest 0
    rcases fibFindLoop_step rest h hGet hOpen hPos with
      ⟨hLive, hAddr, hRun⟩ | ⟨hOther, v', hOpen', hRun⟩
    · exact ⟨1, _, hRun, fun hNot => absurd rfl hNot, fun _ => ⟨i, e, rfl, hGet, hLive, hAddr⟩⟩
    · have hSearched := FibTable.searched_expireAt s now i
      have hRest' : ∀ j, (s.expireAt now i).entries[i + 1 + j]? = rest[j]? := by
        intro j
        rw [getElem?_expireAt (by omega), Nat.add_assoc, Nat.add_comm 1 j, hRest (j + 1)]
        rfl
      rcases ih (h.expireAt i) hRest' hOpen' with ⟨n, found, hLoop, hNone, hOne⟩
      refine ⟨n + 1, found, hRun.trans hLoop, ?_, ?_⟩
      · intro hNot
        rcases hNone hNot with ⟨rfl, hRestNone⟩
        refine ⟨rfl, ?_⟩
        intro d hd hLive
        rcases List.mem_cons.mp hd with rfl | hIn
        · exact hOther hLive
        · rw [← hSearched.addr]
          exact hRestNone d hIn hLive
      · intro hIsOne
        rcases hOne hIsOne with ⟨j, d, hFound, hJ, hLive, hAddr⟩
        rw [hSearched.addr] at hAddr
        exact ⟨j, d, hFound, hSearched.old j d hJ (hLive.lifetime_ne_zero hNow), hLive, hAddr⟩

----
-- Adding Routes
----

variable {ms : Nat} {ret : FibRet} {r : FibRoute}

/- The address and the length of the prefix. -/
def FibRoute.key
    (r : FibRoute) : List UInt8 × Nat :=
  (r.dst, fibPrefixLen r.dstFlags)

theorem FibTable.Holds.cons
    {e : FibEntry} (h : s.Holds now routes) (hGet : s.entries[i]? = some e)
    (hHeld : r.HeldBy s.ua e) :
    s.Holds now (r :: routes) := by
  refine { h with held := ?_ }
  intro r' hr' hNow
  rcases List.mem_cons.mp hr' with rfl | hIn
  · exact ⟨i, e, hGet, hHeld⟩
  · exact h.held r' hIn hNow

theorem fibLifetime_eq
    (hMs : ms * 1000 < 2 ^ 32) (hClock : s.clock s.reads + ms * 1000 < 2 ^ 64) :
    fibLifetime ms s = some (s.clock s.reads + ms * 1000, { s with reads := s.reads + 1 }) := by
  have hFinite : ms ≠ 2 ^ 32 - 1 := by omega
  rw [fibLifetime, if_pos hFinite]
  change some ((_ : Nat), _) = _
  rw [Nat.mod_eq_of_lt hMs, Nat.mod_eq_of_lt hClock]

/- What is known about the result of adding a route. -/
structure FibTable.Adds
    (now : Nat) (routes : List FibRoute) (r : FibRoute) (ret : FibRet)
    (t s : FibTable size pool) : Prop where
  holds : s.Holds now routes
  added : ret = .ok → s.Holds now (r :: routes)
  clock : s.clock = t.clock
  reads : t.reads ≤ s.reads

/- The entry of the same route gets the next hop. -/
theorem fibUpdEntry_holds
    {e : FibEntry} (h : t.Holds now routes) (hGet : t.entries[i]? = some e)
    (hLive : e.lifetime ≠ 0) (hMs : ms * 1000 < 2 ^ 32)
    (hClock : t.clock t.reads + ms * 1000 < 2 ^ 64)
    (hAddr : t.ua.addrOf e.global = some r.dst) (hIface : e.ifaceId = r.ifaceId)
    (hFlags : e.globalFlags = r.dstFlags)
    (hDeadline : r.deadline = t.clock t.reads + ms * 1000)
    (hRoutes : ∀ r' ∈ routes, r'.key ≠ r.key)
    (hRun : fibUpdEntry (some i) r.nextHop r.hopFlags ms t = some (ret, s)) :
    ret ≠ .ok ∧ s = t ∨ ret = .ok ∧ FibTable.Adds now routes r ret t s := by
  rcases hUa : universalAddressAdd t.ua r.nextHop with ⟨ua, _ | k⟩
  · simp [fibUpdEntry, bind, StateT.bind, uaAdd_eq, hUa,
      universalAddressAdd_none hUa, pure, stateT_pure] at hRun
    rcases hRun with ⟨rfl, rfl⟩
    exact Or.inl ⟨by simp, rfl⟩
  rcases universalAddressAdd_uses h.useOf_lt hUa with ⟨hUse, hKeeps, hHop⟩
  rcases universalAddressRem_uses ua e.nextHop with ⟨hUse', hAddr'⟩
  have hNew := @fibLifetime_eq _ _ { t with ua := universalAddressRem ua e.nextHop } ms hMs hClock
  simp [fibUpdEntry, bind, StateT.bind, uaAdd_eq, hUa, pure, stateT_pure, fibEntry, get, getThe,
    MonadStateOf.get, StateT.get, hGet, uaRem, modify, modifyGet, MonadStateOf.modifyGet,
    StateT.modifyGet, hNew, fibSetEntry] at hRun
  rcases hRun with ⟨rfl, rfl⟩
  rcases List.getElem?_eq_some_iff.mp hGet with ⟨hLt, _⟩
  have hKeeps' : t.ua.Keeps (universalAddressRem ua e.nextHop) :=
    fun j hj => (hAddr' _).trans (hKeeps j hj)
  have hDst : (universalAddressRem ua e.nextHop).addrOf e.global = some r.dst :=
    (h.addrOf_eq hKeeps' hGet (Or.inl rfl)).trans hAddr
  have hSet : FibTable.Holds
        { t with
          ua := universalAddressRem ua e.nextHop
          entries := t.entries.set i { e with
            nextHop := some k
            nextHopFlags := r.hopFlags
            lifetime := t.clock t.reads + ms * 1000 } } now routes :=
    h.set hGet hKeeps' ?_ ?_ ?_
  · refine Or.inr ⟨rfl, ⟨hSet.small, hSet.uses, hSet.distinct, hSet.held⟩,
      fun _ => FibTable.Holds.cons (i := i)
        ⟨hSet.small, hSet.uses, hSet.distinct, hSet.held⟩
        (List.getElem?_set_self hLt) ?_, rfl, Nat.le_succ _⟩
    exact ⟨hDeadline.symm, hIface, hFlags, rfl, hDst, (hAddr' _).trans hHop⟩
  · intro j
    have hLe := @uses_le_usesOf t.entries e i j hGet
    rw [← h.uses] at hLe
    rw [hUse', hUse]
    unfold FibEntry.uses at *
    dsimp only
    omega
  · intro r' hr' _ hHeld
    have hSame := hHeld.dst
    rw [hAddr] at hSame
    apply hRoutes r' hr'
    rw [FibRoute.key, FibRoute.key, ← Option.some.inj hSame, ← hHeld.dstFlags, hFlags]
  · intro _ j d hNe hJ hLive'
    rw [hDst, ← hAddr]
    intro hEq
    refine hNe (h.distinct i j e d hGet hJ hLive hLive' ?_ hEq.symm).symm
    rintro hNone
    rw [hNone] at hAddr
    cases hAddr

/- A free entry gets the route, or at most its address. -/
theorem fibCreateLoop_holds
    {rest : List FibEntry} (h : t.Holds now routes) (hNow : 0 < now)
    (hBlank : BlankFrom t i rest)
    (hNone : ∀ (j : Nat) (e : FibEntry), t.entries[j]? = some e →
        e.lifetime ≠ 0 → t.ua.addrOf e.global ≠ some r.dst)
    (hMs : ms * 1000 < 2 ^ 32)
    (hClock : t.clock t.reads + ms * 1000 < 2 ^ 64)
    (hDeadline : r.deadline = t.clock t.reads + ms * 1000)
    (hRun :
      fibCreateLoop r.ifaceId r.dst r.dstFlags r.nextHop r.hopFlags ms rest i t = some (ret, s)) :
    FibTable.Adds now routes r ret t s := by
  induction rest generalizing t i with
  | nil =>
    cases hRun
    exact ⟨h, fun hOk => (by cases hOk), rfl, Nat.le_refl _⟩
  | cons e rest ih =>
    by_cases hFree : e.lifetime = 0
    · rcases hBlank 0 e rfl with ⟨hGet, hBoth⟩
      rcases hBoth hFree with ⟨hGlobal, hHop⟩
      rw [Nat.add_zero] at hGet
      have hFill : ∀ {ua : UaTable} {e' : FibEntry}, t.ua.Keeps ua →
            (∀ k, ua.useOf k = t.ua.useOf k + e'.uses k) →
            (e'.lifetime ≠ 0 → ua.addrOf e'.global = some r.dst) →
            FibTable.Holds
              { t with ua := ua, entries := t.entries.set i e' }
              now routes := by
        intro ua e' hKeeps hUses hAddr
        refine h.set hGet hKeeps ?_ ?_ ?_
        · intro k
          simp [hUses, FibEntry.uses, hGlobal, hHop]
        · intro r' _ hLate hHeld
          have hLife := hHeld.lifetime
          omega
        · intro hLive j d _ hJ hLive'
          rw [hAddr hLive]
          exact hNone j d hJ hLive'
      have hSkip : ∀ {ua : UaTable} {e' : FibEntry}, t.ua.Keeps ua →
            (∀ k, ua.useOf k = t.ua.useOf k + e'.uses k) → e'.lifetime = 0 →
            fibCreateLoop r.ifaceId r.dst r.dstFlags r.nextHop
                r.hopFlags ms rest (i + 1)
                { t with ua := ua, entries := t.entries.set i e' } =
              some (ret, s) → FibTable.Adds now routes r ret t s := by
        intro ua e' hKeeps hUses hZero hLoop
        have hAdds := ih (hFill hKeeps hUses (absurd hZero)) ?_ ?_ hClock hDeadline hLoop
        · exact ⟨hAdds.holds, hAdds.added, hAdds.clock, hAdds.reads⟩
        · intro j d hJ
          rcases hBlank.tail j d hJ with ⟨hSame, hFreeD⟩
          refine ⟨?_, hFreeD⟩
          exact (List.getElem?_set_ne (by omega)).trans hSame
        · intro j d hJ hLive
          by_cases hEq : i = j
          · subst hEq
            rcases List.getElem?_eq_some_iff.mp hGet with ⟨hLt, _⟩
            dsimp only at hJ
            rw [List.getElem?_set_self hLt] at hJ
            cases hJ
            exact absurd hZero hLive
          · dsimp only at hJ ⊢
            rw [List.getElem?_set_ne hEq] at hJ
            rw [h.addrOf_eq hKeeps hJ (Or.inl rfl)]
            exact hNone j d hJ hLive
      rcases hDst : universalAddressAdd t.ua r.dst with ⟨ua, _ | k⟩
      · cases universalAddressAdd_none hDst
        rw [fibCreateLoop_noDst hFree hHop hDst] at hRun
        refine hSkip ?_ ?_ ?_ hRun
        · exact fun _ _ => rfl
        · intro k
          simp [FibEntry.uses, hHop]
        · exact hFree
      · rcases universalAddressAdd_uses h.useOf_lt hDst with ⟨hUse, hKeeps, hAt⟩
        have hSmall : ∀ j, ua.useOf j < 255 := by
          intro j
          have hSet := @usesOf_set t.entries e ⟨0, 0, some j, 0, some j, 0⟩ i j hGet
          have hLe := @usesOf_le (t.entries.set i ⟨0, 0, some j, 0, some j, 0⟩) j
          have hSmall := h.small
          rw [List.length_set] at hLe
          rw [hUse, h.uses]
          simp only [FibEntry.uses, hGlobal, hHop, if_true, reduceCtorEq, if_false] at hSet
          split <;> omega
        rcases hAdd : universalAddressAdd ua r.nextHop with ⟨ua', _ | k'⟩
        · cases universalAddressAdd_none hAdd
          rw [fibCreateLoop_noHop hFree hDst hAdd] at hRun
          refine hSkip ?_ ?_ ?_ hRun
          · exact hKeeps
          · intro j
            simp [hUse, FibEntry.uses]
          · exact hFree
        · rcases universalAddressAdd_uses hSmall hAdd with ⟨hUse', hKeeps', hAt'⟩
          rcases fibCreateLoop_made hFree hDst hAdd hRun with ⟨rfl, deadline, u, hLife, rfl⟩
          rw [@fibLifetime_eq _ _ { t with ua := ua' } ms hMs hClock] at hLife
          cases hLife
          have hKeeps₂ : t.ua.Keeps ua' := by
            intro j hUsed
            refine (hKeeps' j ?_).trans (hKeeps j hUsed)
            rw [hUse]
            omega
          have hDst' : ua'.addrOf (some k) = some r.dst := by
            refine (hKeeps' k ?_).trans hAt
            simp [hUse]
          have hAdds := @hFill ua'
            ⟨r.ifaceId, t.clock t.reads + ms * 1000, some k,
              r.dstFlags, some k', r.hopFlags⟩ hKeeps₂ ?_
            (fun _ => hDst')
          · rcases List.getElem?_eq_some_iff.mp hGet with ⟨hLt, _⟩
            refine ⟨⟨hAdds.small, hAdds.uses, hAdds.distinct, hAdds.held⟩,
              fun _ => FibTable.Holds.cons (i := i)
                ⟨hAdds.small, hAdds.uses, hAdds.distinct, hAdds.held⟩
                (List.getElem?_set_self hLt) ?_, rfl, Nat.le_succ _⟩
            exact ⟨hDeadline.symm, rfl, rfl, rfl, hDst', hAt'⟩
          · intro j
            rw [hUse', hUse]
            exact Nat.add_assoc _ _ _
    · rw [fibCreateLoop_busy hFree] at hRun
      exact ih h hBlank.tail hNone hClock hDeadline hRun

----
-- Runs
----

theorem fibFindEntry_holds
    (h : s.Holds (s.clock s.reads) routes) (hNow : 0 < s.clock s.reads)
    (hPos : 0 < dst.length) :
    ∃ found t, fibFindEntry dst s = some (found, t) ∧ t.Holds (s.clock s.reads) routes ∧
      FibTable.Searched (s.clock s.reads) { s with reads := s.reads + 1 } t ∧
      (found.1 ≠ .one → BlankFrom t 0 t.entries ∧
        ∀ (j : Nat) (e : FibEntry), t.entries[j]? = some e →
          e.lifetime ≠ 0 → t.ua.addrOf e.global ≠ some dst) ∧
      (found.1 = .one → ∃ (j : Nat) (e : FibEntry), found.2 = some j ∧ s.entries[j]? = some e ∧
        e.Unexpired (s.clock s.reads) ∧ s.ua.addrOf e.global = some dst) := by
  have hRead : FibTable.Holds { s with reads := s.reads + 1 } (s.clock s.reads) routes :=
    ⟨h.small, h.uses, h.distinct, h.held⟩
  have hOpen : FibSearch.Open ⟨0, dst.length * 8, .ehostunreach, none⟩ dst :=
    ⟨by dsimp only; omega, rfl, by simp⟩
  rcases fibFindLoop_holds (i := 0) s.entries hRead
    (fun j => by rw [Nat.zero_add]) hOpen hPos hNow with
    ⟨n, found, hRun, hNone, hOne⟩
  rcases hRead.expired 0 n with ⟨hHolds, hSearched⟩
  refine ⟨found, _, hRun, hHolds, hSearched, ?_, hOne⟩
  intro hNot
  rcases hNone hNot with ⟨rfl, hOther⟩
  have hEach {j : Nat} {e : FibEntry}
      (hGet : (FibTable.expired { s with reads := s.reads + 1 }
        (s.clock s.reads) 0 s.entries.length).entries[j]? = some e) :
      e.Unexpired (s.clock s.reads) ∨ e.lifetime = 0 ∧ e.global = none ∧ e.nextHop = none := by
    refine FibTable.blank_expired ?_ hGet
    rcases List.getElem?_eq_some_iff.mp hGet with ⟨hLt, _⟩
    rwa [FibTable.length_expired] at hLt
  refine ⟨fun j e hGet => ⟨by rwa [Nat.zero_add], ?_⟩, ?_⟩
  · intro hFree
    rcases hEach hGet with hLive | hBlank
    · exact absurd hFree (hLive.lifetime_ne_zero hNow)
    · exact hBlank.2
  · intro j e hGet hLive
    rcases hEach hGet with hUnexpired | hBlank
    · rw [hSearched.addr]
      exact hOther e (List.mem_of_getElem? (hSearched.old j e hGet hLive)) hUnexpired
    · exact absurd hBlank.1 hLive

/- A search for the address finds the entry of the route. -/
def FibTable.Finds
    (s : FibTable size pool) (r : FibRoute) : Prop :=
  ∃ t i e, fibFindEntry r.dst s = some ((.one, some i), t) ∧
    s.entries[i]? = some e ∧ r.HeldBy s.ua e

theorem FibTable.Holds.finds
    {r : FibRoute} (h : s.Holds (s.clock s.reads) routes)
    (hNow : 0 < s.clock s.reads) (hPos : 0 < r.dst.length) (hRoute : r ∈ routes)
    (hLate : s.clock s.reads ≤ r.deadline) :
    s.Finds r := by
  rcases h.held r hRoute hLate with ⟨i, e, hGet, hHeld⟩
  have hLive : e.Unexpired (s.clock s.reads) := Or.inr (hHeld.lifetime ▸ hLate)
  rcases fibFindEntry_holds h hNow hPos with ⟨⟨ret, entry⟩, t, hRun, hHolds, hSearched, hNone, hOne⟩
  by_cases hRet : ret = .one
  · rcases hOne hRet with ⟨j, d, hEntry, hJ, hLive', hAddr⟩
    have hSame : i = j := by
      refine h.distinct i j e d hGet hJ
        (hLive.lifetime_ne_zero hNow)
        (hLive'.lifetime_ne_zero hNow) ?_
        (hHeld.dst.trans hAddr.symm)
      intro hEmpty
      have hDst := hHeld.dst
      rw [hEmpty] at hDst
      cases hDst
    cases hRet
    cases hEntry
    cases hSame
    exact ⟨t, i, e, hRun, hGet, hHeld⟩
  · have hKept := hSearched.kept i e hGet hLive
    refine absurd ?_ ((hNone hRet).2 i e hKept (hLive.lifetime_ne_zero hNow))
    rw [hSearched.addr]
    exact hHeld.dst

/- A call of fib_add_entry. -/
structure FibAddCall where
  ifaceId : Nat
  dst : List UInt8
  dstFlags : Nat
  nextHop : List UInt8
  hopFlags : Nat
  ms : Nat

/- The route is added at the second reading of the clock. -/
def FibAddCall.route
    (c : FibAddCall) (s : FibTable size pool) : FibRoute :=
  ⟨c.ifaceId, c.dst, c.dstFlags, c.nextHop, c.hopFlags, s.clock (s.reads + 1) + 1000 * c.ms⟩

/- A table, and the latest route for each prefix. -/
structure FibRun (size pool : Nat) where
  table : FibTable size pool
  routes : List FibRoute

def FibRun.exec
    (s : FibRun size pool) (c : FibAddCall) : Option (FibRun size pool) :=
  (fibAddEntry c.ifaceId (some c.dst) c.dstFlags
      (some c.nextHop) c.hopFlags c.ms s.table).map (fun r =>
    { table := r.2
      routes :=
        if r.1 = .ok then
          c.route s.table :: s.routes.filter (·.key ≠ (c.route s.table).key)
        else s.routes })

/- Runs from an empty table of at most 127 entries. -/
def fibAddSystem : System (FibRun size pool) FibAddCall where
  Start := fun s =>
    s.routes = [] ∧ s.table.mtxAccess = false ∧ s.table.entries.length ≤ 127 ∧
      (∀ e ∈ s.table.entries, e = FibEntry.free) ∧ (∀ k, s.table.ua.useOf k = 0) ∧
      Monotone s.table.clock ∧ ∀ n, 0 < s.table.clock n
  Enabled := fun _ _ => True
  exec := FibRun.exec

/-
  The product of the lifetime fits, and an unexpired entry with
  the address is one for the same prefix and interface.
-/
structure FibAddCall.KeyedByPrefix
    (c : FibAddCall)
    (s : FibTable size pool) : Prop where
  dst : 0 < c.dst.length
  lifetime : c.ms * 1000 < 2 ^ 32
  clock : s.clock (s.reads + 1) + c.ms * 1000 < 2 ^ 64
  same :
    ∀ e ∈ s.entries, e.Unexpired (s.clock s.reads) → s.ua.addrOf e.global = some c.dst →
      e.globalFlags = c.dstFlags ∧ e.ifaceId = c.ifaceId

structure FibRun.Sound
    (s : FibRun size pool) : Prop where
  unlocked : s.table.mtxAccess = false
  mono : Monotone s.table.clock
  pos : ∀ n, 0 < s.table.clock n
  dsts : ∀ r ∈ s.routes, 0 < r.dst.length
  holds : s.table.Holds (s.table.clock s.table.reads) s.routes

theorem FibRun.Sound.start
    {s : FibRun size pool} (hStart : fibAddSystem.Start s) :
    s.Sound := by
  rcases hStart with ⟨hRoutes, hOpen, hSmall, hFree, hUnused, hMono, hPos⟩
  have hZero : ∀ (i : Nat) (e : FibEntry), s.table.entries[i]? = some e → e.lifetime = 0 := by
    intro i e hGet
    rw [hFree e (List.mem_of_getElem? hGet)]
    rfl
  refine ⟨hOpen, hMono, hPos, by simp [hRoutes], hSmall, ?_, ?_, by simp [hRoutes]⟩
  · intro k
    rw [hUnused]
    have hNone {l : List FibEntry} (hl : ∀ e ∈ l, e = FibEntry.free) : usesOf k l = 0 := by
      induction l with
      | nil => rfl
      | cons e l ih =>
        rw [usesOf, hl e (by simp), ih (fun e he => hl e (List.mem_cons_of_mem _ he))]
        rfl
    exact (hNone hFree).symm
  · intro i j e e' hI _ hLive
    exact absurd (hZero i e hI) hLive

theorem FibRun.Sound.exec
    {s s' : FibRun size pool} {c : FibAddCall} (h : s.Sound)
    (hKeyed : c.KeyedByPrefix s.table) (hExec : s.exec c = some s') :
    s'.Sound := by
  let r := c.route s.table
  let now := s.table.clock s.table.reads
  have hNow : 0 < now := h.pos _
  have hLocked : FibTable.Holds { s.table with mtxAccess := true } now
        s.routes :=
    ⟨h.holds.small, h.holds.uses, h.holds.distinct, h.holds.held⟩
  rcases fibFindEntry_holds hLocked hNow hKeyed.dst with
    ⟨found, t, hFind, hHolds, hSearched, hNone, hOne⟩
  rcases Option.map_eq_some_iff.mp hExec with ⟨_, hAdd, rfl⟩
  rw [fibAddEntry_eq h.unlocked hFind] at hAdd
  rcases Option.map_eq_some_iff.mp hAdd with ⟨⟨ret, u⟩, hRun, rfl⟩
  rcases hSearched.frame with ⟨ua, entries, hFrame⟩
  have hReads : t.reads = s.table.reads + 1 := by rw [hFrame]
  have hClock : t.clock = s.table.clock := by rw [hFrame]
  have hMs : t.clock t.reads + c.ms * 1000 < 2 ^ 64 := by
    rw [hReads, hClock]
    exact hKeyed.clock
  have hDeadline : r.deadline = t.clock t.reads + c.ms * 1000 := by
    rw [hReads, hClock, Nat.mul_comm]
    rfl
  have hResult : u.Holds now
          (if ret = .ok then r :: s.routes.filter (·.key ≠ r.key)
          else s.routes) ∧ u.clock = t.clock ∧ t.reads ≤ u.reads := by
    have hSub : ∀ r' ∈ s.routes.filter (·.key ≠ r.key), r' ∈ s.routes :=
      fun r' hr' => (List.mem_filter.mp hr').1
    by_cases hIsOne : found.1 = .one
    · rw [if_pos hIsOne] at hRun
      rcases hOne hIsOne with ⟨j, e, hEntry, hJ, hLive, hAddr⟩
      have hSame := hKeyed.same e (List.mem_of_getElem? hJ) hLive hAddr
      rw [hEntry] at hRun
      rcases fibUpdEntry_holds (r := r)
        (hHolds.mono (Nat.le_refl _) hSub)
        (hSearched.kept j e hJ hLive)
        (hLive.lifetime_ne_zero hNow) hKeyed.lifetime hMs
        ((hSearched.addr _).trans hAddr) hSame.2 hSame.1 hDeadline
        (fun r' hr' => by simpa using (List.mem_filter.mp hr').2)
        hRun with ⟨hNot, rfl⟩ | ⟨hOk, hAdds⟩
      · rw [if_neg hNot]
        exact ⟨hHolds, rfl, Nat.le_refl _⟩
      · rw [if_pos hOk]
        exact ⟨hAdds.added hOk, hAdds.clock, hAdds.reads⟩
    · rw [if_neg hIsOne] at hRun
      have hAdds := fibCreateLoop_holds (r := r) hHolds hNow
        (hNone hIsOne).1 (hNone hIsOne).2 hKeyed.lifetime hMs
        hDeadline hRun
      refine ⟨?_, hAdds.clock, hAdds.reads⟩
      by_cases hOk : ret = .ok
      · rw [if_pos hOk]
        apply (hAdds.added hOk).mono (Nat.le_refl _)
        intro r' hr'
        rcases List.mem_cons.mp hr' with rfl | hIn
        · exact List.mem_cons_self
        · exact List.mem_cons_of_mem _ (hSub r' hIn)
      · rw [if_neg hOk]
        exact hAdds.holds
  rcases hResult with ⟨hRoutes, hClock', hReads'⟩
  have hLater : now ≤ u.clock u.reads := by
    rw [hClock', hClock]
    exact h.mono (by omega)
  refine ⟨rfl, ?_, ?_, ?_, ?_⟩
  · exact (hClock'.trans hClock).symm ▸ h.mono
  · exact (hClock'.trans hClock).symm ▸ h.pos
  · intro r' hr'
    dsimp only at hr'
    split at hr'
    · rcases List.mem_cons.mp hr' with rfl | hIn
      · exact hKeyed.dst
      · exact h.dsts r' (List.mem_filter.mp hIn).1
    · exact h.dsts r' hr'
  · have hMono := hRoutes.mono hLater (fun r' hr' => hr')
    exact ⟨hMono.small, hMono.uses, hMono.distinct, hMono.held⟩

/-
  In runs that meet the condition, each route is found until the
  time at which it was added and its lifetime are over.
-/
theorem fibFinds_of_reachable
    {s : FibRun size pool}
    (hReach : fibAddSystem.ReachableVia (fun s c => c.KeyedByPrefix s.table) s) :
    ∀ r ∈ s.routes, s.table.clock s.table.reads ≤ r.deadline → s.table.Finds r := by
  have hSound : s.Sound :=
    hReach.invariant (I := FibRun.Sound)
      (fun _ hStart => FibRun.Sound.start hStart)
      (fun _ _ _ h hKeyed _ hExec => h.exec hKeyed hExec)
  intro r hr hLate
  exact hSound.holds.finds (hSound.pos _) (hSound.dsts r hr) hr hLate

/- A table with two free entries and four containers. -/
def emptyRun : FibRun 1 1 where
  table := twoFree ⟨List.replicate 4 ⟨0, []⟩, 0⟩
  routes := []

instance
    (s : FibRun size pool) (c : FibAddCall) :
    Decidable (fibAddSystem.Enabled s c) :=
  inferInstanceAs (Decidable True)

theorem emptyRun_start :
    fibAddSystem.Start emptyRun := by
  refine ⟨rfl, rfl, by decide, by decide, ?_, fun _ _ _ => Nat.le_refl 10, fun _ => Nat.succ_pos 9⟩
  intro k
  rcases k with _ | _ | _ | _ | k <;> rfl

/- A route for five milliseconds. -/
theorem fibFinds_single :
    ∃ s : FibRun 1 1, s.routes = [⟨7, [1], 0x8000000, [2], 0, 5010⟩] ∧
      s.table.Finds ⟨7, [1], 0x8000000, [2], 0, 5010⟩ := by
  have hRun :
      fibAddSystem.exec emptyRun ⟨7, [1], 0x8000000, [2], 0, 5⟩ = some _ :=
    rfl
  refine ⟨_, rfl, fibFinds_of_reachable
    (.step (.start emptyRun_start) ?_ trivial hRun) _
    List.mem_cons_self (by decide)⟩
  refine ⟨by decide, by decide, by decide, ?_⟩
  intro e he hLive
  have hFree : ∀ e ∈ emptyRun.table.entries, e.lifetime = 0 := by
    decide
  rw [FibEntry.Unexpired, hFree e he] at hLive
  exact absurd hLive (by decide)

/- The address with another prefix length takes the entry. -/
theorem not_fibFinds :
    ¬ ∀ s : FibRun 1 1, fibAddSystem.Reachable s →
      ∀ r ∈ s.routes, s.table.clock s.table.reads ≤ r.deadline → s.table.Finds r := by
  intro hAll
  have hRun :
      (fibAddSystem.runVia (fun _ _ => True) emptyRun
          [⟨7, [1], 0x8000000, [2], 1, 5⟩, ⟨7, [1], 0x4000000, [2], 2, 5⟩]).any
        (fun s => decide
          ((∃ r ∈ s.routes, r.hopFlags = 1 ∧ s.table.clock s.table.reads ≤ r.deadline) ∧
            ∀ e ∈ s.table.entries, e.nextHopFlags ≠ 1)) = true := by
    decide +kernel
  rcases System.exists_reachableVia_of_runVia emptyRun_start hRun
    with ⟨s, _, hReach, ⟨r, hr, hFlags, hLate⟩, hOther⟩
  rcases hAll s hReach r hr hLate with ⟨_, _, e, _, hGet, hHeld⟩
  exact hOther e (List.mem_of_getElem? hGet) (hHeld.hopFlags.trans hFlags)

end Riot
