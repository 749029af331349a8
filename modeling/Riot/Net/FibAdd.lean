import Riot.Net.FibLocks
import Riot.Sys.UniversalAddressRuns

/-
  Adding entries to a table.

  A call that finds no memory changes nothing but expired
  entries, unless the destination gets a container and the next
  hop does not: then every free entry keeps the destination.
-/

----
-- Expired Entries
----

namespace Riot

variable {size pool : Nat}

/- The lifetime of an entry is not over. -/
def FibEntry.Unexpired
    (e : FibEntry) (now : Nat) : Prop :=
  e.lifetime = fibLifetimeNoExpire ∨ now ≤ e.lifetime

theorem FibEntry.Unexpired.lifetime_ne_zero
    {e : FibEntry} {now : Nat} (h : e.Unexpired now) (hNow : 0 < now) :
    e.lifetime ≠ 0 := by
  rcases h with hNever | hLate
  · rw [hNever]
    decide
  · omega

namespace FibTable

/- Entry `i` is removed if its lifetime expired. -/
def expireAt
    (now : Nat) (s : FibTable size pool) (i : Nat) : FibTable size pool :=
  match s.entries[i]? with
  | none => s
  | some e =>
    if e.lifetime ≠ fibLifetimeNoExpire ∧
        e.lifetime < now then
      { s with
        ua := universalAddressRem (universalAddressRem s.ua e.global) e.nextHop
        entries := s.entries.set i e.cleared }
    else
      s

/- The `n` entries from `i` on are removed if they expired. -/
def expired
    (s : FibTable size pool) (now i n : Nat) : FibTable size pool :=
  (List.range' i n).foldl (expireAt now) s

end FibTable

section

variable {s s' t : FibTable size pool} {dst nextHop : List UInt8} {now : Nat}

theorem fibExpire_spec
    {i : Nat} {e e' : FibEntry} (hGet : s.entries[i]? = some e)
    (hRun : fibExpire now i e s = some (e', s')) :
    s' = s.expireAt now i ∧ s'.entries[i]? = some e' := by
  rcases List.getElem?_eq_some_iff.mp hGet with ⟨hLt, _⟩
  unfold fibExpire at hRun
  unfold FibTable.expireAt
  rw [hGet]
  dsimp only
  by_cases hExpired : e.lifetime ≠ fibLifetimeNoExpire ∧ e.lifetime < now
  · rw [if_pos hExpired] at hRun ⊢
    cases hRun
    exact ⟨rfl, List.getElem?_set_self hLt⟩
  · rw [if_neg hExpired] at hRun ⊢
    cases hRun
    exact ⟨rfl, hGet⟩

theorem length_expireAt
    (i : Nat) :
    (s.expireAt now i).entries.length = s.entries.length := by
  unfold FibTable.expireAt
  split
  · rfl
  split
  · exact List.length_set
  · rfl

theorem getElem?_expireAt
    {i j : Nat} (hNe : i ≠ j) :
    (s.expireAt now i).entries[j]? = s.entries[j]? := by
  unfold FibTable.expireAt
  split
  · rfl
  split
  · exact List.getElem?_set_ne hNe
  · rfl

/- The search removes expired entries, up to where it ends. -/
theorem fibFindLoop_expired
    {allZeros : Bool} {rest : List FibEntry} {i : Nat} {v : FibSearch}
    {found : FibRet × Option Nat} (hRest : ∀ j, s.entries[i + j]? = rest[j]?)
    (hRet : v.ret ≠ .one)
    (hRun : fibFindLoop dst now allZeros rest i v s = some (found, t)) :
    ∃ n ≤ rest.length, t = s.expired now i n ∧ (found.1 ≠ .one → n = rest.length) := by
  induction rest generalizing s i v with
  | nil =>
    cases hRun
    exact ⟨0, Nat.le_refl _, rfl, fun _ => rfl⟩
  | cons e rest ih =>
    rcases bind_eq_some.mp hRun with ⟨e', u, hExpire, hNext⟩
    have hEntry : s.entries[i]? = some e := hRest 0
    rcases fibExpire_spec hEntry hExpire with ⟨rfl, _⟩
    have hRest' : ∀ j, (s.expireAt now i).entries[i + 1 + j]? = rest[j]? := by
      intro j
      rw [getElem?_expireAt (by omega), Nat.add_assoc, Nat.add_comm 1 j, hRest (j + 1)]
      rfl
    have hGoOn : ∀ {v : FibSearch} {u : FibTable size pool}, u = s.expireAt now i → v.ret ≠ .one →
          fibFindLoop dst now allZeros rest (i + 1) v u = some (found, t) →
          ∃ n ≤ (e :: rest).length, t = s.expired now i n ∧
            (found.1 ≠ .one → n = (e :: rest).length) := by
      intro v u hu hRet hLoop
      rw [hu] at hLoop
      rcases ih hRest' hRet hLoop with ⟨n, hn, ht, hAll⟩
      refine ⟨n + 1, Nat.succ_le_succ hn, ?_, ?_⟩
      · rw [ht]
        rfl
      · intro hOther
        rw [hAll hOther, List.length_cons]
    split at hNext
    · rcases bind_eq_some.mp hNext with ⟨⟨retComp, matchSize⟩, u, hCompare, hNext⟩
      rcases uaCompare_spec hCompare with ⟨hu, _⟩
      dsimp only at hNext
      split at hNext
      · cases hNext
        exact ⟨1, by simp, hu.symm ▸ rfl, fun h => absurd rfl h⟩
      · refine hGoOn hu ?_ hNext
        unfold FibSearch.next
        split
        · simp
        split
        · simp
        · exact hRet
    · exact hGoOn rfl hRet hNext

theorem fibFindEntry_expired
    {found : FibRet × Option Nat} (hRun : fibFindEntry dst s = some (found, t)) :
    ∃ n ≤ s.entries.length,
      t = FibTable.expired { s with reads := s.reads + 1 } (s.clock s.reads) 0 n ∧
      (found.1 ≠ .one → n = s.entries.length) := by
  rcases bind_eq_some.mp hRun with ⟨now, u, hNow, hRest⟩
  cases hNow
  rcases bind_eq_some.mp hRest with ⟨_, _, hGet, hLoop⟩
  cases hGet
  refine fibFindLoop_expired ?_ (by simp) hLoop
  intro j
  rw [Nat.zero_add]

namespace FibTable

theorem expired_succ
    (i n : Nat) :
    s.expired now i (n + 1) = (s.expired now i n).expireAt now (i + n) := by
  unfold expired
  rw [List.range'_1_concat, List.foldl_append]
  rfl

theorem length_expired
    (i n : Nat) :
    (s.expired now i n).entries.length = s.entries.length := by
  induction n with
  | zero => rfl
  | succ n ih => rw [expired_succ, length_expireAt, ih]

/- What has expired then is free, and holds no addresses. -/
theorem blank_expired
    {n j : Nat} {e : FibEntry} (hLt : j < n)
    (hGet : (s.expired now 0 n).entries[j]? = some e) :
    e.Unexpired now ∨ e.lifetime = 0 ∧ e.global = none ∧ e.nextHop = none := by
  induction n with
  | zero => exact absurd hLt (Nat.not_lt_zero j)
  | succ n ih =>
    rw [expired_succ, Nat.zero_add] at hGet
    by_cases hLast : j = n
    · subst hLast
      unfold expireAt at hGet
      split at hGet
      · rename_i hNone
        rw [hNone] at hGet
        cases hGet
      rename_i e' hOld
      rcases List.getElem?_eq_some_iff.mp hOld with ⟨hIn, _⟩
      split at hGet
      · dsimp only at hGet
        rw [List.getElem?_set_self hIn] at hGet
        cases hGet
        exact Or.inr ⟨rfl, rfl, rfl⟩
      · rename_i hKept
        rw [hOld] at hGet
        cases hGet
        rw [not_and_or] at hKept
        exact Or.inl (hKept.imp not_not.mp Nat.not_lt.mp)
    · rw [getElem?_expireAt (fun h => hLast h.symm)] at hGet
      exact ih (by omega) hGet

theorem inUse_expired
    (hCount : s.ua.inUse ≤ s.ua.filled) (i n : Nat) :
    (s.expired now i n).ua.inUse ≤ (s.expired now i n).ua.filled := by
  induction n with
  | zero => exact hCount
  | succ n ih =>
    rw [expired_succ]
    unfold expireAt
    split
    · exact ih
    split
    · exact universalAddressRem_inUse_le (universalAddressRem_inUse_le ih)
    · exact ih

end FibTable

----
-- Adding to a Full Table
----

/- Only the destination gets another container. -/
structure LacksHop
    (t : UaTable)
    (dst nextHop : List UInt8) : Prop where
  hasDst : ∃ c ∈ t.containers, c.address = dst
  noHop : ∀ c ∈ t.containers, c.address ≠ nextHop
  full : t.containers.length ≤ t.filled

theorem LacksHop.add_nextHop
    {ua : UaTable} (h : LacksHop ua dst nextHop) :
    universalAddressAdd ua nextHop = (ua, none) := by
  rcases universalAddressAdd_cases ua nextHop with ⟨hAdd, _⟩ | ⟨k, c, hGet, hPlace, _⟩
  · exact hAdd
  · rcases hPlace with ⟨hAddr, _⟩ | ⟨_, hRoom, _⟩
    · exact absurd hAddr (h.noHop c (List.mem_of_getElem? hGet))
    · exact absurd hRoom (Nat.not_lt.mpr h.full)

theorem LacksHop.add_dst
    {ua : UaTable} (h : LacksHop ua dst nextHop) :
    ∃ ua' k, universalAddressAdd ua dst = (ua', some k) ∧ LacksHop ua' dst nextHop := by
  rcases h.hasDst with ⟨c₀, hMem, hDst⟩
  rcases universalAddressAdd_cases ua dst with ⟨_, hNone, _⟩ | ⟨k, c, hGet, _, hAdd⟩
  · exact absurd hDst (hNone c₀ hMem)
  rcases List.getElem?_eq_some_iff.mp hGet with ⟨hLt, _⟩
  refine ⟨_, k, hAdd, ⟨?_, ?_, ?_⟩⟩
  · exact ⟨_, List.mem_set hLt _, rfl⟩
  · intro c' hc'
    rcases List.mem_or_eq_of_mem_set hc' with hOld | rfl
    · exact h.noHop c' hOld
    · rw [← hDst]
      exact h.noHop c₀ hMem
  · have hFull := h.full
    rw [List.length_set]
    dsimp only
    split
    · omega
    · exact hFull

section

variable {ifaceId dstFlags hopFlags lifetime : Nat} {rest : List FibEntry}
variable {e : FibEntry} {i : Nat}

theorem uaAdd_eq
    {addr : List UInt8} :
    uaAdd addr s = some ((universalAddressAdd s.ua addr).2,
        { s with ua := (universalAddressAdd s.ua addr).1 }) :=
  rfl

theorem fibCreateLoop_busy
    (hBusy : e.lifetime ≠ 0) :
    fibCreateLoop ifaceId dst dstFlags nextHop hopFlags
        lifetime (e :: rest) i s =
      fibCreateLoop ifaceId dst dstFlags nextHop hopFlags lifetime rest (i + 1) s := by
  rw [fibCreateLoop, if_neg hBusy]

theorem stateT_pure
    {σ α : Type} (a : α) (s : σ) :
    (StateT.pure a : StateT σ Option α) s = some (a, s) :=
  rfl

/- A free entry for which there is no container. -/
theorem fibCreateLoop_noDst
    (hFree : e.lifetime = 0) (hHop : e.nextHop = none)
    (hDst : universalAddressAdd s.ua dst = (s.ua, none)) :
    fibCreateLoop ifaceId dst dstFlags nextHop hopFlags
        lifetime (e :: rest) i s =
      fibCreateLoop ifaceId dst dstFlags nextHop hopFlags
        lifetime rest (i + 1)
        { s with
          entries := s.entries.set i { e with global := none } } := by
  rw [fibCreateLoop, if_pos hFree]
  simp [bind, StateT.bind, uaAdd_eq, hDst, hHop, pure, stateT_pure, fibSetEntry, modify, modifyGet,
    MonadStateOf.modifyGet, StateT.modifyGet]

/- A free entry for which there is only one container. -/
theorem fibCreateLoop_noHop
    {ua ua' : UaTable} {k : Nat} (hFree : e.lifetime = 0)
    (hDst : universalAddressAdd s.ua dst = (ua, some k))
    (hHop : universalAddressAdd ua nextHop = (ua', none)) :
    fibCreateLoop ifaceId dst dstFlags nextHop hopFlags
        lifetime (e :: rest) i s =
      fibCreateLoop ifaceId dst dstFlags nextHop hopFlags
        lifetime rest (i + 1)
        { s with
          ua := ua'
          entries := s.entries.set i
            { e with
              global := some k
              globalFlags := dstFlags
              nextHop := none
              nextHopFlags := hopFlags } } := by
  rw [fibCreateLoop, if_pos hFree]
  simp [bind, StateT.bind, uaAdd_eq, hDst, hHop, pure, stateT_pure, fibSetEntry, modify, modifyGet,
    MonadStateOf.modifyGet, StateT.modifyGet]

/- A free entry that gets both containers. -/
theorem fibCreateLoop_made
    {ua ua' : UaTable} {k k' : Nat} {ret : FibRet} (hFree : e.lifetime = 0)
    (hDst : universalAddressAdd s.ua dst = (ua, some k))
    (hHop : universalAddressAdd ua nextHop = (ua', some k'))
    (hRun : fibCreateLoop ifaceId dst dstFlags nextHop hopFlags
        lifetime (e :: rest) i s = some (ret, s')) :
    ret = .ok ∧ ∃ at' u, fibLifetime lifetime
          { s with ua := ua' } = some (at', u) ∧
        s' = { u with
            entries := u.entries.set i
              { ifaceId := ifaceId
                lifetime := at'
                global := some k
                globalFlags := dstFlags
                nextHop := some k'
                nextHopFlags := hopFlags } } := by
  rw [fibCreateLoop, if_pos hFree] at hRun
  simp [bind, StateT.bind, uaAdd_eq, hDst, hHop, pure, stateT_pure] at hRun
  rcases Option.bind_eq_some_iff.mp hRun with ⟨⟨at', u⟩, hLifetime, hRest⟩
  cases hRest
  exact ⟨rfl, at', u, hLifetime, rfl⟩

end

/- Each free entry then keeps the destination. -/
theorem fibCreateLoop_lacksHop
    {ifaceId dstFlags hopFlags lifetime : Nat} {rest : List FibEntry} {i : Nat}
    (h : LacksHop s.ua dst nextHop) :
    ∃ s', fibCreateLoop ifaceId dst dstFlags nextHop hopFlags
        lifetime rest i s = some (.enomem, s') ∧ ∀ j < i, s'.entries[j]? = s.entries[j]? := by
  induction rest generalizing s i with
  | nil => exact ⟨s, rfl, fun _ _ => rfl⟩
  | cons e rest ih =>
    by_cases hFree : e.lifetime = 0
    · rcases h.add_dst with ⟨ua, k, hDst, h'⟩
      rw [fibCreateLoop_noHop hFree hDst h'.add_nextHop]
      rcases ih (s := { s with ua := ua, entries := _ }) h' with ⟨s', hRun, hBefore⟩
      refine ⟨s', hRun, ?_⟩
      intro j hj
      rw [hBefore j (by omega)]
      exact List.getElem?_set_ne (by omega)
    · rw [fibCreateLoop_busy hFree]
      rcases ih (i := i + 1) h with ⟨s', hRun, hBefore⟩
      exact ⟨s', hRun, fun j hj => hBefore j (by omega)⟩

section

variable {ifaceId dstFlags hopFlags lifetime : Nat} {rest : List FibEntry} {i : Nat}

theorem fibCreateLoop_full
    (hFull : ∀ e ∈ rest, e.lifetime ≠ 0) :
    fibCreateLoop ifaceId dst dstFlags nextHop hopFlags lifetime rest i s = some (.enomem, s) := by
  induction rest generalizing i with
  | nil => rfl
  | cons e rest ih =>
    rw [fibCreateLoop_busy (hFull e (by simp))]
    exact ih (fun e he => hFull e (List.mem_cons_of_mem _ he))

/- What is free holds no addresses. -/
def BlankFrom
    (s : FibTable size pool) (i : Nat) (rest : List FibEntry) : Prop :=
  ∀ (j : Nat) (e : FibEntry), rest[j]? = some e →
    s.entries[i + j]? = some e ∧ (e.lifetime = 0 → e.global = none ∧ e.nextHop = none)

theorem BlankFrom.tail
    {e : FibEntry} (h : BlankFrom s i (e :: rest)) :
    BlankFrom s (i + 1) rest := by
  intro j e' hGet
  rw [Nat.add_assoc, Nat.add_comm 1 j]
  exact h (j + 1) e' hGet

theorem fibCreateLoop_noContainer
    (hBlank : BlankFrom s i rest)
    (hDst : universalAddressAdd s.ua dst = (s.ua, none)) :
    fibCreateLoop ifaceId dst dstFlags nextHop hopFlags lifetime rest i s = some (.enomem, s) := by
  induction rest generalizing i with
  | nil => rfl
  | cons e rest ih =>
    by_cases hFree : e.lifetime = 0
    · rcases hBlank 0 e rfl with ⟨hGet, hNone⟩
      rcases hNone hFree with ⟨hGlobal, hHop⟩
      rcases List.getElem?_eq_some_iff.mp hGet with ⟨hLt, hSame⟩
      have hKept : s.entries.set i { e with global := none } = s.entries := by
        rw [← hGlobal, ← hSame]
        exact List.set_getElem_self hLt
      rw [fibCreateLoop_noDst hFree hHop hDst, hKept]
      exact ih hBlank.tail
    · rw [fibCreateLoop_busy hFree]
      exact ih hBlank.tail

/- The first free entry decides. -/
theorem fibCreateLoop_ok
    {ua ua' : UaTable} {k k' : Nat} {ret : FibRet}
    (hFree : ∃ e ∈ rest, e.lifetime = 0)
    (hDst : universalAddressAdd s.ua dst = (ua, some k))
    (hHop : universalAddressAdd ua nextHop = (ua', some k'))
    (hRun :
      fibCreateLoop ifaceId dst dstFlags nextHop hopFlags lifetime rest i s = some (ret, s')) :
    ret = .ok := by
  induction rest generalizing i with
  | nil =>
    rcases hFree with ⟨_, hIn, _⟩
    cases hIn
  | cons e rest ih =>
    by_cases hZero : e.lifetime = 0
    · exact (fibCreateLoop_made hZero hDst hHop hRun).1
    · rw [fibCreateLoop_busy hZero] at hRun
      refine ih ?_ hRun
      simpa [hZero] using hFree

theorem fibCreateLoop_leaks
    {ua : UaTable} {k : Nat} (hBlank : BlankFrom s i rest)
    (hFree : ∃ e ∈ rest, e.lifetime = 0)
    (hDst : universalAddressAdd s.ua dst = (ua, some k))
    (hLacks : LacksHop ua dst nextHop) :
    ∃ s', fibCreateLoop ifaceId dst dstFlags nextHop hopFlags
        lifetime rest i s = some (.enomem, s') ∧ s'.entries ≠ s.entries := by
  induction rest generalizing i with
  | nil =>
    rcases hFree with ⟨_, hIn, _⟩
    cases hIn
  | cons e rest ih =>
    by_cases hZero : e.lifetime = 0
    · rcases hBlank 0 e rfl with ⟨hGet, hNone⟩
      rcases hNone hZero with ⟨hGlobal, _⟩
      rcases List.getElem?_eq_some_iff.mp hGet with ⟨hLt, _⟩
      rw [fibCreateLoop_noHop hZero hDst hLacks.add_nextHop]
      rcases fibCreateLoop_lacksHop
        (s := { s with ua := ua, entries := _ }) hLacks with
        ⟨s', hRun, hBefore⟩
      refine ⟨s', hRun, ?_⟩
      intro hSame
      have hEntry := hBefore i (Nat.lt_succ_self i)
      rw [hSame] at hEntry
      dsimp only at hEntry
      rw [Nat.add_zero] at hGet hLt
      rw [hGet, List.getElem?_set_self hLt] at hEntry
      have hSome := congrArg FibEntry.global (Option.some.inj hEntry)
      rw [hGlobal] at hSome
      cases hSome
    · rw [fibCreateLoop_busy hZero]
      refine ih hBlank.tail ?_
      simpa [hZero] using hFree

theorem fibUpdEntry_enomem
    {entry : Option Nat}
    (hRun : fibUpdEntry entry nextHop hopFlags lifetime s = some (.enomem, s')) :
    s' = s := by
  rcases bind_eq_some.mp hRun with ⟨r, u, hAdd, hRest⟩
  rw [uaAdd_eq] at hAdd
  cases hAdd
  rcases universalAddressAdd_cases s.ua nextHop with ⟨hNone, _⟩ | ⟨k, c, _, _, hSome⟩
  · rw [hNone] at hRest
    cases hRest
    rfl
  · rw [hSome] at hRest
    rcases bind_eq_some.mp hRest with ⟨_, _, _, hRest⟩
    rcases bind_eq_some.mp hRest with ⟨_, _, _, hRest⟩
    rcases bind_eq_some.mp hRest with ⟨_, _, _, hRest⟩
    rcases bind_eq_some.mp hRest with ⟨_, _, _, hRest⟩
    cases hRest

end

section

variable {ifaceId dstFlags hopFlags lifetime : Nat} {found : FibRet × Option Nat}

/- What is done once the search has ended. -/
theorem fibAddEntry_eq
    (hOpen : s.mtxAccess = false)
    (hFind : fibFindEntry dst { s with mtxAccess := true } = some (found, t)) :
    fibAddEntry ifaceId (some dst) dstFlags (some nextHop)
        hopFlags lifetime s =
      ((if found.1 = .one then fibUpdEntry found.2 nextHop hopFlags lifetime
      else
        fibCreateEntry ifaceId dst dstFlags nextHop hopFlags
          lifetime : FibM size pool FibRet) t).map
        (fun r => (r.1, { r.2 with mtxAccess := false })) := by
  rcases found with ⟨ret, entry⟩
  simp [fibAddEntry, fibLock, hOpen, bind, StateT.bind, get, getThe, MonadStateOf.get, StateT.get,
    modify, modifyGet, MonadStateOf.modifyGet, StateT.modifyGet, hFind, fibUnlock, pure]
  by_cases hOne : ret = .one
  · rw [if_pos hOne, if_pos hOne]
    cases hRun : fibUpdEntry entry nextHop hopFlags lifetime t with
    | none => simp [StateT.bind, hRun]
    | some r => simp [StateT.bind, hRun, StateT.modifyGet, stateT_pure]
  · rw [if_neg hOne, if_neg hOne]
    cases hRun : fibCreateEntry ifaceId dst dstFlags nextHop hopFlags lifetime t with
    | none => simp [StateT.bind, hRun]
    | some r => simp [StateT.bind, hRun, StateT.modifyGet, stateT_pure]

/-
  Without memory the entries and the use counts are left as the
  search left them.
-/
def FailsAtomically
    (s t : FibTable size pool) (ifaceId : Nat) (dst : List UInt8) (dstFlags : Nat)
    (nextHop : List UInt8) (hopFlags lifetime : Nat) : Prop :=
  ∀ s', fibAddEntry ifaceId (some dst) dstFlags (some nextHop)
      hopFlags lifetime s = some (.enomem, s') → s'.entries = t.entries ∧
      s'.ua.containers.map UaContainer.useCount = t.ua.containers.map UaContainer.useCount

end

end

/- A table with two free entries. -/
def twoFree
    (ua : UaTable) : FibTable 1 1 where
  mtxAccess := false
  entries := [⟨0, 0, none, 0, none, 0⟩, ⟨0, 0, none, 0, none, 0⟩]
  headers := fun _ => ⟨0, 0, 0⟩
  links := fun _ => .null
  srDest := fun _ => none
  address := fun _ => none
  prefixRp := []
  ua := ua
  clock := fun _ => 10
  reads := 0

/- The search in such a table only reads the clock. -/
theorem fibFindEntry_twoFree
    (ua : UaTable) :
    fibFindEntry [2] { twoFree ua with mtxAccess := true } = some ((.ehostunreach, none),
        { twoFree ua with mtxAccess := true, reads := 1 }) :=
  rfl

end Riot
