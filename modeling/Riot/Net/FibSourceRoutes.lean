import Riot.Lib.System
import Riot.Net.FibLocks

/-
  The pool of hops of the source routes.

  Each hop with an address is on the path of one source route,
  as long as no route with hops expires, no hop is deleted but
  the last one of a route, no hop is added behind the
  destination of a route that is kept, and no hop is appended
  that still points to another hop.
-/

----
-- The System
----

namespace Riot

open LinkMem

variable {size pool : Nat}

inductive SrEvent (size pool : Nat) where
  | create
      (fibSrGiven : Bool)
      (srIfaceId srFlags srLifetime : Nat)
  | append
      (fibSr : SrPtr size)
      (addr : Option (List UInt8))
  | add
      (fibSr : SrPtr size)
      (srPathEntry : HopPtr pool)
      (addr : Option (List UInt8))
      (keepRemainingRoute : Bool)
  | entryDelete
      (fibSr : SrPtr size)
      (addr : List UInt8)
      (keepRemainingRoute : Bool)
  | overwrite
      (fibSr : SrPtr size)
      (addrOld addrNew : Option (List UInt8))
  | delete
      (fibSr : SrPtr size)
  -- reading the head checks the lifetime
  | readHead
      (fibSr : SrPtr size)
      (outputs : Bool)

def SrEvent.op : SrEvent size pool → FibOp size pool
| .create fibSrGiven srIfaceId srFlags srLifetime =>
  .srCreate fibSrGiven srIfaceId srFlags srLifetime
| .append fibSr addr => .srEntryAppend fibSr addr
| .add fibSr srPathEntry addr keepRemainingRoute =>
  .srEntryAdd fibSr srPathEntry addr keepRemainingRoute
| .entryDelete fibSr addr keepRemainingRoute => .srEntryDelete fibSr addr keepRemainingRoute
| .overwrite fibSr addrOld addrNew => .srEntryOverwrite fibSr addrOld addrNew
| .delete fibSr => .srDelete fibSr
| .readHead fibSr outputs => .srReadHead fibSr outputs

/- A new table, with any containers and any clock. -/
def srInit
    (ua : UaTable)
    (clock : Nat → Nat) : FibTable size pool where
  mtxAccess := false
  entries := []
  headers := fun _ => ⟨0, 0, 0⟩
  links := fun _ => .null
  srDest := fun _ => none
  address := fun _ => none
  prefixRp := []
  ua := ua
  clock := clock
  reads := 0

def srSystem :
    System (FibTable size pool) (SrEvent size pool) where
  Start := fun s => ∃ ua clock, s = srInit ua clock
  Enabled := fun _ _ => True
  exec := fun s e => (e.op.run s).map (fun x => x.2)

/- A source route is live until it is deleted or expires. -/
def FibTable.Live
    (s : FibTable size pool) (i : Fin size) : Prop :=
  (s.headers i).lifetime ≠ 0

/-
  The path of each live source route is a list that ends in its
  destination, no hop is on two paths, and the hops with an
  address are those on the paths.
-/
def SrSound
    (s : FibTable size pool) : Prop :=
  ∃ paths : Fin size → List (Fin pool),
    (∀ i, s.Live i → IsList s.links i (paths i) ∧ s.srDest i = (paths i).getLast?) ∧
    (∀ i j e, s.Live i → s.Live j → e ∈ paths i → e ∈ paths j → i = j) ∧
    (∀ e, s.address e ≠ none ↔ ∃ i, s.Live i ∧ e ∈ paths i)

----
-- The Condition
----

/- The next check of the lifetime finds it expired. -/
def FibTable.Expired
    (s : FibTable size pool) (i : Fin size) : Prop :=
  lifetimeExpired (s.headers i).lifetime (s.clock s.reads) = true

/- Only source routes without hops expire. -/
def FibTable.ExpiresEmpty
    (s : FibTable size pool) (i : Fin size) : Prop :=
  s.Expired i → s.links (.head i) = .null

/- The hop that is taken from the pool for an address. -/
def FibTable.Takes
    (s : FibTable size pool) (addr : List UInt8) (e : Fin pool) : Prop :=
  (List.finRange pool).find? (fun e => s.address e = none) = some e ∧
    (universalAddressAdd s.ua addr).2 ≠ none

/- No hop on the path of a source route has an address. -/
def FibTable.Lacks
    (s : FibTable size pool) (i : Fin size) (addr : List UInt8) : Prop :=
  ∀ e, OnPath s i e → ¬ HasAddress s e addr

/- What an event has to meet for the pool to stay sound. -/
def SrEvent.Safe
    (s : FibTable size pool) : SrEvent size pool → Prop
| .create _ _ _ _ => True
| .append (.header i) (some addr) =>
  s.ExpiresEmpty i ∧
    (¬ s.Expired i → s.Lacks i addr → ∀ e, s.Takes addr e → s.Live i ∧ s.links (.entry e) = .null)
| .add (.header i) srPathEntry (some addr) keep =>
  (srPathEntry ≠ .null → s.ExpiresEmpty i) ∧ (¬ s.Expired i → s.Lacks i addr → keep = true →
      ∀ e x, s.Takes addr e → srPathEntry = .hop x → s.srDest i ≠ some x)
| .entryDelete (.header i) addr keep =>
  s.ExpiresEmpty i ∧ (¬ s.Expired i → ¬ s.Lacks i addr →
      keep = false ∧ ∃ e, s.links (.head i) = .ref e ∧ s.links (.entry e) = .null)
| .overwrite (.header i) (some _) (some _) => s.ExpiresEmpty i
| .delete _ => True
| .readHead (.header i) true => s.ExpiresEmpty i
| _ => True

----
-- The Invariant
----

structure SrInv
    (s : FibTable size pool)
    (paths : Fin size → List (Fin pool)) : Prop where
  path : ∀ i, IsList s.links i (paths i)
  dead : ∀ i, ¬ s.Live i → paths i = []
  dest : ∀ i, s.Live i → s.srDest i = (paths i).getLast?
  disjoint : ∀ i j e, e ∈ paths i → e ∈ paths j → i = j
  used : ∀ e, s.address e ≠ none ↔ ∃ i, e ∈ paths i

section

variable {s s' : FibTable size pool} {paths : Fin size → List (Fin pool)}
variable {i : Fin size} {e : Fin pool} {fuel : Nat} {p : Link (Fin pool)}
variable {addr : List UInt8} {srIfaceId srFlags srLifetime : Nat} {ret : FibRet}

theorem SrInv.live_of_mem
    (h : SrInv s paths) (he : e ∈ paths i) :
    s.Live i := by
  by_contra hDead
  rw [h.dead i hDead] at he
  cases he

theorem SrInv.sound
    (h : SrInv s paths) :
    SrSound s := by
  refine ⟨paths, ?_, ?_, ?_⟩
  · intro i hLive
    exact ⟨h.path i, h.dest i hLive⟩
  · intro i j e _ _
    exact h.disjoint i j e
  · intro e
    rw [h.used]
    constructor
    · rintro ⟨i, he⟩
      exact ⟨i, h.live_of_mem he, he⟩
    · rintro ⟨i, _, he⟩
      exact ⟨i, he⟩

theorem SrInv.init
    (ua : UaTable) (clock : Nat → Nat) :
    SrInv (srInit ua clock : FibTable size pool) (fun _ => []) := by
  refine ⟨?_, ?_, ?_, ?_, ?_⟩
  · intro i
    exact IsList.nil_iff.mpr rfl
  · intro i _
    rfl
  · intro i hLive
    exact absurd rfl hLive
  · intro i j e he
    cases he
  · intro e
    constructor
    · intro hNe
      exact absurd rfl hNe
    · rintro ⟨i, he⟩
      cases he

section

variable (h : SrInv s paths)

include h

/- Only these parts of a table matter. -/
theorem SrInv.congr
    (hLive : ∀ i, s'.Live i ↔ s.Live i) (hLinks : s'.links = s.links)
    (hDest : s'.srDest = s.srDest)
    (hAddress : ∀ e, s'.address e ≠ none ↔ s.address e ≠ none) :
    SrInv s' paths := by
  refine ⟨?_, ?_, ?_, h.disjoint, ?_⟩
  · rw [hLinks]
    exact h.path
  · intro i hDead
    exact h.dead i (fun hLive' => hDead ((hLive i).mpr hLive'))
  · intro i hLive'
    rw [hDest]
    exact h.dest i ((hLive i).mp hLive')
  · intro e
    rw [hAddress]
    exact h.used e

/- A path is empty if the route has no first hop. -/
theorem SrInv.eq_nil
    (hNull : s.links (.head i) = .null) :
    paths i = [] := by
  have hSeg := (h.path i).2
  rw [hNull] at hSeg
  cases hPath : paths i with
  | nil => rfl
  | cons x l =>
    rw [hPath] at hSeg
    cases hSeg.1

/- The path of one route is replaced. -/
theorem SrInv.replaced
    {l' : List (Fin pool)} (hPath : IsList s'.links i l')
    (hHeads : ∀ j, j ≠ i → s'.links (.head j) = s.links (.head j))
    (hEntries : ∀ j, j ≠ i → ∀ x ∈ paths j, s'.links (.entry x) = s.links (.entry x))
    (hLive : ∀ j, j ≠ i → (s'.Live j ↔ s.Live j)) (hDead : ¬ s'.Live i → l' = [])
    (hDest : ∀ j, j ≠ i → s'.srDest j = s.srDest j)
    (hDestI : s'.Live i → s'.srDest i = l'.getLast?)
    (hFresh : ∀ x ∈ l', ∀ j, j ≠ i → x ∉ paths j)
    (hAddress : ∀ x, s'.address x ≠ none ↔ x ∈ l' ∨ (s.address x ≠ none ∧ x ∉ paths i)) :
    SrInv s' (Function.update paths i l') := by
  have hAt : ∀ {j : Fin size}, j ≠ i → Function.update paths i l' j = paths j :=
    fun hj => Function.update_of_ne hj _ _
  have hSelf : Function.update paths i l' i = l' := Function.update_self ..
  refine ⟨?_, ?_, ?_, ?_, ?_⟩
  · intro j
    by_cases hj : j = i
    · subst hj
      rw [hSelf]
      exact hPath
    · rw [hAt hj]
      exact (h.path j).congr (hHeads j hj) (hEntries j hj)
  · intro j hNot
    by_cases hj : j = i
    · subst hj
      rw [hSelf]
      exact hDead hNot
    · rw [hAt hj]
      exact h.dead j (fun hOld => hNot ((hLive j hj).mpr hOld))
  · intro j hLive'
    by_cases hj : j = i
    · subst hj
      rw [hSelf]
      exact hDestI hLive'
    · rw [hAt hj, hDest j hj]
      exact h.dest j ((hLive j hj).mp hLive')
  · intro j k x hx hx'
    by_cases hj : j = i
    · by_cases hk : k = i
      · rw [hj, hk]
      · rw [hj, hSelf] at hx
        rw [hAt hk] at hx'
        exact absurd hx' (hFresh x hx k hk)
    · by_cases hk : k = i
      · rw [hk, hSelf] at hx'
        rw [hAt hj] at hx
        exact absurd hx (hFresh x hx' j hj)
      · rw [hAt hj] at hx
        rw [hAt hk] at hx'
        exact h.disjoint j k x hx hx'
  · intro x
    rw [hAddress, h.used]
    constructor
    · rintro (hx | ⟨⟨j, hx⟩, hNot⟩)
      · exact ⟨i, by rw [hSelf]; exact hx⟩
      · have hj : j ≠ i := by
          rintro rfl
          exact hNot hx
        exact ⟨j, by rw [hAt hj]; exact hx⟩
    · rintro ⟨j, hx⟩
      by_cases hj : j = i
      · rw [hj, hSelf] at hx
        exact Or.inl hx
      · rw [hAt hj] at hx
        refine Or.inr ⟨⟨j, hx⟩, ?_⟩
        intro hOld
        exact hj (h.disjoint j i x hx hOld)

/- A route without hops becomes dead or live. -/
theorem SrInv.emptied
    (hNull : s.links (.head i) = .null)
    (hLive : ∀ j, j ≠ i → (s'.Live j ↔ s.Live j))
    (hHead : s'.links (.head i) = .null)
    (hHeads : ∀ j, j ≠ i → s'.links (.head j) = s.links (.head j))
    (hEntries : ∀ x, s'.links (.entry x) = s.links (.entry x))
    (hDest : ∀ j, j ≠ i → s'.srDest j = s.srDest j)
    (hDestI : s'.Live i → s'.srDest i = none) (hAddress : s'.address = s.address) :
    SrInv s' (Function.update paths i []) := by
  refine h.replaced (IsList.nil_iff.mpr hHead) hHeads
    (fun j _ x _ => hEntries x) hLive (fun _ => rfl) hDest
    hDestI ?_ ?_
  · intro x hx
    cases hx
  · intro x
    rw [hAddress, h.eq_nil hNull]
    simp

/- A free hop is on no path. -/
theorem SrInv.not_mem_of_free
    (hFree : s.address e = none) (j : Fin size) :
    e ∉ paths j := by
  intro he
  exact (h.used e).mpr ⟨j, he⟩ hFree

/-
  A new hop is linked in behind `x`, and what follows it is part
  of what followed `x`. The hops that are left out are free.
-/
theorem SrInv.spliced
    {a b c : List (Fin pool)} {x e : Fin pool} {v : Link (Fin pool)}
    (hPath : paths i = a ++ x :: b) (hFree : s.address e = none)
    (hSub : c.Sublist b) (hTail : s.links.Seg v c .null)
    (hLinks : s'.links = (s.links.set (.entry x) (.ref e)).set (.entry e) v)
    (hLive : ∀ j, s'.Live j ↔ s.Live j)
    (hDest : ∀ j, j ≠ i → s'.srDest j = s.srDest j)
    (hDestI : s'.srDest i = (a ++ x :: e :: c).getLast?)
    (hAddress : ∀ y, s'.address y ≠ none ↔ y = e ∨ (s.address y ≠ none ∧ (y ∈ b → y ∈ c))) :
    SrInv s' (Function.update paths i (a ++ x :: e :: c)) := by
  have hNot : e ∉ a ++ x :: b := by
    rw [← hPath]
    exact h.not_mem_of_free hFree i
  have hList := h.path i
  rw [hPath] at hList
  have hInOld : ∀ y ∈ a ++ x :: c, y ∈ paths i := by
    intro y hy
    rw [hPath]
    exact ((hSub.cons_cons x).append_left a).subset hy
  refine h.replaced ?_ ?_ ?_ (fun j _ => hLive j) ?_ hDest (fun _ => hDestI) ?_ ?_
  · rw [hLinks]
    exact hList.splice hNot hSub hTail
  · intro j _
    rw [hLinks, set_entry_head, set_entry_head]
  · intro j hj y hy
    have hNe : y ≠ e := by
      rintro rfl
      exact h.not_mem_of_free hFree j hy
    have hNx : y ≠ x := by
      rintro rfl
      refine hj (h.disjoint j i y hy ?_)
      rw [hPath]
      simp
    rw [hLinks, set_of_ne _ _ (by simpa using hNe), set_of_ne _ _ (by simpa using hNx)]
  · intro hDead
    exfalso
    refine hDead ((hLive i).mpr (h.live_of_mem (e := x) ?_))
    rw [hPath]
    simp
  · intro y hy j hj hIn
    have hCases : y = e ∨ y ∈ a ++ x :: c := by
      simp only [List.mem_append, List.mem_cons] at hy ⊢
      tauto
    rcases hCases with rfl | hOld
    · exact h.not_mem_of_free hFree j hIn
    · exact hj (h.disjoint j i y hIn (hInOld y hOld))
  · intro y
    rw [hAddress, hPath]
    have hUsed : ∀ y ∈ paths i, s.address y ≠ none := fun y hy => (h.used y).mpr ⟨i, hy⟩
    rw [hPath] at hUsed
    have hNodup := hList.1
    constructor
    · rintro (rfl | ⟨hOld, hKept⟩)
      · left
        simp
      · by_cases hy : y ∈ a ++ x :: b
        · left
          simp only [List.mem_append, List.mem_cons] at hy ⊢
          tauto
        · exact Or.inr ⟨hOld, hy⟩
    · rintro (hy | ⟨hOld, hy⟩)
      · by_cases hye : y = e
        · exact Or.inl hye
        · right
          have hIn : y ∈ a ++ x :: c := by
            simp only [List.mem_append, List.mem_cons] at hy ⊢
            tauto
          refine ⟨hUsed y ?_, ?_⟩
          · exact ((hSub.cons_cons x).append_left a).subset hIn
          · intro hb
            have hDisj := List.nodup_append.mp hNodup
            simp only [List.mem_append, List.mem_cons] at hIn
            rcases hIn with ha | rfl | hl
            · exact absurd rfl (hDisj.2.2 y ha y (by simp [hb]))
            · exact absurd hb (List.nodup_cons.mp hDisj.2.1).1
            · exact hl
      · refine Or.inr ⟨hOld, ?_⟩
        intro hb
        exact absurd (by simp [hb]) hy

/- The first hop of a route is taken from the pool. -/
theorem SrInv.started
    (hNull : s.links (.head i) = .null) (hLiveI : s.Live i)
    (hFree : s.address e = none) (hEnd : s.links (.entry e) = .null)
    (hLinks : s'.links = s.links.set (.head i) (.ref e))
    (hLive : ∀ j, s'.Live j ↔ s.Live j)
    (hDest : ∀ j, j ≠ i → s'.srDest j = s.srDest j) (hDestI : s'.srDest i = some e)
    (hAddress : ∀ y, s'.address y ≠ none ↔ y = e ∨ s.address y ≠ none) :
    SrInv s' (Function.update paths i [e]) := by
  refine h.replaced ?_ ?_ ?_ (fun j _ => hLive j) ?_ hDest (fun _ => hDestI) ?_ ?_
  · rw [hLinks]
    refine ⟨by simp, ?_⟩
    rw [set_same]
    refine ⟨rfl, ?_⟩
    rw [set_head_entry]
    exact hEnd
  · intro j hj
    rw [hLinks, set_of_ne _ _ (by simpa using hj)]
  · intro j _ x _
    rw [hLinks, set_head_entry]
  · intro hDead
    exact absurd ((hLive i).mpr hLiveI) hDead
  · intro x hx j _
    rw [List.mem_singleton.mp hx]
    exact h.not_mem_of_free hFree j
  · intro x
    rw [hAddress, h.eq_nil hNull]
    simp

end

----
-- What the Parts Do
----

/- The hops of a list are returned to the pool. -/
theorem srClearLoop_spec
    {l : List (Fin pool)} (hSeg : s.links.Seg p l .null)
    (hRun : srClearLoop fuel p s = some ((), s')) :
    ∃ ua, s' = { s with
        ua := ua
        address := fun e =>
          if e ∈ l then none else s.address e } := by
  induction l generalizing s p fuel with
  | nil =>
    have hNull : p = .null := hSeg
    subst hNull
    cases fuel with
    | zero => cases hRun
    | succ fuel =>
      cases hRun
      exact ⟨s'.ua, by simp⟩
  | cons x l ih =>
    rcases hSeg with ⟨rfl, hSeg⟩
    cases fuel with
    | zero => cases hRun
    | succ fuel =>
      rcases bind_eq_some.mp hRun with ⟨_, _, hGet, hRun⟩
      cases hGet
      rcases bind_eq_some.mp hRun with ⟨_, _, hRem, hRun⟩
      cases hRem
      rcases bind_eq_some.mp hRun with ⟨_, _, hSet, hRun⟩
      cases hSet
      rcases ih (by exact hSeg) hRun with ⟨ua, hEq⟩
      refine ⟨ua, hEq.trans ?_⟩
      dsimp only
      congr 1
      funext e
      by_cases hx : e = x
      · subst hx
        simp
      · simp [hx]

/- A hop is taken from the pool, or the pool is as before. -/
theorem fibSrNewEntry_spec
    {res : Option (Fin pool)} (hRun : fibSrNewEntry addr s = some (res, s')) :
    (∃ ua, res = none ∧ s' = { s with ua := ua }) ∨ ∃ e k ua, res = some e ∧ s.Takes addr e ∧ s' =
          { s with
            ua := ua
            address := Function.update s.address e (some k) } := by
  rcases bind_eq_some.mp hRun with ⟨_, _, hGet, hRun⟩
  cases hGet
  cases hFind : (List.finRange pool).find? (fun e => decide (s.address e = none)) with
  | none =>
    simp only [hFind] at hRun
    cases hRun
    exact Or.inl ⟨s.ua, rfl, rfl⟩
  | some e =>
    simp only [hFind] at hRun
    rcases bind_eq_some.mp hRun with ⟨entry, _, hAdd, hRun⟩
    cases hAdd
    rcases bind_eq_some.mp hRun with ⟨_, _, hSet, hRun⟩
    cases hSet
    have hFree : s.address e = none := by
      have hSat := List.find?_some hFind
      simpa using hSat
    cases hEntry : (universalAddressAdd s.ua addr).2 with
    | none =>
      rw [hEntry, if_pos rfl] at hRun
      cases hRun
      refine Or.inl ⟨(universalAddressAdd s.ua addr).1, rfl, ?_⟩
      have hSame : Function.update s.address e none = s.address := by
        rw [← hFree]
        exact Function.update_eq_self e s.address
      dsimp only
      rw [hSame]
    | some k =>
      rw [hEntry, if_neg (fun hEq => by cases hEq)] at hRun
      cases hRun
      refine Or.inr ⟨e, k, (universalAddressAdd s.ua addr).1, rfl, ⟨hFind, ?_⟩, rfl⟩
      rw [hEntry]
      intro hEq
      cases hEq

theorem FibTable.Takes.free
    (hTakes : s.Takes addr e) :
    s.address e = none := by
  have hSat := List.find?_some hTakes.1
  simpa using hSat

/- An empty source route expires. -/
theorem fibSrCheckLifetime_expired
    (hNull : s.links (.head i) = .null)
    (hRun : fibSrCheckLifetime i s = some (true, s')) :
    s' = { s with
        reads := s.reads + 1
        headers := Function.update s.headers i { s.headers i with lifetime := 0 }
        links := s.links.set (.head i) .null } := by
  rcases bind_eq_some.mp hRun with ⟨now, t, hNow, hRest⟩
  cases hNow
  rcases bind_eq_some.mp hRest with ⟨_, _, hGet, hEnd⟩
  cases hGet
  dsimp only at hEnd
  split at hEnd
  · rcases bind_eq_some.mp hEnd with ⟨_, _, hSet, hEnd⟩
    cases hSet
    rcases bind_eq_some.mp hEnd with ⟨_, _, hRem, hEnd⟩
    rw [hNull] at hRem
    cases hRem
    rcases bind_eq_some.mp hEnd with ⟨_, _, hLink, hEnd⟩
    cases hLink
    cases hEnd
    rfl
  · cases hEnd

/- There are paths that meet the invariant. -/
def FibTable.Sane
    (s : FibTable size pool) : Prop :=
  ∃ paths, SrInv s paths

/- The lifetime of one source route changes, if at all. -/
theorem live_update_iff
    {hdr : FibSr} {j : Fin size} (hj : j ≠ i)
    (hHeaders : s'.headers = Function.update s.headers i hdr) :
    s'.Live j ↔ s.Live j := by
  unfold FibTable.Live
  rw [hHeaders, Function.update_of_ne hj]

theorem SrInv.expired
    (h : SrInv s paths) (hEmpty : s.ExpiresEmpty i)
    (hRun : fibSrCheckLifetime i s = some (true, s')) :
    s'.Sane := by
  have hExp : s.Expired i := (fibSrCheckLifetime_spec hRun).1.symm
  have hNull := hEmpty hExp
  have hEq := fibSrCheckLifetime_expired hNull hRun
  refine ⟨_, h.emptied hNull ?_ ?_ ?_ ?_ ?_ ?_ ?_⟩
  · intro j hj
    exact live_update_iff hj (by rw [hEq])
  · rw [hEq]
    exact set_same _ _ _
  · intro j hj
    rw [hEq]
    exact set_of_ne _ _ (by simpa using hj)
  · intro x
    rw [hEq]
    exact set_head_entry s.links i .null x
  · intro j _
    rw [hEq]
  · intro hLive
    exfalso
    apply hLive
    rw [hEq]
    dsimp only
    rw [Function.update_self]
  · rw [hEq]

/- The paths are read from these parts of a table. -/
theorem FibTable.Sane.congr
    (h : s.Sane) (hHeaders : s'.headers = s.headers) (hLinks : s'.links = s.links)
    (hDest : s'.srDest = s.srDest)
    (hAddress : ∀ e, s'.address e ≠ none ↔ s.address e ≠ none) :
    s'.Sane := by
  rcases h with ⟨paths, h⟩
  refine ⟨paths, h.congr ?_ hLinks hDest hAddress⟩
  intro i
  unfold FibTable.Live
  rw [hHeaders]

/- Unlocking and returning keeps the paths. -/
theorem FibTable.Sane.of_unlock_return
    {α : Type} {a b : α} (h : s.Sane)
    (hRun : (fibUnlock >>= fun _ => (pure a : FibM size pool α)) s = some (b, s')) :
    s'.Sane := by
  cases hRun
  exact h.congr rfl rfl rfl (fun _ => Iff.rfl)

/- What a check of the lifetime leaves. -/
theorem FibTable.Sane.checked
    {expired : Bool} (h : s.Sane) (hEmpty : s.ExpiresEmpty i)
    (hRun : fibSrCheckLifetime i s = some (expired, s')) :
    (expired = true ∧ s'.Sane) ∨
      (expired = false ∧ ¬ s.Expired i ∧ s' = { s with reads := s.reads + 1 }) := by
  rcases fibSrCheckLifetime_spec hRun with ⟨hExp, hSame⟩
  cases expired with
  | true =>
    rcases h with ⟨paths, h⟩
    exact Or.inl ⟨rfl, h.expired hEmpty hRun⟩
  | false =>
    refine Or.inr ⟨rfl, ?_, hSame rfl⟩
    intro hYes
    have hTrue : false = true := hExp.trans hYes
    cases hTrue

/- A search changes nothing. -/
theorem srFind_spec
    {found : Option (Link (Fin pool) × Fin pool)}
    (hRun : srFind i addr s = some (found, s')) :
    s' = s ∧ (found = none ↔ s.Lacks i addr) := by
  rcases bind_eq_some.mp hRun with ⟨_, _, hGet, hWalk⟩
  cases hGet
  rcases srFindLoop_spec hWalk with ⟨rfl, hIff⟩
  refine ⟨rfl, ?_⟩
  constructor
  · rintro rfl e ⟨l, hSeg⟩ hAddr
    exact hIff.mpr ⟨l, e, hSeg, hAddr⟩ rfl
  · intro hLacks
    by_contra hFound
    rcases hIff.mp hFound with ⟨l, e, hSeg, hAddr⟩
    exact hLacks e ⟨l, hSeg⟩ hAddr

/-
  The walk to a hop stops at the hop, and the hops up to it do
  not have the new address.
-/
theorem srAddLoop_spec
    {srPathEntry : HopPtr pool} {l : List (Fin pool)} {res : Option (Option (Fin pool))}
    (hSeg : s.links.Seg p l .null)
    (hRun : srAddLoop addr srPathEntry fuel p s = some (res, s')) :
    s' = s ∧ ∀ x, res = some (some x) →
        srPathEntry = .hop x ∧ ∃ a b, l = a ++ x :: b ∧ ∀ y ∈ a ++ [x], ¬ HasAddress s y addr := by
  induction l generalizing p fuel with
  | nil =>
    have hNull : p = .null := hSeg
    subst hNull
    cases fuel with
    | zero => cases hRun
    | succ fuel =>
      cases hRun
      refine ⟨rfl, ?_⟩
      intro x hx
      cases hx
  | cons y l ih =>
    rcases hSeg with ⟨rfl, hSeg⟩
    cases fuel with
    | zero => cases hRun
    | succ fuel =>
      rcases bind_eq_some.mp hRun with ⟨_, _, hGet, hRun⟩
      cases hGet
      rcases bind_eq_some.mp hRun with ⟨⟨ret, n⟩, t, hComp, hRun⟩
      rcases uaCompare_spec hComp with ⟨rfl, c, hc, hRes⟩
      dsimp only at hRun
      by_cases hEqual : ret = .equal
      · rw [if_pos hEqual] at hRun
        cases hRun
        refine ⟨rfl, ?_⟩
        intro x hx
        cases hx
      · rw [if_neg hEqual] at hRun
        have hNot : ¬ HasAddress t y addr := by
          rintro ⟨c', hc', hSame⟩
          rw [hc] at hc'
          cases hc'
          rw [← hRes] at hSame
          exact hEqual hSame
        by_cases hHop : srPathEntry = .hop y
        · rw [if_pos hHop] at hRun
          cases hRun
          refine ⟨rfl, ?_⟩
          intro x hx
          cases hx
          refine ⟨hHop, [], l, rfl, ?_⟩
          intro z hz
          rw [List.nil_append, List.mem_singleton] at hz
          exact hz ▸ hNot
        · rw [if_neg hHop] at hRun
          rcases ih hSeg hRun with ⟨rfl, hFound⟩
          refine ⟨rfl, ?_⟩
          intro x hx
          rcases hFound x hx with ⟨hAt, a, b, rfl, hAll⟩
          refine ⟨hAt, y :: a, b, rfl, ?_⟩
          intro z hz
          rw [List.cons_append, List.mem_cons] at hz
          rcases hz with rfl | hz
          · exact hNot
          · exact hAll z hz

/- The hop to be overwritten has an address. -/
theorem srOverwriteLoop_spec
    {addrOld addrNew : List UInt8} {eltRepl : Option (Fin pool)}
    {res : Option (Option (Fin pool))}
    (hOld : ∀ x, eltRepl = some x → s.address x ≠ none)
    (hRun : srOverwriteLoop addrOld addrNew fuel eltRepl p s = some (res, s')) :
    s' = s ∧ ∀ x, res = some (some x) → s.address x ≠ none := by
  induction fuel generalizing eltRepl p with
  | zero => cases hRun
  | succ fuel ih =>
    cases p with
    | null =>
      cases hRun
      refine ⟨rfl, ?_⟩
      intro x hx
      exact hOld x (Option.some.inj hx)
    | mark => cases hRun
    | ref y =>
      rcases bind_eq_some.mp hRun with ⟨_, _, hGet, hRun⟩
      cases hGet
      rcases bind_eq_some.mp hRun with ⟨⟨ret, n⟩, t, hComp, hRun⟩
      rcases uaCompare_spec hComp with ⟨rfl, c, hc, _⟩
      dsimp only at hRun
      rcases bind_eq_some.mp hRun with ⟨⟨ret', n'⟩, t', hComp', hRun⟩
      rcases uaCompare_spec hComp' with ⟨rfl, _⟩
      dsimp only at hRun
      by_cases hEqual : ret' = .equal
      · rw [if_pos hEqual] at hRun
        cases hRun
        refine ⟨rfl, ?_⟩
        intro x hx
        cases hx
      · rw [if_neg hEqual] at hRun
        refine ih ?_ hRun
        intro x hx
        by_cases hRet : ret = .equal
        · rw [if_pos hRet] at hx
          cases hx
          intro hNone
          rw [hNone] at hc
          cases hc
        · rw [if_neg hRet] at hx
          exact hOld x hx

----
-- What the Events Do
----

/- The mutex is not part of what the paths depend on. -/
theorem FibTable.Sane.locked
    (h : s.Sane) (hRun : fibLock s = some ((), s')) :
    s'.Sane ∧ s' = { s with mtxAccess := true } := by
  rcases fibLock_spec hRun with ⟨_, rfl⟩
  exact ⟨h.congr rfl rfl rfl (fun _ => Iff.rfl), rfl⟩

theorem FibTable.Sane.createLoop
    {l : List (Fin size)} {res : Option (Fin size)} (h : s.Sane)
    (hRun : fibSrCreateLoop srIfaceId srFlags srLifetime l s = some (res, s')) :
    s'.Sane := by
  induction l with
  | nil =>
    cases hRun
    exact h
  | cons i rest ih =>
    rcases bind_eq_some.mp hRun with ⟨_, _, hGet, hRun⟩
    cases hGet
    by_cases hFree : (s.headers i).lifetime = 0
    · rw [if_pos hFree] at hRun
      rcases bind_eq_some.mp hRun with ⟨_, _, hLink, hRun⟩
      cases hLink
      rcases bind_eq_some.mp hRun with ⟨_, _, hDest, hRun⟩
      cases hDest
      rcases h with ⟨paths, h⟩
      have hNull : s.links (.head i) = .null := by
        have hPath := h.path i
        rw [h.dead i (fun hLive => hLive hFree)] at hPath
        exact IsList.nil_iff.mp hPath
      have hSame : ∃ hdr, s'.headers = Function.update s.headers i hdr ∧
            s'.links = s.links.set (.head i) .null ∧
            s'.srDest = Function.update s.srDest i none ∧ s'.address = s.address := by
        split at hRun
        · cases hRun
          exact ⟨_, rfl, rfl, rfl, rfl⟩
        · cases hRun
          exact ⟨_, rfl, rfl, rfl, rfl⟩
      rcases hSame with ⟨hdr, hHeaders, hLinks, hDest, hAddress⟩
      refine ⟨_, h.emptied hNull ?_ ?_ ?_ ?_ ?_ ?_ hAddress⟩
      · intro j hj
        exact live_update_iff hj hHeaders
      · rw [hLinks]
        exact set_same _ _ _
      · intro j hj
        rw [hLinks]
        exact set_of_ne _ _ (by simpa using hj)
      · intro x
        rw [hLinks]
        exact set_head_entry s.links i .null x
      · intro j hj
        rw [hDest, Function.update_of_ne hj]
      · intro _
        rw [hDest, Function.update_self]
    · rw [if_neg hFree] at hRun
      exact ih hRun

theorem FibTable.Sane.create
    {fibSrGiven : Bool} {ret : FibRet × Option (Fin size)} (h : s.Sane)
    (hRun : fibSrCreate fibSrGiven srIfaceId srFlags srLifetime s = some (ret, s')) :
    s'.Sane := by
  rcases bind_eq_some.mp hRun with ⟨_, t, hLock, hRun⟩
  have hSane := (h.locked hLock).1
  split at hRun
  · exact hSane.of_unlock_return hRun
  · rcases bind_eq_some.mp hRun with ⟨res, t', hLoop, hRun⟩
    have hNew := hSane.createLoop hLoop
    cases res with
    | none => exact hNew.of_unlock_return hRun
    | some i => exact hNew.of_unlock_return hRun

theorem FibTable.Sane.readHead
    {ret : FibRet × Option FibSr} (h : s.Sane) (hEmpty : s.ExpiresEmpty i)
    (hRun : fibSrReadHead (.header i) true s = some (ret, s')) :
    s'.Sane := by
  rcases bind_eq_some.mp hRun with ⟨_, t, hLock, hRun⟩
  rcases h.locked hLock with ⟨hSane, rfl⟩
  rcases bind_eq_some.mp hRun with ⟨expired, t, hCheck, hRun⟩
  rcases hSane.checked hEmpty hCheck with ⟨rfl, hExp⟩ | ⟨rfl, _, rfl⟩
  · exact hExp.of_unlock_return hRun
  · cases hRun
    exact h.congr rfl rfl rfl (fun _ => Iff.rfl)

theorem FibTable.Sane.overwrite
    {addrOld addrNew : List UInt8} (h : s.Sane) (hEmpty : s.ExpiresEmpty i)
    (hRun : fibSrEntryOverwrite (.header i) (some addrOld) (some addrNew) s = some (ret, s')) :
    s'.Sane := by
  rcases bind_eq_some.mp hRun with ⟨_, t, hLock, hRun⟩
  rcases h.locked hLock with ⟨hSane, rfl⟩
  rcases bind_eq_some.mp hRun with ⟨expired, t, hCheck, hRun⟩
  rcases hSane.checked hEmpty hCheck with ⟨rfl, hExp⟩ | ⟨rfl, _, rfl⟩
  · exact hExp.of_unlock_return hRun
  · have hRead : FibTable.Sane
          { s with mtxAccess := true, reads := s.reads + 1 } :=
      h.congr rfl rfl rfl (fun _ => Iff.rfl)
    rcases bind_eq_some.mp hRun with ⟨_, _, hGet, hRun⟩
    cases hGet
    rcases bind_eq_some.mp hRun with ⟨res, t, hLoop, hRun⟩
    rcases srOverwriteLoop_spec (by simp) hLoop with ⟨rfl, hFound⟩
    rcases res with _ | _ | e
    · exact hRead.of_unlock_return hRun
    · exact hRead.of_unlock_return hRun
    · rcases bind_eq_some.mp hRun with ⟨_, _, hGet, hRun⟩
      cases hGet
      rcases bind_eq_some.mp hRun with ⟨_, _, hRem, hRun⟩
      cases hRem
      rcases bind_eq_some.mp hRun with ⟨add, t, hAdd, hRun⟩
      have hSame : t.headers = s.headers ∧ t.links = s.links ∧
            t.srDest = s.srDest ∧ t.address = s.address := by
        cases hAdd
        exact ⟨rfl, rfl, rfl, rfl⟩
      rcases hSame with ⟨hHeaders, hLinks, hDest, hAddress⟩
      cases add with
      | none =>
        cases hRun
        refine h.congr hHeaders hLinks hDest ?_
        intro x
        dsimp only
        rw [hAddress]
      | some k =>
        cases hRun
        refine h.congr hHeaders hLinks hDest ?_
        intro x
        dsimp only
        rw [hAddress]
        by_cases hx : x = e
        · subst hx
          rw [Function.update_self]
          have hOld := hFound x rfl
          exact ⟨fun _ => hOld, fun _ => by simp⟩
        · rw [Function.update_of_ne hx]

/- A table with another clock reading, locked or not. -/
theorem SrInv.same
    {b : Bool} {n : Nat} {ua : UaTable} (h : SrInv s paths) :
    SrInv { s with mtxAccess := b, reads := n, ua := ua } paths :=
  h.congr (fun _ => Iff.rfl) rfl rfl (fun _ => Iff.rfl)

/- A store of what a field holds changes nothing. -/
theorem address_update_iff
    {k : Nat} (y : Fin pool) :
    Function.update s.address e (some k) y ≠ none ↔ y = e ∨ s.address y ≠ none := by
  by_cases hy : y = e
  · subst hy
    simp
  · rw [Function.update_of_ne hy]
    simp [hy]

/- A hop is taken and linked in at the end of the path. -/
theorem SrInv.append
    {k : Nat} (h : SrInv s paths) (hLive : s.Live i) (hFree : s.address e = none)
    (hEnd : s.links (.entry e) = .null) (hHeaders : s'.headers = s.headers)
    (hLinks : s'.links = match s.srDest i with
        | some tmp => s.links.set (.entry tmp) (.ref e)
        | none => s.links.set (.head i) (.ref e))
    (hDest : s'.srDest = Function.update s.srDest i (some e))
    (hAddress : s'.address = Function.update s.address e (some k)) :
    s'.Sane := by
  have hSame : ∀ j, s'.Live j ↔ s.Live j := by
    intro j
    unfold FibTable.Live
    rw [hHeaders]
  have hOthers : ∀ j, j ≠ i → s'.srDest j = s.srDest j := by
    intro j hj
    rw [hDest, Function.update_of_ne hj]
  have hLast : s'.srDest i = some e := by
    rw [hDest, Function.update_self]
  have hUsed : ∀ y, s'.address y ≠ none ↔ y = e ∨ s.address y ≠ none := by
    intro y
    rw [hAddress]
    exact address_update_iff y
  have hOld := h.dest i hLive
  cases hTmp : s.srDest i with
  | none =>
    rw [hTmp] at hLinks hOld
    have hNil : paths i = [] := List.getLast?_eq_none_iff.mp hOld.symm
    have hPath := h.path i
    rw [hNil] at hPath
    exact ⟨_, h.started (IsList.nil_iff.mp hPath) hLive hFree hEnd hLinks hSame hOthers hLast hUsed⟩
  | some tmp =>
    rw [hTmp] at hLinks hOld
    rcases List.getLast?_eq_some_iff.mp hOld.symm with ⟨a, ha⟩
    have hNe : e ≠ tmp := by
      rintro rfl
      refine h.not_mem_of_free hFree i ?_
      rw [ha]
      simp
    refine ⟨_, h.spliced (c := []) (v := .null) ha hFree
      (List.Sublist.refl _) rfl ?_ hSame hOthers ?_ ?_⟩
    · rw [hLinks]
      have hKept : (s.links.set (.entry tmp) (.ref e)) (.entry e) = .null := by
        rw [set_of_ne _ _ (by simpa using hNe), hEnd]
      conv_rhs => rw [← hKept]
      exact (Function.update_eq_self _ _).symm
    · rw [hLast]
      simp
    · intro y
      rw [hUsed]
      simp

theorem FibTable.Sane.append
    (h : s.Sane) (hSafe : SrEvent.Safe s (.append (.header i) (some addr)))
    (hRun : fibSrEntryAppend (.header i) (some addr) s = some (ret, s')) :
    s'.Sane := by
  rcases bind_eq_some.mp hRun with ⟨_, t, hLock, hRun⟩
  rcases h.locked hLock with ⟨hSane, rfl⟩
  rcases bind_eq_some.mp hRun with ⟨expired, t, hCheck, hRun⟩
  rcases hSane.checked hSafe.1 hCheck with ⟨rfl, hExp⟩ | ⟨rfl, hNot, rfl⟩
  · exact hExp.of_unlock_return hRun
  · rcases h with ⟨paths, h⟩
    rcases bind_eq_some.mp hRun with ⟨found, t, hFind, hRun⟩
    rcases srFind_spec hFind with ⟨rfl, hLacks⟩
    cases found with
    | some found => exact FibTable.Sane.of_unlock_return ⟨paths, h.same⟩ hRun
    | none =>
      rcases bind_eq_some.mp hRun with ⟨res, t, hNew, hRun⟩
      rcases fibSrNewEntry_spec hNew with ⟨ua, rfl, rfl⟩ | ⟨e, k, ua, rfl, hTakes, rfl⟩
      · exact FibTable.Sane.of_unlock_return ⟨paths, h.same⟩ hRun
      · rcases hSafe.2 hNot (hLacks.mp rfl) e hTakes with ⟨hLive, hEnd⟩
        rcases bind_eq_some.mp hRun with ⟨_, _, hGet, hRun⟩
        cases hGet
        cases hTmp : s.srDest i with
        | none =>
          simp only [hTmp] at hRun
          cases hRun
          exact h.append (k := k) hLive hTakes.free hEnd rfl (by rw [hTmp]) rfl rfl
        | some tmp =>
          simp only [hTmp] at hRun
          cases hRun
          exact h.append (k := k) hLive hTakes.free hEnd rfl (by rw [hTmp]) rfl rfl

/- A hop is taken and linked in behind a hop of the path. -/
theorem SrInv.insert
    {a b : List (Fin pool)} {x e : Fin pool} {k : Nat} {ua : UaTable} {keep : Bool}
    (h : SrInv s paths) (hPath : paths i = a ++ x :: b) (hFree : s.address e = none)
    (hKeep : keep = true → s.srDest i ≠ some x)
    (hRun : srInsert i x e keep
        { s with ua := ua, address := Function.update s.address e (some k) } =
        some ((), s')) :
    s'.Sane := by
  have hNot : e ∉ a ++ x :: b := by
    rw [← hPath]
    exact h.not_mem_of_free hFree i
  have hList := h.path i
  rw [hPath] at hList
  have hTail : s.links.Seg (s.links (.entry x)) b .null := by
    rcases Seg.append_iff.mp hList.2 with ⟨r, _, _, hSeg⟩
    exact hSeg
  have hLive : s.Live i := by
    apply h.live_of_mem (e := x)
    rw [hPath]
    simp
  have hOld := h.dest i hLive
  rcases bind_eq_some.mp hRun with ⟨_, _, hGet, hRun⟩
  cases hGet
  rcases bind_eq_some.mp hRun with ⟨_, _, hLink, hRun⟩
  cases hLink
  cases keep with
  | true =>
    rw [if_pos rfl] at hRun
    cases hRun
    refine ⟨_, h.spliced hPath hFree (List.Sublist.refl b)
      hTail rfl (fun _ => Iff.rfl) (fun _ _ => rfl) ?_ ?_⟩
    · dsimp only
      rw [hOld, hPath]
      cases b with
      | nil =>
        exfalso
        apply hKeep rfl
        rw [hOld, hPath]
        simp
      | cons y b => simp
    · intro y
      rw [address_update_iff]
      simp
  | false =>
    rw [if_neg (by simp)] at hRun
    rcases bind_eq_some.mp hRun with ⟨_, t, hClear, hRun⟩
    have hNotB : x ∉ b := (List.nodup_cons.mp (List.nodup_append.mp hList.1).2.1).1
    rcases srClearLoop_spec (by exact hTail.set_of_notMem hNotB) hClear with ⟨ua', rfl⟩
    cases hRun
    refine ⟨_, h.spliced (c := []) (v := .null) hPath hFree
      (List.nil_sublist b) rfl rfl (fun _ => Iff.rfl) ?_ ?_
      ?_⟩
    · intro j hj
      exact Function.update_of_ne hj _ _
    · dsimp only
      rw [Function.update_self]
      simp
    · intro y
      dsimp only
      by_cases hy : y ∈ b
      · have hNe : y ≠ e := by
          rintro rfl
          exact hNot (by simp [hy])
        simp [hy, hNe]
      · rw [if_neg hy, address_update_iff]
        simp [hy]

/- A hop of a path is met on the way along it. -/
theorem SrInv.onPath_iff
    (h : SrInv s paths) :
    OnPath s i e ↔ e ∈ paths i := by
  constructor
  · rintro ⟨l, hSeg⟩
    have hClosed : ∀ x y, x ∈ paths i → s.links (.entry x) = .ref y → y ∈ paths i := by
      intro x y hx hRef
      rcases List.append_of_mem hx with ⟨a, b, hEq⟩
      have hList := (h.path i).2
      rw [hEq] at hList ⊢
      rcases Seg.append_iff.mp hList with ⟨r, _, _, hTail⟩
      cases b with
      | nil =>
        rw [hTail] at hRef
        cases hRef
      | cons z b =>
        rw [hTail.1] at hRef
        cases hRef
        simp
    refine (hSeg.mem_of_closed hClosed ?_).2 e rfl
    intro x hx
    have hList := (h.path i).2
    cases hPath : paths i with
    | nil =>
      rw [hPath] at hList
      rw [hx] at hList
      cases hList
    | cons y l =>
      rw [hPath] at hList
      rw [hx] at hList
      cases hList.1
      simp
  · intro he
    rcases List.append_of_mem he with ⟨a, b, hEq⟩
    have hList := (h.path i).2
    rw [hEq] at hList
    rcases Seg.append_iff.mp hList with ⟨r, hFront, hr, _⟩
    rw [hr] at hFront
    exact ⟨a, hFront⟩

theorem FibTable.Sane.add
    {srPathEntry : HopPtr pool} {keep : Bool} (h : s.Sane)
    (hSafe : SrEvent.Safe s (.add (.header i) srPathEntry (some addr) keep))
    (hRun : fibSrEntryAdd (.header i) srPathEntry (some addr) keep s = some (ret, s')) :
    s'.Sane := by
  rcases bind_eq_some.mp hRun with ⟨_, t, hLock, hRun⟩
  rcases h.locked hLock with ⟨hSane, rfl⟩
  by_cases hNull : srPathEntry = .null
  · simp only [fibIsSrInTable, hNull, if_true] at hRun
    exact hSane.of_unlock_return hRun
  simp only [fibIsSrInTable, hNull, if_false] at hRun
  rcases bind_eq_some.mp hRun with ⟨expired, t, hCheck, hRun⟩
  rcases hSane.checked (hSafe.1 hNull) hCheck with ⟨rfl, hExp⟩ | ⟨rfl, hNot, rfl⟩
  · exact hExp.of_unlock_return hRun
  · rcases h with ⟨paths, h⟩
    rcases bind_eq_some.mp hRun with ⟨_, _, hGet, hRun⟩
    cases hGet
    rcases bind_eq_some.mp hRun with ⟨found, t, hLoop, hRun⟩
    rcases srAddLoop_spec (by exact (h.path i).2) hLoop with ⟨rfl, hFound⟩
    rcases found with _ | _ | x
    · exact FibTable.Sane.of_unlock_return ⟨paths, h.same⟩ hRun
    · exact FibTable.Sane.of_unlock_return ⟨paths, h.same⟩ hRun
    · rcases hFound x rfl with ⟨hAt, a, b, hPath, hFront⟩
      rcases bind_eq_some.mp hRun with ⟨res, t, hNew, hRun⟩
      rcases fibSrNewEntry_spec hNew with ⟨ua, rfl, rfl⟩ | ⟨e, k, ua, rfl, hTakes, rfl⟩
      · exact FibTable.Sane.of_unlock_return ⟨paths, h.same⟩ hRun
      · rcases bind_eq_some.mp hRun with ⟨_, t, hInsert, hRun⟩
        refine FibTable.Sane.of_unlock_return ?_ hRun
        refine h.same.insert hPath hTakes.free ?_ hInsert
        intro hKeep hDest
        refine hSafe.2 hNot ?_ hKeep e x hTakes hAt hDest
        -- the walk came by all hops, as this is the last one
        intro y hy
        have hLive : s.Live i := by
          apply h.live_of_mem (e := x)
          rw [hPath]
          simp
        have hLast := h.dest i hLive
        rw [hDest, hPath] at hLast
        have hNil : b = [] := by
          have hNodup := (h.path i).1
          rw [hPath] at hNodup
          cases b with
          | nil => rfl
          | cons z b =>
            exfalso
            have hIn : x ∈ z :: b := by
              apply List.mem_of_getLast?
              simpa using hLast.symm
            exact (List.nodup_cons.mp (List.nodup_append.mp hNodup).2.1).1 hIn
        subst hNil
        apply hFront
        rw [← hPath]
        exact h.onPath_iff.mp hy

/- The hops of a path are returned to the pool. -/
theorem SrInv.cleared
    (h : SrInv s paths) (hHeads : s'.links = s.links.set (.head i) .null)
    (hLive : ∀ j, j ≠ i → (s'.Live j ↔ s.Live j))
    (hDest : ∀ j, j ≠ i → s'.srDest j = s.srDest j)
    (hDestI : s'.Live i → s'.srDest i = none)
    (hAddress : ∀ e, s'.address e = if e ∈ paths i then none else s.address e) :
    s'.Sane := by
  refine ⟨_, h.replaced (i := i) (IsList.nil_iff.mpr ?_) ?_ ?_
    hLive (fun _ => rfl) hDest hDestI ?_ ?_⟩
  · rw [hHeads]
    exact set_same _ _ _
  · intro j hj
    rw [hHeads]
    exact set_of_ne _ _ (by simpa using hj)
  · intro j _ x _
    rw [hHeads]
    exact set_head_entry s.links i .null x
  · intro x hx
    cases hx
  · intro x
    rw [hAddress]
    by_cases hx : x ∈ paths i
    · simp [hx]
    · simp [hx]

theorem FibTable.Sane.delete
    (h : s.Sane) (hRun : fibSrDelete (.header i) s = some (ret, s')) :
    s'.Sane := by
  rcases bind_eq_some.mp hRun with ⟨_, t, hLock, hRun⟩
  rcases h.locked hLock with ⟨_, rfl⟩
  rcases h with ⟨paths, h⟩
  rcases bind_eq_some.mp hRun with ⟨_, _, hGet, hRun⟩
  cases hGet
  rcases bind_eq_some.mp hRun with ⟨_, _, hHead, hRun⟩
  cases hHead
  rcases bind_eq_some.mp hRun with ⟨_, t, hClear, hRun⟩
  rcases srClearLoop_spec (by exact (h.path i).2) hClear with ⟨ua, rfl⟩
  cases hRun
  refine h.cleared rfl ?_ (fun _ _ => rfl) ?_ (fun _ => rfl)
  · intro j hj
    exact live_update_iff hj rfl
  · intro hLive
    exfalso
    apply hLive
    dsimp only
    rw [Function.update_self]

/- What is found on a path of one hop. -/
theorem srFindLoop_single
    {e x : Fin pool} {tmp : Link (Fin pool)} (hEnd : s.links (.entry e) = .null)
    (hRun : srFindLoop addr fuel (.ref e) (.ref e) s = some (some (tmp, x), s')) :
    tmp = .ref e ∧ x = e := by
  cases fuel with
  | zero => cases hRun
  | succ fuel =>
    rcases bind_eq_some.mp hRun with ⟨_, _, hGet, hRun⟩
    cases hGet
    rcases bind_eq_some.mp hRun with ⟨⟨r, n⟩, t, hComp, hRun⟩
    rcases uaCompare_spec hComp with ⟨rfl, _⟩
    dsimp only at hRun
    by_cases hEqual : r = .equal
    · rw [if_pos hEqual] at hRun
      cases hRun
      exact ⟨rfl, rfl⟩
    · rw [if_neg hEqual, hEnd] at hRun
      cases fuel with
      | zero => cases hRun
      | succ fuel => cases hRun

/- The only hop of a route is deleted. -/
theorem SrInv.removed
    (h : SrInv s paths) (hHead : s.links (.head i) = .ref e)
    (hEnd : s.links (.entry e) = .null)
    (hRun : srRemove i (.ref e) e false s = some ((), s')) :
    s'.Sane := by
  have hPath : paths i = [e] := by
    have hSeg := (h.path i).2
    rw [hHead] at hSeg
    cases hl : paths i with
    | nil =>
      rw [hl] at hSeg
      cases hSeg
    | cons x l =>
      rw [hl] at hSeg
      cases hSeg.1
      have hRest := hSeg.2
      rw [hEnd] at hRest
      cases l with
      | nil => rfl
      | cons y l => cases hRest.1
  have hDest : s.srDest i = some e := by
    rw [h.dest i (h.live_of_mem (e := e) (by simp [hPath])), hPath]
    rfl
  rcases bind_eq_some.mp hRun with ⟨_, _, hGet, hRun⟩
  cases hGet
  rcases bind_eq_some.mp hRun with ⟨_, _, hRem, hRun⟩
  cases hRem
  rcases bind_eq_some.mp hRun with ⟨_, t, hClear, hRun⟩
  have hSeg : s.links.Seg (.ref e) [e] .null := ⟨rfl, hEnd⟩
  rcases srClearLoop_spec (by exact hSeg) hClear with ⟨ua, rfl⟩
  rcases bind_eq_some.mp hRun with ⟨_, _, hTmp, hRun⟩
  cases hTmp
  rcases bind_eq_some.mp hRun with ⟨_, _, hGet, hRun⟩
  cases hGet
  dsimp only at hRun
  rw [hHead, hEnd, hDest] at hRun
  simp only [if_true] at hRun
  cases hRun
  refine h.cleared (i := i) rfl (fun _ _ => Iff.rfl) ?_ ?_ ?_
  · intro j hj
    exact Function.update_of_ne hj _ _
  · intro _
    exact Function.update_self ..
  · intro x
    rw [hPath]

theorem FibTable.Sane.entryDelete
    {keep : Bool} (h : s.Sane)
    (hSafe : SrEvent.Safe s (.entryDelete (.header i) addr keep))
    (hRun : fibSrEntryDelete (.header i) addr keep s = some (ret, s')) :
    s'.Sane := by
  rcases bind_eq_some.mp hRun with ⟨_, t, hLock, hRun⟩
  rcases h.locked hLock with ⟨hSane, rfl⟩
  rcases bind_eq_some.mp hRun with ⟨expired, t, hCheck, hRun⟩
  rcases hSane.checked hSafe.1 hCheck with ⟨rfl, hExp⟩ | ⟨rfl, hNot, rfl⟩
  · exact hExp.of_unlock_return hRun
  · rcases h with ⟨paths, h⟩
    rcases bind_eq_some.mp hRun with ⟨found, t, hFind, hRun⟩
    rcases srFind_spec hFind with ⟨rfl, hLacks⟩
    cases found with
    | none =>
      cases hRun
      exact ⟨paths, h.same⟩
    | some found =>
      rcases found with ⟨tmp, e⟩
      have hHas : ¬ s.Lacks i addr := by
        intro hYes
        cases hLacks.mpr hYes
      rcases hSafe.2 hNot hHas with ⟨rfl, x, hHead, hEnd⟩
      rcases bind_eq_some.mp hFind with ⟨_, _, hGet, hWalk⟩
      cases hGet
      dsimp only at hWalk
      rw [hHead] at hWalk
      rcases srFindLoop_single (by exact hEnd) hWalk with ⟨rfl, rfl⟩
      rcases bind_eq_some.mp hRun with ⟨_, t, hRemove, hRun⟩
      refine FibTable.Sane.of_unlock_return ?_ hRun
      exact SrInv.removed (by exact h.same) (by exact hHead) (by exact hEnd) hRemove

end

----
-- Runs
----

theorem effect_eq_some
    {α : Type} {m : FibM size pool α} {s s' : FibTable size pool}
    (hRun : effect m s = some ((), s')) :
    ∃ a, m s = some (a, s') := by
  rcases bind_eq_some.mp hRun with ⟨a, t, hFirst, hEnd⟩
  cases hEnd
  exact ⟨a, hFirst⟩

/- An operation that finds nothing to work on. -/
theorem FibTable.Sane.refused
    {α : Type} {a b : α} {s s' : FibTable size pool} (h : s.Sane)
    (hRun : (fibLock >>= fun _ =>
        fibUnlock >>= fun _ =>
          (pure a : FibM size pool α)) s = some (b, s')) :
    s'.Sane := by
  rcases bind_eq_some.mp hRun with ⟨_, t, hLock, hRun⟩
  exact (h.locked hLock).1.of_unlock_return hRun

/- Each safe event keeps the paths. -/
theorem SrEvent.sane
    {ev : SrEvent size pool} {s s' : FibTable size pool} (h : s.Sane)
    (hSafe : ev.Safe s) (hRun : ev.op.run s = some ((), s')) :
    s'.Sane := by
  cases ev with
  | create fibSrGiven srIfaceId srFlags srLifetime =>
    rcases effect_eq_some hRun with ⟨ret, hRun⟩
    exact h.create hRun
  | append fibSr addr =>
    rcases effect_eq_some hRun with ⟨ret, hRun⟩
    rcases fibSr with _ | _ | i
    · exact h.refused hRun
    · exact h.refused hRun
    · cases addr with
      | none => exact h.refused hRun
      | some addr => exact h.append hSafe hRun
  | add fibSr srPathEntry addr keep =>
    rcases effect_eq_some hRun with ⟨ret, hRun⟩
    rcases fibSr with _ | _ | i
    · exact h.refused hRun
    · exact h.refused hRun
    · cases addr with
      | none => exact h.refused hRun
      | some addr => exact h.add hSafe hRun
  | entryDelete fibSr addr keep =>
    rcases effect_eq_some hRun with ⟨ret, hRun⟩
    rcases fibSr with _ | _ | i
    · exact h.refused hRun
    · exact h.refused hRun
    · exact h.entryDelete hSafe hRun
  | overwrite fibSr addrOld addrNew =>
    rcases effect_eq_some hRun with ⟨ret, hRun⟩
    rcases fibSr with _ | _ | i
    · exact h.refused hRun
    · exact h.refused hRun
    · cases addrOld with
      | none => exact h.refused hRun
      | some addrOld =>
        cases addrNew with
        | none => exact h.refused hRun
        | some addrNew => exact h.overwrite hSafe hRun
  | delete fibSr =>
    rcases effect_eq_some hRun with ⟨ret, hRun⟩
    rcases fibSr with _ | _ | i
    · exact h.refused hRun
    · exact h.refused hRun
    · exact h.delete hRun
  | readHead fibSr outputs =>
    rcases effect_eq_some hRun with ⟨ret, hRun⟩
    rcases fibSr with _ | _ | i
    · exact h.refused hRun
    · exact h.refused hRun
    · cases outputs with
      | false => exact h.refused hRun
      | true => exact h.readHead hSafe hRun

/- The pool is sound in every run of safe events. -/
theorem srSound_of_reachable
    {s : FibTable size pool}
    (hReach : srSystem.ReachableVia (fun s ev => ev.Safe s) s) :
    SrSound s := by
  have hSane : s.Sane := by
    apply hReach.invariant (I := FibTable.Sane)
    · rintro s ⟨ua, clock, rfl⟩
      exact ⟨_, SrInv.init ua clock⟩
    · intro s ev s' h hSafe _ hExec
      rcases Option.map_eq_some_iff.mp hExec with ⟨⟨⟨⟩, t⟩, hRun, rfl⟩
      exact SrEvent.sane h hSafe hRun
  rcases hSane with ⟨paths, h⟩
  exact h.sound

instance
    (s : FibTable size pool) (ev : SrEvent size pool) :
    Decidable (srSystem.Enabled s ev) :=
  isTrue trivial

/- One source route, two hops, and containers for addresses. -/
def twoHops : FibTable 1 2 :=
  srInit ⟨[⟨0, []⟩, ⟨0, []⟩, ⟨0, []⟩], 0⟩ (fun _ => 1)

theorem twoHops_start :
    srSystem.Start twoHops :=
  ⟨_, _, rfl⟩

/- The first hop of a new source route. -/
theorem srSound_appended :
    ∃ s : FibTable 1 2,
      srSystem.ReachableVia (fun s ev => ev.Safe s) s ∧ s.srDest 0 = some 0 ∧ SrSound s := by
  have hRun :
      (srSystem.exec twoHops (.create true 7 0 1000)).any
        (fun s =>
          decide
            ((s.headers 0).lifetime ≠ 0 ∧ s.links (.head 0) = .null ∧
              ∀ e, s.links (.entry e) = .null) &&
          (srSystem.exec s (.append (.header 0) (some [1]))).any
            (fun s => decide (s.srDest 0 = some 0))) = true := by
    decide +kernel
  rcases (Option.any_eq_true _ _).mp hRun with ⟨s, hCreate, hBoth⟩
  rcases (Bool.and_eq_true_iff).mp hBoth with ⟨hNew, hAppend⟩
  rcases of_decide_eq_true hNew with ⟨hLive, hNull, hEnds⟩
  rcases (Option.any_eq_true _ _).mp hAppend with ⟨s', hExec, hDest⟩
  have hFirst :
      srSystem.ReachableVia (fun s ev => ev.Safe s) s :=
    .step (e := .create true 7 0 1000) (.start twoHops_start) trivial trivial hCreate
  have hReach : srSystem.ReachableVia (fun s ev => ev.Safe s) s' := by
    refine .step hFirst ?_ trivial hExec
    exact ⟨fun _ => hNull, fun _ _ e _ => ⟨hLive, hEnds e⟩⟩
  exact ⟨s', hReach, of_decide_eq_true hDest, srSound_of_reachable hReach⟩

/-
  A hop that was the first of a deleted route still points to
  the second one when it is taken from the pool again.
-/
theorem not_srSound_reused :
    ∃ s : FibTable 1 2, srSystem.Reachable s ∧ ¬ SrSound s := by
  have hRun :
      (srSystem.runVia (fun _ _ => True) twoHops
          [.create true 7 0 1000, .append (.header 0) (some [1]),
            .append (.header 0) (some [2]), .delete (.header 0), .create true 7 0 1000,
            .append (.header 0) (some [1])]).any
        (fun s => decide
          ((s.headers 0).lifetime ≠ 0 ∧ s.links (.head 0) = .ref 0 ∧
            s.links (.entry 0) = .ref 1 ∧ s.address 1 = none)) = true := by
    decide +kernel
  rcases System.exists_reachableVia_of_runVia
    twoHops_start hRun with
    ⟨s, _, hReach, hLive, hHead, hNext, hFree⟩
  refine ⟨s, hReach, ?_⟩
  rintro ⟨paths, hPaths, _, hUsed⟩
  have hSeg := (hPaths 0 hLive).1.2
  rw [hHead] at hSeg
  have hIn : (1 : Fin 2) ∈ paths 0 := by
    cases hPath : paths 0 with
    | nil =>
      rw [hPath] at hSeg
      cases hSeg
    | cons x l =>
      rw [hPath] at hSeg
      cases hSeg.1
      have hRest := hSeg.2
      rw [hNext] at hRest
      cases l with
      | nil => cases hRest
      | cons y l =>
        cases hRest.1
        simp
  exact (hUsed 1).mpr ⟨0, hLive, hIn⟩ hFree

end Riot
