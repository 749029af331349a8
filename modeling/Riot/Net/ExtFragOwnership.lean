import Mathlib.Algebra.BigOperators.Group.Multiset.Basic
import Mathlib.Tactic.Abel
import Riot.Net.Ipv6ExtFrag

/-
  The references that the fragmenter owns.

  Whatever becomes of a fragment, the references of its snips
  are accounted for: they stay in the send buffer, are in the
  fragment, or are given back.
-/

----
-- Chains
----

namespace Riot

/- The references that belong to a send buffer. -/
def SndBuf.ids
    (b : SndBuf) : Multiset Nat :=
  snipIds b.perFrag + snipIds b.pkt

def FragSnip.contents
    (p : FragSnip) : SnipType × List UInt8 :=
  (p.type, p.data)

/- The snips differ in nothing but where they are stored. -/
def SameContents
    (pkt pkt' : List FragSnip) : Prop :=
  pkt.map FragSnip.contents = pkt'.map FragSnip.contents

/- The headers of a fragment, with an IPv6 header. -/
def HeadersOk
    (hdrs : List FragSnip) : Prop :=
  hdrs.any (fun p => p.type == .ipv6) = true

@[simp]
theorem snipIds_nil :
    snipIds [] = 0 := rfl

@[simp]
theorem snipIds_cons
    (p : FragSnip) (pkt : List FragSnip) :
    snipIds (p :: pkt) = p.id ::ₘ snipIds pkt := rfl

@[simp]
theorem snipIds_append
    (pkt pkt' : List FragSnip) :
    snipIds (pkt ++ pkt') = snipIds pkt + snipIds pkt' := by
  rw [snipIds, List.map_append, ← Multiset.coe_add]
  rfl

@[simp]
theorem snipIds_setNh
    (nh : UInt8) (hdrs : List FragSnip) :
    snipIds (setNh nh hdrs) = snipIds hdrs := by
  induction hdrs with
  | nil => rfl
  | cons p rest ih =>
    unfold setNh
    split
    · rw [snipIds_cons, ih, snipIds_cons]
    · split
      · rfl
      · rfl

@[simp]
theorem snipIds_setLen
    (len : UInt16) (hdrs : List FragSnip) :
    snipIds (setLen len hdrs) = snipIds hdrs := by
  induction hdrs with
  | nil => rfl
  | cons p rest ih =>
    unfold setLen
    split
    · rw [snipIds_cons, ih, snipIds_cons]
    · split
      · rfl
      · rfl

/- The type and the size of a snip. -/
def FragSnip.shape
    (p : FragSnip) : SnipType × Nat :=
  (p.type, p.size)

theorem map_shape_setNh
    (nh : UInt8) (hdrs : List FragSnip) :
    (setNh nh hdrs).map FragSnip.shape = hdrs.map FragSnip.shape := by
  induction hdrs with
  | nil => rfl
  | cons p rest ih =>
    unfold setNh
    split
    · rw [List.map_cons, ih, List.map_cons]
    · split
      · simp [FragSnip.shape, FragSnip.size]
      · rfl

theorem SameContents.map_shape
    {pkt pkt' : List FragSnip} (h : SameContents pkt pkt') :
    pkt.map FragSnip.shape = pkt'.map FragSnip.shape := by
  have hShape := congrArg
    (List.map (fun x : SnipType × List UInt8 =>
      (x.1, x.2.length))) h
  rw [List.map_map, List.map_map] at hShape
  exact hShape

/- Headers are told by their types. -/
theorem HeadersOk.congr
    {hdrs hdrs' : List FragSnip} (h : HeadersOk hdrs)
    (hShape : hdrs'.map FragSnip.shape = hdrs.map FragSnip.shape) :
    HeadersOk hdrs' := by
  have hAny : ∀ pkt : List FragSnip, pkt.any (fun p => p.type == .ipv6) =
          (pkt.map FragSnip.shape).any (fun x => x.1 == .ipv6) := by
    intro pkt
    rw [List.any_map]
    rfl
  unfold HeadersOk at *
  rw [hAny, hShape, ← hAny]
  exact h

/- An IPv6 header has a next header field. -/
theorem HeadersOk.getNh_isSome
    {hdrs : List FragSnip} (h : HeadersOk hdrs) :
    ∃ nh, getNh hdrs = some nh := by
  induction hdrs with
  | nil => cases h
  | cons p rest ih =>
    unfold getNh
    cases hRest : getNh rest with
    | some nh => exact ⟨nh, rfl⟩
    | none =>
      by_cases hIpv6 : p.type = .ipv6
      · simp [FragSnip.nhPos, hIpv6]
      · have hTail : HeadersOk rest := by
          simpa [HeadersOk, hIpv6] using h
        rcases ih hTail with ⟨nh, hSome⟩
        rw [hRest] at hSome
        cases hSome

theorem HeadersOk.ne_nil
    {hdrs : List FragSnip} (h : HeadersOk hdrs) :
    hdrs ≠ [] := by
  rintro rfl
  cases h

----
-- Giving References Back
----

namespace ExtFrag

variable {env : ExtFragEnv} {s : ExtFrag} {base : Multiset Nat}

theorem release_eq
    {pkt : List FragSnip} (hOwned : s.owned = base + snipIds pkt) :
    release s pkt = some { s with owned := base } := by
  induction pkt generalizing s with
  | nil =>
    rw [snipIds_nil, add_zero] at hOwned
    rw [release, ← hOwned]
  | cons p rest ih =>
    rw [snipIds_cons, Multiset.add_cons] at hOwned
    rw [release, hOwned, if_pos (Multiset.mem_cons_self ..), Multiset.erase_cons_head]
    exact ih rfl

/- The buffer is emptied and its references are given back. -/
theorem sndBufFree_eq
    {i : Nat} (hOwned : s.owned = base + (s.sndBufs i).ids) :
    s.sndBufFree i = some ({ s with owned := base }.sndBufDel i) := by
  have hFirst : s.owned = base + snipIds (s.sndBufs i).pkt + snipIds (s.sndBufs i).perFrag := by
    rw [hOwned, SndBuf.ids, add_assoc, add_comm (snipIds (s.sndBufs i).pkt)]
  unfold sndBufFree
  rw [release_eq hFirst, Option.bind_some]
  dsimp only
  rw [@release_eq { s with owned := base + snipIds (s.sndBufs i).pkt } base (s.sndBufs i).pkt rfl]
  rfl

theorem cancel_spec
    {i : Nat} {toSend : List FragSnip}
    (hOwned : s.owned = base + (s.sndBufs i).ids + snipIds toSend) :
    cancel s i toSend = some ({ s with owned := base }.sndBufDel i, []) := by
  unfold cancel
  rw [release_eq hOwned, Option.bind_some,
    @sndBufFree_eq { s with owned := base + (s.sndBufs i).ids } base i rfl]
  rfl

----
-- Headers
----

theorem startWrite_spec
    {p : FragSnip} (hOwned : s.owned = p.id ::ₘ base) :
    (startWrite env s p).1.sndBufs = s.sndBufs ∧ ((∃ p', (startWrite env s p).2 = some p' ∧
        p'.contents = p.contents ∧ (startWrite env s p).1.owned = p'.id ::ₘ base) ∨
      ((startWrite env s p).2 = none ∧ (startWrite env s p).1.owned = p.id ::ₘ base ∧
        ∃ id, env.alloc id = false)) := by
  unfold startWrite
  by_cases hUsers : s.owned.count p.id + (if env.shared p.id then 1 else 0) > 1
  · rw [if_pos hUsers]
    by_cases hAlloc : env.alloc s.nextId = true
    · rw [if_pos hAlloc]
      refine ⟨rfl, Or.inl ⟨_, rfl, rfl, ?_⟩⟩
      dsimp only
      rw [hOwned, Multiset.erase_cons_head]
    · rw [if_neg hAlloc]
      exact ⟨rfl, Or.inr ⟨rfl, hOwned, s.nextId, Bool.eq_false_iff.mpr hAlloc⟩⟩
  · rw [if_neg hUsers]
    exact ⟨rfl, Or.inl ⟨p, rfl, rfl, hOwned⟩⟩

/- Each header is used or copied, or is left over. -/
theorem addPerFrag_spec
    {hdrs : List FragSnip} (hOwned : s.owned = base + snipIds hdrs) :
    (addPerFrag env s hdrs).1.sndBufs = s.sndBufs ∧ (addPerFrag env s hdrs).1.owned =
      base + snipIds ((addPerFrag env s hdrs).2.1 ++ (addPerFrag env s hdrs).2.2) ∧
    SameContents ((addPerFrag env s hdrs).2.1 ++ (addPerFrag env s hdrs).2.2) hdrs ∧
    ((addPerFrag env s hdrs).2.2 ≠ [] → ∃ id, env.alloc id = false) := by
  induction hdrs generalizing s base with
  | nil => exact ⟨rfl, hOwned, rfl, fun hNe => absurd rfl hNe⟩
  | cons p rest ih =>
    have hFirst : s.owned = p.id ::ₘ (base + snipIds rest) := by
      rw [hOwned, snipIds_cons, Multiset.add_cons]
    rcases @startWrite_spec env s _ p hFirst with
      ⟨hBufs, ⟨p', hSome, hSame, hNext⟩ | ⟨hNone, hNext, hAlloc⟩⟩
    · have hNext' : (startWrite env s p).1.owned = (p'.id ::ₘ base) + snipIds rest := by
        rw [hNext, Multiset.cons_add]
      rcases ih hNext' with ⟨hBufs', hOwned', hSame', hTodo⟩
      have hEq : addPerFrag env s (p :: rest) = ((addPerFrag env (startWrite env s p).1 rest).1,
              p' :: (addPerFrag env (startWrite env s p).1 rest).2.1,
              (addPerFrag env (startWrite env s p).1 rest).2.2) := by
        rw [addPerFrag]
        split
        · rename_i hPair
          rw [hPair] at hSome
          cases hSome
        · rename_i hPair
          rw [hPair] at hSome ⊢
          cases hSome
          rfl
      rw [hEq]
      refine ⟨hBufs'.trans hBufs, ?_, ?_, hTodo⟩
      · rw [hOwned', List.cons_append, snipIds_cons, Multiset.cons_add, Multiset.add_cons]
      · unfold SameContents at hSame' ⊢
        rw [List.cons_append, List.map_cons, hSame', hSame, List.map_cons]
    · have hEq : addPerFrag env s (p :: rest) = ((startWrite env s p).1, [], p :: rest) := by
        rw [addPerFrag]
        split
        · rename_i hPair
          rw [hPair]
        · rename_i hPair
          rw [hPair] at hNone
          cases hNone
      rw [hEq]
      refine ⟨hBufs, ?_, rfl, fun _ => hAlloc⟩
      rw [hNext, List.nil_append, snipIds_cons, Multiset.add_cons]

/- The headers leave the same number of bytes. -/
theorem remainingAfter_congr
    {hdrs hdrs' : List FragSnip} (pathMtu : UInt16)
    (hShape : hdrs'.map FragSnip.shape = hdrs.map FragSnip.shape) :
    remainingAfter pathMtu hdrs' = remainingAfter pathMtu hdrs := by
  have hFold : ∀ (pkt : List FragSnip) (remaining : UInt16), pkt.foldl (fun remaining p =>
            if p.type = .netif then remaining
            else remaining - UInt16.ofNat p.size) remaining =
          (pkt.map FragSnip.shape).foldl (fun remaining x =>
            if x.1 = .netif then remaining
            else remaining - UInt16.ofNat x.2) remaining := by
    intro pkt remaining
    rw [List.foldl_map]
    rfl
  unfold remainingAfter
  rw [hFold, hShape, ← hFold]

----
-- The Rest of the Packet
----

/- Each byte is in the fragment or stays in the buffer. -/
theorem addRest_spec
    (last : Bool) (remaining offset : UInt16) {pkt : List FragSnip}
    (hOwned : s.owned = base + snipIds pkt) :
    (addRest env last s remaining offset pkt).frag.sndBufs = s.sndBufs ∧
    (addRest env last s remaining offset pkt).frag.owned = base + snipIds
          ((addRest env last s remaining offset pkt).parts ++
            (addRest env last s remaining offset pkt).pkt) ∧
    ((addRest env last s remaining offset pkt).full = true → ∃ id, env.alloc id = false) := by
  induction pkt generalizing s base remaining offset with
  | nil =>
    refine ⟨rfl, hOwned, ?_⟩
    intro hFull
    cases hFull
  | cons p rest ih =>
    unfold addRest
    split
    · refine ⟨rfl, hOwned, ?_⟩
      intro hFull
      cases hFull
    · split
      · have hFirst : s.owned = (p.id ::ₘ base) + snipIds rest := by
          rw [hOwned, snipIds_cons, Multiset.add_cons, Multiset.cons_add]
        rcases ih (remaining - UInt16.ofNat p.size)
            (offset + UInt16.ofNat p.size) hFirst with
          ⟨hBufs, hNext, hFull⟩
        refine ⟨hBufs, ?_, hFull⟩
        dsimp only
        rw [hNext, List.cons_append, snipIds_cons, Multiset.cons_add, Multiset.add_cons]
      · unfold mark
        by_cases hAlloc : env.alloc s.nextId = true
        · rw [if_pos hAlloc]
          refine ⟨rfl, ?_, ?_⟩
          · dsimp only
            rw [hOwned, List.singleton_append, snipIds_cons, snipIds_cons, snipIds_cons,
              Multiset.add_cons, Multiset.add_cons, Multiset.add_cons]
          · intro hFull
            cases hFull
        · rw [if_neg hAlloc]
          exact ⟨rfl, hOwned, fun _ => ⟨s.nextId, Bool.eq_false_iff.mpr hAlloc⟩⟩

----
-- Fragments
----

end ExtFrag

/- The bytes of a fragment that are left for the payload. -/
def SndBuf.remaining
    (b : SndBuf) : UInt16 :=
  ExtFrag.remainingAfter b.pathMtu b.perFrag - 8

/- A fragment with its headers and its part of the payload. -/
def SndBuf.fragment
    (b : SndBuf) (hdrs : List FragSnip) (hdrId : Nat) (nh : UInt8)
    (parts : List FragSnip) : List FragSnip :=
  let toSend := setNh Protnum.ipv6ExtFrag hdrs
  let hdr : FragSnip := ⟨hdrId, .ipv6Ext, fragHdrData nh b.offset (!ExtFrag.lastFragment b) b.id⟩
  let len := UInt16.ofNat (fragPktLen ((toSend ++ hdr :: parts).drop 2))
  setLen len toSend ++ hdr :: parts

/- The headers that the buffer keeps. -/
def SndBuf.keptHeaders
    (b : SndBuf) : List FragSnip :=
  if ExtFrag.lastFragment b then [] else b.perFrag

namespace ExtFrag

/- The call gave everything back. -/
inductive Cancels
    (env : ExtFragEnv) (s : ExtFrag) (i : Nat) (base : Multiset Nat) :
    Option (ExtFrag × List FragMsg) → Prop
| intro
    {s' : ExtFrag} {b : SndBuf}
    (hAlloc : ∃ id, env.alloc id = false)
    (hBufs : s'.sndBufs = Function.update s.sndBufs i b)
    (hPerFrag : b.perFrag = [])
    (hPkt : b.pkt = [])
    (hOwned : s'.owned = base) :
    Cancels env s i base (some (s', []))

/- The call posts a fragment. -/
inductive Posts
    (env : ExtFragEnv) (s : ExtFrag) (i : Nat) (base : Multiset Nat) :
    Option (ExtFrag × List FragMsg) → Prop
| intro
    {b : SndBuf} {last : Bool} {s₁ s₂ : ExtFrag} {r : RestAdded} {hdrs : List FragSnip}
    {hdrId : Nat} {nh : UInt8}
    (hBuf : b = s.sndBufs i)
    (hLast : last = lastFragment b)
    (hHdrs : SameContents hdrs b.perFrag)
    (hNh : getNh hdrs = some nh)
    (hRest : r = addRest env last s₁ b.remaining b.offset b.pkt)
    (hFull : r.full = false)
    (hBufs :
      s₂.sndBufs =
        Function.update s.sndBufs i
          { b with perFrag := b.keptHeaders, pkt := r.pkt, offset := r.offset })
    (hOwned :
      s₂.owned = base + (snipIds b.keptHeaders + snipIds r.pkt) +
          snipIds (b.fragment hdrs hdrId nh r.parts)) :
    Posts env s i base (some (postFragment env s₂ i last (b.fragment hdrs hdrId nh r.parts)))

variable {env : ExtFragEnv} {s : ExtFrag} {base : Multiset Nat}

theorem snipIds_fragment
    (b : SndBuf) (hdrs : List FragSnip) (hdrId : Nat) (nh : UInt8) (parts : List FragSnip) :
    snipIds (b.fragment hdrs hdrId nh parts) = snipIds hdrs + hdrId ::ₘ snipIds parts := by
  simp [SndBuf.fragment]

theorem cancel_cancels
    {i : Nat} {b : SndBuf} {s' : ExtFrag} {toSend : List FragSnip}
    (hAlloc : ∃ id, env.alloc id = false)
    (hBufs : s'.sndBufs = Function.update s.sndBufs i b)
    (hOwned : s'.owned = base + b.ids + snipIds toSend) :
    Cancels env s i base (cancel s' i toSend) := by
  have hAt : s'.sndBufs i = b := by
    rw [hBufs, Function.update_self]
  rw [← hAt] at hOwned
  rw [cancel_spec hOwned]
  refine .intro
    (b := { s'.sndBufs i with perFrag := [], pkt := [] }) hAlloc ?_ rfl rfl rfl
  simp only [sndBufDel, setBuf, hBufs, Function.update_idem]

theorem sendFragment_spec
    {i : Nat} {b : SndBuf} {s' : ExtFrag} {toSend : List FragSnip}
    (hBuf : b = s.sndBufs i)
    (hBufs : s'.sndBufs = Function.update s.sndBufs i { b with perFrag := b.keptHeaders })
    (hOwned : s'.owned = base + (snipIds b.keptHeaders + snipIds b.pkt) + snipIds toSend)
    (hSame : SameContents toSend b.perFrag) (hHdrs : HeadersOk b.perFrag) :
    Cancels env s i base (sendFragment env s' i b (lastFragment b) toSend) ∨
      Posts env s i base (sendFragment env s' i b (lastFragment b) toSend) := by
  have hToSend := hHdrs.congr hSame.map_shape
  rcases hToSend.getNh_isSome with ⟨nh, hNh⟩
  have hAt : s'.sndBufs i = { b with perFrag := b.keptHeaders } := by
    rw [hBufs, Function.update_self]
  unfold sendFragment extBuild
  rw [hNh]
  dsimp only
  by_cases hAlloc : env.alloc s'.nextId = true
  · rw [if_pos hAlloc]
    dsimp only
    have hRemaining :
        remainingAfter b.pathMtu (setNh Protnum.ipv6ExtFrag toSend) - 8 = b.remaining := by
      rw [SndBuf.remaining, remainingAfter_congr b.pathMtu
        ((map_shape_setNh ..).trans hSame.map_shape)]
    rw [hRemaining]
    have hRestOwned : s'.nextId ::ₘ s'.owned =
          (s'.nextId ::ₘ (base + snipIds b.keptHeaders + snipIds toSend)) + snipIds b.pkt := by
      rw [hOwned, Multiset.cons_add]
      congr 1
      abel
    rcases @addRest_spec env
        { s' with owned := s'.nextId ::ₘ s'.owned, nextId := s'.nextId + 1 } _ (lastFragment b)
        b.remaining b.offset b.pkt hRestOwned with
      ⟨hBufs', hOwned', hFull'⟩
    generalize hRest : addRest env (lastFragment b)
      { s' with owned := s'.nextId ::ₘ s'.owned, nextId := s'.nextId + 1 } b.remaining b.offset
      b.pkt = r at *
    have hNext : (r.frag.setBuf i
          { s'.sndBufs i with pkt := r.pkt, offset := r.offset }).sndBufs =
          Function.update s.sndBufs i
            { b with
              perFrag := b.keptHeaders
              pkt := r.pkt
              offset := r.offset } := by
      rw [hAt, setBuf, hBufs']
      simp only [hBufs, Function.update_idem]
    have hAll : r.frag.owned = base + (snipIds b.keptHeaders + snipIds r.pkt) +
            (snipIds toSend + s'.nextId ::ₘ snipIds r.parts) := by
      rw [hOwned', snipIds_append, Multiset.add_cons, Multiset.add_cons, Multiset.cons_add]
      congr 1
      abel
    cases hFull : r.full with
    | true =>
      left
      rw [if_pos rfl]
      refine cancel_cancels (hFull' hFull) hNext ?_
      rw [snipIds_append, snipIds_cons, snipIds_setNh]
      exact hAll
    | false =>
      right
      have hIpv6 : (setNh Protnum.ipv6ExtFrag toSend).any (fun p => p.type == .ipv6) = true :=
        hToSend.congr (map_shape_setNh ..)
      simp only [Bool.false_eq_true, if_false, hIpv6, if_true]
      refine .intro hBuf rfl hSame hNh hRest.symm hFull hNext ?_
      rw [snipIds_fragment]
      exact hAll
  · rw [if_neg hAlloc]
    left
    exact cancel_cancels ⟨s'.nextId, Bool.eq_false_iff.mpr hAlloc⟩ hBufs hOwned

/- A call either gives everything back or posts a fragment. -/
theorem gnrcIpv6ExtFragSend_spec
    {i : Nat} (hOwned : s.owned = base + (s.sndBufs i).ids)
    (hHdrs : HeadersOk (s.sndBufs i).perFrag) :
    Cancels env s i base (gnrcIpv6ExtFragSend env s i) ∨
      Posts env s i base (gnrcIpv6ExtFragSend env s i) := by
  generalize hBuf : s.sndBufs i = b at *
  have hEmpty : b.perFrag.isEmpty = false := by
    simpa using hHdrs.ne_nil
  have hStart : ∃ s', (if lastFragment b then s.setBuf i { b with perFrag := [] }
          else s.hold b.perFrag) = s' ∧
        s'.sndBufs = Function.update s.sndBufs i { b with perFrag := b.keptHeaders } ∧
        s'.owned = base + (snipIds b.keptHeaders + snipIds b.pkt) + snipIds b.perFrag := by
    refine ⟨_, rfl, ?_, ?_⟩
    · unfold SndBuf.keptHeaders
      split
      · rfl
      · exact (Function.update_eq_self_iff.mpr hBuf.symm).symm
    · unfold SndBuf.keptHeaders
      split
      · change s.owned = _
        rw [hOwned, SndBuf.ids, snipIds_nil]
        abel
      · change s.owned + snipIds b.perFrag = _
        rw [hOwned, SndBuf.ids]
  rcases hStart with ⟨s', hEq, hBufs, hOwned'⟩
  rcases @addPerFrag_spec env s' _ b.perFrag hOwned' with ⟨hBufs₁, hOwned₁, hSame, hTodo⟩
  unfold gnrcIpv6ExtFragSend
  simp only [hBuf, hEmpty, Bool.false_eq_true, if_false, hEq]
  by_cases hNil : (addPerFrag env s' b.perFrag).2.2 = []
  · rw [hNil, List.append_nil] at hOwned₁ hSame
    rw [hNil, List.isEmpty_nil, if_pos rfl]
    exact sendFragment_spec hBuf.symm (hBufs₁.trans hBufs) hOwned₁ hSame hHdrs
  · have hFalse : (addPerFrag env s' b.perFrag).2.2.isEmpty = false := by
      simpa using hNil
    rw [hFalse]
    left
    exact cancel_cancels (hTodo hNil) (hBufs₁.trans hBufs) hOwned₁

end ExtFrag

end Riot
