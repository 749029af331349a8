import Riot.Lib.System
import Riot.Net.ExtFragOwnership

/-
  The send buffers over whole runs.

  A send buffer counts as free if it has no payload. This agrees
  with the continuations that are outstanding as long as no
  fragment but the last takes all that is left of a packet.
-/

----
-- The System
----

namespace Riot

/- The continuations among posted messages. -/
def continues
    (msgs : List FragMsg) : List Nat :=
  msgs.filterMap (fun m =>
    match m with
    | .fragSend _ => none
    | .fragContinue i => some i)

/- The fragmenter, and the continuations outstanding. -/
structure ExtFragRun where
  frag : ExtFrag
  pending : List Nat

/- The fragmenter is given the references of a packet. -/
def ExtFrag.given
    (s : ExtFrag) (pkt : List (SnipType × List UInt8)) :
    ExtFrag × List FragSnip :=
  let snips := pkt.zipIdx.map (fun x =>
    ⟨s.nextId + x.2, x.1.1, x.1.2⟩)
  ({ s.hold snips with nextId := s.nextId + pkt.length }, snips)

inductive ExtFragEvent where
  | sendPkt
      (env : ExtFragEnv)
      (pkt : List (SnipType × List UInt8))
      (pathMtu : Nat)
  | continueSend
      (env : ExtFragEnv)
      (i : Nat)

def extFragExec
    (size : Nat)
    (r : ExtFragRun) : ExtFragEvent → Option ExtFragRun
| .sendPkt env pkt pathMtu =>
  ((r.frag.given pkt).1.gnrcIpv6ExtFragSendPkt env size
    (r.frag.given pkt).2 pathMtu).map (fun x =>
      ⟨x.1, r.pending ++ continues x.2⟩)
| .continueSend env i =>
  (r.frag.gnrcIpv6ExtFragSend env i).map (fun x =>
    ⟨x.1, r.pending.erase i ++ continues x.2⟩)

/- An interface header, an IPv6 header and more than headers. -/
def WellFormedPkt
    (pkt : List (SnipType × List UInt8)) : Prop :=
  ∃ netif ipv6 rest, pkt = (.netif, netif) :: (.ipv6, ipv6) :: rest ∧
    ∃ x ∈ rest, x.1 ≠ .ipv6 ∧ x.1 ≠ .ipv6Ext

def ExtFragEvent.Possible
    (r : ExtFragRun) : ExtFragEvent → Prop
| .sendPkt _ pkt _ => WellFormedPkt pkt
| .continueSend _ i => i ∈ r.pending

def extFragSystem
    (size : Nat) : System ExtFragRun ExtFragEvent where
  Start := fun r => r = ⟨ExtFrag.init, []⟩
  Enabled := fun r e => e.Possible r
  exec := extFragExec size

/-
  What is said of a state: a send buffer that is handed out has
  no continuation outstanding, the references still owned are
  those of the buffers with one, and no event fails.
-/
structure FragOwnership
    (size : Nat)
    (r : ExtFragRun) : Prop where
  allocFree : ∀ i, r.frag.sndBufAlloc size = some i → i ∉ r.pending
  refs : r.frag.owned = (r.pending.map (fun i => (r.frag.sndBufs i).ids)).sum
  noFault : ∀ e, ExtFragEvent.Possible r e → (extFragExec size r e).isSome = true

----
-- The Condition
----

/- The snips fit, and none begins where nothing remains. -/
def TakesAll
    (remaining : Nat) (pkt : List FragSnip) : Prop :=
  fragPktLen pkt ≤ remaining ∧ ∀ front p, pkt = front ++ [p] → fragPktLen front < remaining

/- Some snips end where the fragment ends, others follow. -/
def LeavesSnips
    (remaining : UInt16) (pkt : List FragSnip) : Prop :=
  ∃ front rest, pkt = front ++ rest ∧ rest ≠ [] ∧ UInt16.ofNat (fragPktLen front) = remaining

/-
  The last fragment takes all that is left of the packet, and no
  other one does.
-/
def SndBuf.Steady
    (b : SndBuf) : Prop :=
  if ExtFrag.lastFragment b then
    ¬ LeavesSnips b.remaining b.pkt
  else
    ¬ TakesAll b.remaining.toNat b.pkt

/- The messages of a call find a place in the queue. -/
def ExtFragEnv.Queues
    (env : ExtFragEnv) (b : SndBuf) : Prop :=
  env.sendQueued = true ∧ (ExtFrag.lastFragment b = false → env.continueQueued = true)

/- The send buffer that a packet is put into. -/
def sndBufFor
    (pkt : List FragSnip) (k : Nat) (id : UInt32)
    (pathMtu : Nat) : SndBuf where
  pkt := pkt.drop (k + 1)
  perFrag := pkt.take (k + 1)
  id := id
  pathMtu := UInt16.ofNat pathMtu
  offset := 0

/- What is asked of a step. -/
def ExtFragEvent.Proceeds
    (size : Nat)
    (r : ExtFragRun) : ExtFragEvent → Prop
| .sendPkt env pkt pathMtu =>
  ∀ i k, r.frag.sndBufAlloc size = some i → determineLastPerFrag (r.frag.given pkt).2 = some k →
    (sndBufFor (r.frag.given pkt).2 k r.frag.lastId pathMtu).Steady ∧
    env.Queues (sndBufFor (r.frag.given pkt).2 k r.frag.lastId pathMtu)
| .continueSend env i => (r.frag.sndBufs i).Steady ∧ env.Queues (r.frag.sndBufs i)

----
-- What a Fragment Takes
----

section

variable {env : ExtFragEnv} {s : ExtFrag} {pkt : List FragSnip}

@[simp]
theorem fragPktLen_cons
    (p : FragSnip) (pkt : List FragSnip) :
    fragPktLen (p :: pkt) = p.size + fragPktLen pkt := by
  simp [fragPktLen]

/- The last fragment takes all snips. -/
theorem addRest_pkt_of_last
    {remaining offset : UInt16} (hNot : ¬ LeavesSnips remaining pkt) :
    (ExtFrag.addRest env true s remaining offset pkt).pkt = [] := by
  induction pkt generalizing remaining offset with
  | nil => rfl
  | cons p rest ih =>
    have hNe : remaining ≠ 0 := by
      rintro rfl
      exact hNot ⟨[], p :: rest, rfl, List.cons_ne_nil p rest, rfl⟩
    unfold ExtFrag.addRest
    rw [if_neg hNe, if_pos (Or.inl rfl)]
    apply ih
    rintro ⟨front, back, hEq, hBack, hLen⟩
    refine hNot ⟨p :: front, back, ?_, hBack, ?_⟩
    · rw [hEq, List.cons_append]
    · rw [fragPktLen_cons, UInt16.ofNat_add, hLen, UInt16.add_comm, UInt16.sub_add_cancel]

/- Another fragment leaves some snip. -/
theorem addRest_pkt_of_more
    {remaining offset : UInt16} (hNot : ¬ TakesAll remaining.toNat pkt) :
    (ExtFrag.addRest env false s remaining offset pkt).pkt ≠ [] := by
  induction pkt generalizing remaining offset with
  | nil =>
    refine absurd ⟨Nat.zero_le _, ?_⟩ hNot
    intro front p hEq
    simp at hEq
  | cons p rest ih =>
    unfold ExtFrag.addRest
    by_cases hZero : remaining = 0
    · rw [if_pos hZero]
      exact List.cons_ne_nil p rest
    · rw [if_neg hZero]
      by_cases hFits : p.size ≤ remaining.toNat
      · rw [if_pos (Or.inr hFits)]
        apply ih
        have hPos : 0 < remaining.toNat := by
          rw [Nat.pos_iff_ne_zero]
          intro hNat
          exact hZero (UInt16.toNat_inj.mp hNat)
        have hLt : p.size < UInt16.size := Nat.lt_of_le_of_lt hFits remaining.toNat_lt
        have hSub : (remaining - UInt16.ofNat p.size).toNat = remaining.toNat - p.size := by
          rw [UInt16.toNat_sub_of_le _ _ (by
              rw [UInt16.le_iff_toNat_le, UInt16.toNat_ofNat_of_lt' hLt]
              exact hFits), UInt16.toNat_ofNat_of_lt' hLt]
        rw [hSub]
        rintro ⟨hTotal, hFronts⟩
        refine hNot ⟨?_, ?_⟩
        · rw [fragPktLen_cons]
          omega
        · intro front q hEq
          cases front with
          | nil => exact hPos
          | cons p' front =>
            rw [List.cons_append, List.cons.injEq] at hEq
            have hFront := hFronts front q hEq.2
            rw [fragPktLen_cons, ← hEq.1]
            omega
      · rw [if_neg (by simpa using hFits)]
        unfold ExtFrag.mark
        split
        · rename_i hPair
          exact List.cons_ne_nil p rest
        · rename_i hPair
          exact List.cons_ne_nil _ rest

----
-- Headers of a Packet
----

/- The last header is before a snip that is no header. -/
theorem lastPerFragFrom_spec
    {k j : Nat} (nh : UInt8)
    (hOther : ∃ p ∈ pkt, p.type ≠ .ipv6 ∧ p.type ≠ .ipv6Ext) (hLt : j < k) :
    ∃ j', lastPerFragFrom k (some j) nh pkt = some j' ∧ j ≤ j' ∧ j' + 1 < k + pkt.length := by
  induction pkt generalizing k j nh with
  | nil =>
    rcases hOther with ⟨p, hMem, _⟩
    cases hMem
  | cons p rest ih =>
    have hRest :
        p.type = .ipv6 ∨ p.type = .ipv6Ext → ∃ q ∈ rest, q.type ≠ .ipv6 ∧ q.type ≠ .ipv6Ext := by
      intro hType
      rcases hOther with ⟨q, hMem, hNe⟩
      rcases List.mem_cons.mp hMem with rfl | hIn
      · rcases hType with hType | hType
        · exact absurd hType hNe.1
        · exact absurd hType hNe.2
      · exact ⟨q, hIn, hNe⟩
    unfold lastPerFragFrom
    rw [List.length_cons]
    split
    · rename_i hType
      rcases ih (p.data.getD 6 0) (hRest (Or.inl hType))
          (Nat.lt_succ_self k) with
        ⟨j', hEq, hLe, hBound⟩
      exact ⟨j', hEq, by omega, by omega⟩
    · rename_i hType
      split
      · rcases ih (p.data.getD 0 0) (hRest (Or.inr hType))
            (Nat.lt_succ_self k) with
          ⟨j', hEq, hLe, hBound⟩
        exact ⟨j', hEq, by omega, by omega⟩
      · rcases ih (p.data.getD 0 0) (hRest (Or.inr hType))
            (Nat.lt_succ_of_lt hLt) with
          ⟨j', hEq, hLe, hBound⟩
        exact ⟨j', hEq, hLe, by omega⟩
    · exact ⟨j, rfl, Nat.le_refl j, by omega⟩

/- A packet is split behind its IPv6 header. -/
theorem determineLastPerFrag_spec
    {netif ipv6 : FragSnip} {rest : List FragSnip} (hIpv6 : ipv6.type = .ipv6)
    (hOther : ∃ p ∈ rest, p.type ≠ .ipv6 ∧ p.type ≠ .ipv6Ext) :
    ∃ k, determineLastPerFrag (netif :: ipv6 :: rest) = some k ∧
      HeadersOk ((netif :: ipv6 :: rest).take (k + 1)) ∧
      (netif :: ipv6 :: rest).drop (k + 1) ≠ [] := by
  rcases lastPerFragFrom_spec (ipv6.data.getD 6 0) hOther
      (Nat.lt_succ_self 1) with
    ⟨k, hEq, hLe, hBound⟩
  refine ⟨k, ?_, ?_, ?_⟩
  · unfold determineLastPerFrag
    rw [List.drop_succ_cons, List.drop_zero, lastPerFragFrom]
    split
    · exact hEq
    · rename_i hType
      rw [hIpv6] at hType
      cases hType
    · rename_i hNot _
      exact absurd hIpv6 hNot
  · cases k with
    | zero => omega
    | succ k => simp [HeadersOk, hIpv6]
  · rw [← List.length_pos_iff, List.length_drop, List.length_cons, List.length_cons]
    omega

/- The given snips are those of the packet. -/
theorem given_wellFormed
    {pkt : List (SnipType × List UInt8)} (s : ExtFrag) (h : WellFormedPkt pkt) :
    ∃ netif ipv6 rest, (s.given pkt).2 = netif :: ipv6 :: rest ∧
      netif.type = .netif ∧ ipv6.type = .ipv6 ∧
      ∃ p ∈ rest, p.type ≠ .ipv6 ∧ p.type ≠ .ipv6Ext := by
  rcases h with ⟨netif, ipv6, rest, rfl, x, hMem, hNe⟩
  refine ⟨_, _, _, rfl, rfl, rfl, ?_⟩
  rcases List.mem_iff_getElem.mp hMem with ⟨k, hk, hx⟩
  have hIn : (x, k + 2) ∈ rest.zipIdx (0 + 1 + 1) := by
    rw [List.mk_mem_zipIdx_iff_le_and_getElem?_sub]
    refine ⟨by omega, ?_⟩
    rw [Nat.add_sub_cancel, List.getElem?_eq_getElem hk, hx]
  exact ⟨_, List.mem_map_of_mem hIn, hNe⟩

end

----
-- The Invariant
----

/- The references of send buffers. -/
def sndBufRefs
    (bufs : Nat → SndBuf) (is : List Nat) : Multiset Nat :=
  (is.map (fun i => (bufs i).ids)).sum

/- Exactly the buffers with a continuation are in use. -/
structure ExtFragRun.Kept
    (size : Nat)
    (r : ExtFragRun) : Prop where
  nodup : r.pending.Nodup
  bound : ∀ i ∈ r.pending, i < size
  busy : ∀ i ∈ r.pending, (r.frag.sndBufs i).pkt ≠ [] ∧ HeadersOk (r.frag.sndBufs i).perFrag
  owned : r.frag.owned = sndBufRefs r.frag.sndBufs r.pending

section

variable {size : Nat} {env : ExtFragEnv} {s : ExtFrag} {r : ExtFragRun}
variable {i : Nat} {pkt : List (SnipType × List UInt8)}

/- Another buffer does not matter. -/
theorem sndBufRefs_update
    {bufs : Nat → SndBuf} {is : List Nat} (b : SndBuf) (hNot : i ∉ is) :
    sndBufRefs (Function.update bufs i b) is = sndBufRefs bufs is := by
  unfold sndBufRefs
  congr 1
  apply List.map_congr_left
  intro j hj
  rw [Function.update_of_ne]
  rintro rfl
  exact hNot hj

theorem sndBufRefs_erase
    {bufs : Nat → SndBuf} {is : List Nat} (hMem : i ∈ is) :
    sndBufRefs bufs is = sndBufRefs bufs (is.erase i) + (bufs i).ids := by
  unfold sndBufRefs
  rw [((List.perm_cons_erase hMem).map _).sum_eq, List.map_cons, List.sum_cons, add_comm]

theorem sndBufRefs_append
    (bufs : Nat → SndBuf) (is : List Nat) (i : Nat) :
    sndBufRefs bufs (is ++ [i]) = sndBufRefs bufs is + (bufs i).ids := by
  simp [sndBufRefs]

/- The references that a posted fragment leaves. -/
theorem postFragment_owned
    {last : Bool} {frag : List FragSnip} {base : Multiset Nat}
    (hOwned : s.owned = base + snipIds frag) (hSend : env.sendQueued = true) :
    (ExtFrag.postFragment env s i last frag).1.owned = base := by
  unfold ExtFrag.postFragment
  rw [hSend]
  simp only [if_true]
  split
  · exact (congrArg (· - snipIds frag) hOwned).trans (Multiset.add_sub_cancel_right ..)
  · exact (congrArg (· - snipIds frag) hOwned).trans (Multiset.add_sub_cancel_right ..)

/- One call keeps the invariant. -/
theorem ExtFragRun.Kept.afterSend
    {rest : List Nat} (hNodup : (i :: rest).Nodup)
    (hBound : ∀ j ∈ i :: rest, j < size)
    (hBusy : ∀ j ∈ rest, (s.sndBufs j).pkt ≠ [] ∧ HeadersOk (s.sndBufs j).perFrag)
    (hOwned : s.owned = sndBufRefs s.sndBufs rest + (s.sndBufs i).ids)
    (hHdrs : HeadersOk (s.sndBufs i).perFrag) (hSteady : (s.sndBufs i).Steady)
    (hQueues : env.Queues (s.sndBufs i)) :
    ∃ x, s.gnrcIpv6ExtFragSend env i = some x ∧
      ExtFragRun.Kept size ⟨x.1, rest ++ continues x.2⟩ := by
  have hNot : i ∉ rest := (List.nodup_cons.mp hNodup).1
  have hNodup' : rest.Nodup := (List.nodup_cons.mp hNodup).2
  have hBound' : ∀ j ∈ rest, j < size := fun j hj => hBound j (List.mem_cons_of_mem i hj)
  have hOthers : ∀ b, ∀ j ∈ rest, Function.update s.sndBufs i b j = s.sndBufs j := by
    intro b j hj
    rw [Function.update_of_ne]
    rintro rfl
    exact hNot hj
  have hFinished : ∀ (s' : ExtFrag) (b : SndBuf), s'.sndBufs = Function.update s.sndBufs i b →
        s'.owned = sndBufRefs s.sndBufs rest → ExtFragRun.Kept size ⟨s', rest⟩ := by
    intro s' b hBufs hRefs
    refine ⟨hNodup', hBound', ?_, ?_⟩
    · intro j hj
      dsimp only
      rw [hBufs, hOthers b j hj]
      exact hBusy j hj
    · dsimp only
      rw [hBufs, sndBufRefs_update b hNot]
      exact hRefs
  have hSpec := @ExtFrag.gnrcIpv6ExtFragSend_spec env s _ i hOwned hHdrs
  generalize s.gnrcIpv6ExtFragSend env i = result at *
  rcases hSpec with hCancels | hPosts
  · cases hCancels with
    | intro hAlloc hBufs hPerFrag hPkt hRefs =>
      refine ⟨_, rfl, ?_⟩
      rw [show continues [] = [] from rfl, List.append_nil]
      exact hFinished _ _ hBufs hRefs
  · cases hPosts with
    | @intro b last s₁ s₂ x hdrs hdrId nh hBuf hLast hSame hNh
        hRest hFull hBufs hRefs =>
        rw [← hBuf] at hSteady hQueues hHdrs
        have hLeft := @postFragment_owned env s₂ i last _ _ hRefs hQueues.1
        refine ⟨_, rfl, ?_⟩
        unfold SndBuf.Steady at hSteady
        unfold SndBuf.keptHeaders at hBufs hLeft
        rw [← hLast] at hSteady hBufs hLeft
        cases last with
        | true =>
          simp only [if_true] at hSteady hBufs hLeft
          have hNil : x.pkt = [] := by
            rw [hRest]
            exact addRest_pkt_of_last hSteady
          have hMsgs : continues (ExtFrag.postFragment env s₂ i true
                (b.fragment hdrs hdrId nh x.parts)).2 = [] := by
            simp [ExtFrag.postFragment, hQueues.1, continues]
          rw [hMsgs, List.append_nil]
          apply hFinished
          · simp only [ExtFrag.postFragment, hQueues.1, if_true, ExtFrag.sndBufDel, ExtFrag.setBuf,
              hBufs, Function.update_idem]
            rfl
          · rw [hLeft, hNil]
            simp
        | false =>
          simp only [Bool.false_eq_true, if_false] at hSteady hBufs hLeft
          have hCons : x.pkt ≠ [] := by
            rw [hRest]
            exact addRest_pkt_of_more hSteady
          have hMsgs : continues (ExtFrag.postFragment env s₂ i false
                (b.fragment hdrs hdrId nh x.parts)).2 = [i] := by
            simp [ExtFrag.postFragment, hQueues.1, hQueues.2 hLast.symm, continues]
          have hNext : (ExtFrag.postFragment env s₂ i false
                (b.fragment hdrs hdrId nh x.parts)).1.sndBufs = Function.update s.sndBufs i
                    { b with
                      pkt := x.pkt
                      offset := x.offset } := by
            simp [ExtFrag.postFragment, hQueues.1, hBufs]
          rw [hMsgs]
          refine ⟨?_, ?_, ?_, ?_⟩
          · exact (List.perm_append_singleton i rest).nodup_iff.mpr hNodup
          · intro j hj
            exact hBound j ((List.perm_append_singleton i rest).mem_iff.mp hj)
          · intro j hj
            dsimp only
            rw [hNext]
            rcases List.mem_append.mp hj with hj | hj
            · rw [hOthers _ j hj]
              exact hBusy j hj
            · rw [List.mem_singleton.mp hj, Function.update_self]
              exact ⟨hCons, hHdrs⟩
          · dsimp only
            rw [hLeft, hNext, sndBufRefs_append, sndBufRefs_update _ hNot, Function.update_self]
            rfl

----
-- Runs
----

theorem pkt_nil_of_sndBufAlloc
    (hAlloc : s.sndBufAlloc size = some i) :
    i < size ∧ (s.sndBufs i).pkt = [] := by
  have hFound := List.find?_some hAlloc
  have hMem := List.mem_of_find?_eq_some hAlloc
  exact ⟨List.mem_range.mp hMem, List.isEmpty_iff.mp hFound⟩

theorem ExtFragRun.Kept.allocFree
    (h : r.Kept size) (hAlloc : r.frag.sndBufAlloc size = some i) :
    i ∉ r.pending := by
  intro hMem
  exact (h.busy i hMem).1 (pkt_nil_of_sndBufAlloc hAlloc).2

/- The state in which a packet starts to be fragmented. -/
def ExtFrag.started
    (env : ExtFragEnv) (s : ExtFrag) (i : Nat) (b : SndBuf) : ExtFrag :=
  { s.setBuf i b with lastId := s.lastId + env.random }

/- A packet is refused, or put into a send buffer. -/
theorem gnrcIpv6ExtFragSendPkt_cases
    (env : ExtFragEnv) (pathMtu : Nat) (hWell : WellFormedPkt pkt) :
    (s.sndBufAlloc size = none ∧ (s.given pkt).1.gnrcIpv6ExtFragSendPkt env size
          (s.given pkt).2 pathMtu = some ({ (s.given pkt).1 with owned := s.owned }, [])) ∨
    (∃ i k, s.sndBufAlloc size = some i ∧ determineLastPerFrag (s.given pkt).2 = some k ∧
      HeadersOk (sndBufFor (s.given pkt).2 k s.lastId pathMtu).perFrag ∧
      (s.given pkt).1.gnrcIpv6ExtFragSendPkt env size (s.given pkt).2 pathMtu =
        ((s.given pkt).1.started env i
          (sndBufFor (s.given pkt).2 k s.lastId pathMtu)).gnrcIpv6ExtFragSend env i) := by
  rcases given_wellFormed s hWell with ⟨netif, ipv6, rest, hEq, hNetif, hIpv6, hOther⟩
  have hHead : (s.given pkt).2.head?.any (fun p => p.type == .netif) = true := by
    rw [hEq]
    simp [hNetif]
  unfold ExtFrag.gnrcIpv6ExtFragSendPkt
  rw [hHead, if_pos rfl, show (s.given pkt).1.sndBufAlloc size = s.sndBufAlloc size from rfl]
  cases hAlloc : s.sndBufAlloc size with
  | none =>
    left
    have hGiven : (s.given pkt).1.owned = s.owned + snipIds (s.given pkt).2 := rfl
    refine ⟨rfl, ?_⟩
    dsimp only
    rw [ExtFrag.release_eq hGiven]
    rfl
  | some i =>
    right
    rcases @determineLastPerFrag_spec netif ipv6 rest hIpv6 hOther with ⟨k, hLast, hHdrs, _⟩
    rw [← hEq] at hLast hHdrs
    dsimp only
    rw [hLast]
    exact ⟨i, k, rfl, rfl, hHdrs, rfl⟩

theorem snipIds_split
    (pkt : List FragSnip) (k : Nat) (id : UInt32) (pathMtu : Nat) :
    (sndBufFor pkt k id pathMtu).ids = snipIds pkt := by
  unfold SndBuf.ids sndBufFor
  rw [← snipIds_append, List.take_append_drop]

/- The references while a new packet is fragmented. -/
theorem ExtFragRun.Kept.owned_started
    {i k : Nat} (env : ExtFragEnv) (pathMtu : Nat) (h : r.Kept size)
    (hAlloc : r.frag.sndBufAlloc size = some i) :
    ((r.frag.given pkt).1.started env i
        (sndBufFor (r.frag.given pkt).2 k r.frag.lastId pathMtu)).owned =
      sndBufRefs ((r.frag.given pkt).1.started env i
            (sndBufFor (r.frag.given pkt).2 k r.frag.lastId pathMtu)).sndBufs r.pending +
        (sndBufFor (r.frag.given pkt).2 k r.frag.lastId pathMtu).ids := by
  rw [snipIds_split]
  unfold ExtFrag.started ExtFrag.setBuf
  dsimp only
  rw [sndBufRefs_update _ (h.allocFree hAlloc)]
  change r.frag.owned + _ = _
  rw [h.owned]
  rfl

theorem ExtFragRun.Kept.step
    {r' : ExtFragRun} {e : ExtFragEvent} (h : r.Kept size)
    (hPossible : e.Possible r) (hProceeds : e.Proceeds size r)
    (hExec : extFragExec size r e = some r') :
    r'.Kept size := by
  cases e with
  | sendPkt env pkt pathMtu =>
    rcases @gnrcIpv6ExtFragSendPkt_cases size r.frag pkt env
        pathMtu hPossible with
      ⟨_, hEq⟩ | ⟨i, k, hAlloc, hLast, hHdrs, hEq⟩
    · simp only [extFragExec, hEq, Option.map_some, Option.some.injEq] at hExec
      subst hExec
      rw [show continues [] = [] from rfl, List.append_nil]
      exact ⟨h.nodup, h.bound, h.busy, h.owned⟩
    · rcases hProceeds i k hAlloc hLast with ⟨hSteady, hQueues⟩
      have hAt : ((r.frag.given pkt).1.started env i
              (sndBufFor (r.frag.given pkt).2 k r.frag.lastId pathMtu)).sndBufs i =
            sndBufFor (r.frag.given pkt).2 k r.frag.lastId
              pathMtu :=
        Function.update_self ..
      have hOthers : ∀ j ∈ r.pending, ((r.frag.given pkt).1.started env i
                (sndBufFor (r.frag.given pkt).2 k r.frag.lastId pathMtu)).sndBufs j =
              r.frag.sndBufs j := by
        intro j hj
        apply Function.update_of_ne
        rintro rfl
        exact h.allocFree hAlloc hj
      rcases @ExtFragRun.Kept.afterSend size env
          ((r.frag.given pkt).1.started env i
            (sndBufFor (r.frag.given pkt).2 k r.frag.lastId pathMtu)) i r.pending
          (List.nodup_cons.mpr ⟨h.allocFree hAlloc, h.nodup⟩)
          (by
            intro j hj
            rcases List.mem_cons.mp hj with rfl | hj
            · exact (pkt_nil_of_sndBufAlloc hAlloc).1
            · exact h.bound j hj)
          (by
            intro j hj
            rw [hOthers j hj]
            exact h.busy j hj)
          (by
            rw [hAt]
            exact h.owned_started env pathMtu hAlloc)
          (by rw [hAt]; exact hHdrs)
          (by rw [hAt]; exact hSteady)
          (by rw [hAt]; exact hQueues) with
        ⟨x, hSend, hKept⟩
      simp only [extFragExec, hEq, hSend, Option.map_some, Option.some.injEq] at hExec
      subst hExec
      exact hKept
  | continueSend env i =>
    rcases @ExtFragRun.Kept.afterSend size env r.frag i
        (r.pending.erase i)
        ((List.perm_cons_erase hPossible).nodup_iff.mp h.nodup)
        (by
          intro j hj
          exact h.bound j ((List.perm_cons_erase hPossible).mem_iff.mpr hj))
        (by
          intro j hj
          exact h.busy j (List.mem_of_mem_erase hj))
        (h.owned.trans (sndBufRefs_erase hPossible))
        (h.busy i hPossible).2 hProceeds.1 hProceeds.2 with
      ⟨x, hSend, hKept⟩
    simp only [extFragExec, hSend, Option.map_some, Option.some.injEq] at hExec
    subst hExec
    exact hKept

/- No call fails, whatever it does. -/
theorem ExtFrag.gnrcIpv6ExtFragSend_isSome
    {base : Multiset Nat} (hOwned : s.owned = base + (s.sndBufs i).ids)
    (hHdrs : HeadersOk (s.sndBufs i).perFrag) :
    (s.gnrcIpv6ExtFragSend env i).isSome = true := by
  have hSpec := @ExtFrag.gnrcIpv6ExtFragSend_spec env s _ i hOwned hHdrs
  generalize s.gnrcIpv6ExtFragSend env i = result at *
  rcases hSpec with hCancels | hPosts
  · cases hCancels
    rfl
  · cases hPosts
    rfl

theorem ExtFragRun.Kept.noFault
    {e : ExtFragEvent} (h : r.Kept size) (hPossible : e.Possible r) :
    (extFragExec size r e).isSome = true := by
  cases e with
  | sendPkt env pkt pathMtu =>
    unfold extFragExec
    rw [Option.isSome_map]
    rcases @gnrcIpv6ExtFragSendPkt_cases size r.frag pkt env
        pathMtu hPossible with
      ⟨_, hEq⟩ | ⟨i, k, hAlloc, hLast, hHdrs, hEq⟩
    · rw [hEq]
      rfl
    · rw [hEq]
      have hAt : ((r.frag.given pkt).1.started env i
              (sndBufFor (r.frag.given pkt).2 k r.frag.lastId pathMtu)).sndBufs i =
            sndBufFor (r.frag.given pkt).2 k r.frag.lastId
              pathMtu :=
        Function.update_self ..
      apply ExtFrag.gnrcIpv6ExtFragSend_isSome
      · rw [hAt]
        exact h.owned_started env pathMtu hAlloc
      · rw [hAt]
        exact hHdrs
  | continueSend env i =>
    unfold extFragExec
    rw [Option.isSome_map]
    exact ExtFrag.gnrcIpv6ExtFragSend_isSome
      (h.owned.trans (sndBufRefs_erase hPossible))
      (h.busy i hPossible).2

end

/-
  In every run in which the last fragment of each packet takes
  all that is left of it, no other fragment does, and the
  messages find a place, the send buffers have one owner each.
-/
theorem fragOwnership_of_reachable
    (size : Nat) {r : ExtFragRun}
    (hReach : (extFragSystem size).ReachableVia (fun r e => e.Proceeds size r) r) :
    FragOwnership size r := by
  have hKept : r.Kept size := by
    refine hReach.invariant ?_ ?_
    · rintro r rfl
      refine ⟨List.nodup_nil, ?_, ?_, rfl⟩
      · intro i hi
        cases hi
      · intro i hi
        cases hi
    · intro r e r' hKept hProceeds hPossible hExec
      exact hKept.step hPossible hProceeds hExec
  exact ⟨fun i hAlloc => hKept.allocFree hAlloc, hKept.owned,
    fun e hPossible => hKept.noFault hPossible⟩

/- An environment in which nothing fails. -/
def roomyExtFragEnv : ExtFragEnv where
  alloc := fun _ => true
  shared := fun _ => false
  sendQueued := true
  continueQueued := true
  random := 1

/- A packet with an IPv6 header and a payload. -/
def samplePkt
    (n : Nat) : List (SnipType × List UInt8) :=
  [(.netif, []), (.ipv6, List.replicate 40 0), (.other, List.replicate n 0)]

theorem wellFormedPkt_samplePkt
    (n : Nat) :
    WellFormedPkt (samplePkt n) :=
  ⟨_, _, _, rfl, _, List.mem_singleton_self _, by simp, by simp⟩

theorem reachableVia_sendPkt
    {size pathMtu : Nat} {ok : ExtFragRun → ExtFragEvent → Prop} {env : ExtFragEnv}
    {pkt : List (SnipType × List UInt8)} {r : ExtFragRun}
    (hWell : WellFormedPkt pkt)
    (hOk : ok ⟨ExtFrag.init, []⟩ (.sendPkt env pkt pathMtu))
    (hExec : extFragExec size ⟨ExtFrag.init, []⟩ (.sendPkt env pkt pathMtu) = some r) :
    (extFragSystem size).ReachableVia ok r :=
  .step (e := .sendPkt env pkt pathMtu) (.start rfl) hOk hWell hExec

/- The first fragment of a packet leaves 68 bytes. -/
theorem fragOwnership_firstFragment :
    ∃ r : ExtFragRun, r.pending = [0] ∧ fragPktLen (r.frag.sndBufs 0).pkt = 68 ∧
      FragOwnership 1 r := by
  have hRun :
      (extFragExec 1 ⟨ExtFrag.init, []⟩
          (.sendPkt roomyExtFragEnv (samplePkt 1300) 1280)).any
        (fun r => decide (r.pending = [0] ∧ fragPktLen (r.frag.sndBufs 0).pkt = 68)) = true := by
    decide +kernel
  rcases (Option.any_eq_true _ _).mp hRun with ⟨r, hExec, hAfter⟩
  rcases of_decide_eq_true hAfter with ⟨hPending, hLeft⟩
  refine ⟨r, hPending, hLeft, fragOwnership_of_reachable 1
    (reachableVia_sendPkt (wellFormedPkt_samplePkt 1300) ?_ hExec)⟩
  intro i k _ hLast
  have hK : determineLastPerFrag ((ExtFrag.init.given (samplePkt 1300)).2) = some 1 := by
    decide +kernel
  rw [hK] at hLast
  cases hLast
  refine ⟨?_, rfl, fun _ => rfl⟩
  unfold SndBuf.Steady
  rw [if_neg (by decide +kernel)]
  rintro ⟨hFits, _⟩
  exact absurd hFits (by decide +kernel)

/- The payload of a packet is twice what a fragment holds. -/
theorem not_fragOwnership_twoFragments :
    ∃ r : ExtFragRun, (extFragSystem 1).Reachable r ∧ ¬ FragOwnership 1 r := by
  have hRun :
      ((extFragExec 1 ⟨ExtFrag.init, []⟩
          (.sendPkt roomyExtFragEnv (samplePkt 2464)
            1280)).bind (fun r =>
          (extFragExec 1 r (.continueSend roomyExtFragEnv 0)).map (fun r' => (r, r')))).any
        (fun x => decide
          (x.1.pending = [0] ∧ x.2.pending = [0] ∧ x.2.frag.sndBufAlloc 1 = some 0)) = true := by
    decide +kernel
  rcases (Option.any_eq_true _ _).mp hRun with ⟨⟨r, r'⟩, hBoth, hAfter⟩
  rcases Option.bind_eq_some_iff.mp hBoth with ⟨r₁, hFirst, hMap⟩
  rcases Option.map_eq_some_iff.mp hMap with ⟨r₂, hSecond, hPair⟩
  cases hPair
  rcases of_decide_eq_true hAfter with ⟨hPending, hPending', hAlloc⟩
  refine ⟨r', .step
    (e := .continueSend roomyExtFragEnv 0)
    (reachableVia_sendPkt (wellFormedPkt_samplePkt 2464) trivial hFirst) trivial ?_ hSecond, ?_⟩
  · change 0 ∈ r.pending
    rw [hPending]
    exact List.mem_singleton_self 0
  · intro hOwnership
    apply hOwnership.allocFree 0 hAlloc
    rw [hPending']
    exact List.mem_singleton_self 0

end Riot
