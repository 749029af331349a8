import Riot.Lib.System
import Riot.Net.Ipv6ExtFragReass
import Mathlib.Data.List.Find

/-
  Where reassembly copies the data of fragments to.

  A fragment that is not the first one makes room for itself.
  A first fragment does not. It fits because a packet reaches
  at least to the start of each of its limits, as long as the
  first fragment overlaps none of them.
-/

open ByteBuffer

----
-- Runs
----

namespace Riot

inductive ReassEvent where
  | recv
      (pkt : List (Nat × ReassSnip))
      (env : ReassEnv)
  | gc
      (now : UInt32)

/- A packet of the layer below, in memory. -/
def ExtReass.receive
    (s : ExtReass) (pkt : List (Nat × ReassSnip)) : ExtReass :=
  { s with
    heap := fun a => (pkt.lookup a).or (s.heap a) }

/- The memory that a call is given. -/
def newSnips
    (pkt : List (Nat × ReassSnip)) (env : ReassEnv) : List Nat :=
  pkt.map Prod.fst ++ (env.markSnip.toList ++ env.addSnip.toList)

/- Memory that is given to a call is free. -/
def ReassEvent.Possible
    (s : ExtReass) : ReassEvent → Prop
| .recv pkt env =>
  (newSnips pkt env).Nodup ∧ ∀ a ∈ newSnips pkt env, s.heap a = none
| .gc _ => True

instance ReassEvent.decidablePossible
    (s : ExtReass) (e : ReassEvent) :
    Decidable (e.Possible s) := by
  cases e <;> unfold ReassEvent.Possible <;> infer_instance

/- A packet that is complete leaves the module. -/
def reassStep
    (cfg : ExtReassConfig)
    (s : ExtReass) : ReassEvent → Option ExtReass
| .recv pkt env =>
  ((s.receive pkt).gnrcIpv6ExtFragReass cfg env
    (pkt.map Prod.fst)).map (fun r => r.1.pktbufRelease r.2)
| .gc now => some (s.gnrcIpv6ExtFragRbufGc cfg now)

def reassSystem
    (cfg : ExtReassConfig) : System ExtReass ReassEvent where
  Start s := s = ExtReass.init cfg
  Enabled s e := e.Possible s
  exec s e := reassStep cfg s e

instance reassSystem.decidableEnabled
    (cfg : ExtReassConfig) (s : ExtReass) (e : ReassEvent) :
    Decidable ((reassSystem cfg).Enabled s e) :=
  ReassEvent.decidablePossible s e

/- Every range that was copied to lies in its packet. -/
def ExtReass.CopiesFit
    (s : ExtReass) : Prop :=
  ∀ c ∈ s.copies, c.offset + c.len ≤ c.size

instance ExtReass.decidableCopiesFit
    (s : ExtReass) :
    Decidable s.CopiesFit := by
  unfold CopiesFit
  infer_instance

/- The entry in use for the datagram of a fragment. -/
def ExtReass.rbufOf
    (cfg : ExtReassConfig) (env : ReassEnv) (s : ExtReass) (ipv6 : Nat)
    (id : UInt32) : Option Nat :=
  (List.range cfg.rbufSize).find? (s.rbufMatches env ipv6 id)

/-
  The end of a fragment fits `size_t`, and fits 16 bits in units
  of eight bytes.
-/
def EndFits
    (cfg : ExtReassConfig) (n : Nat) : Prop :=
  n < 2 ^ cfg.width ∧ n < 2 ^ 19 - 8

instance EndFits.decidable
    (cfg : ExtReassConfig) (n : Nat) :
    Decidable (EndFits cfg n) := by
  unfold EndFits
  infer_instance

/-
  The end of a fragment fits its types, and a first fragment
  overlaps no limits of its datagram.
-/
def FirstApart
    (cfg : ExtReassConfig)
    (s : ExtReass) : ReassEvent → Prop
| .recv [] _ => True
| .recv ((p, snip) :: hdrs) env =>
  ∀ m ∈ (s.receive ((p, snip) :: hdrs)).pktbufMark env p,
    let fh := (m.1.snip env m.2).data
    let offset := extFragGetOffset fh
    let len := (m.1.snip env p).size
    EndFits cfg (offset + len) ∧ (offset = 0 → extFragMore fh = true →
      ∀ ipv6 ∈ m.1.pktsnipSearchType env
          (p :: m.2 :: hdrs.map Prod.fst) .ipv6, ∀ i ∈ m.1.rbufOf cfg env ipv6 (fragId fh),
          ∀ cur ∈ (m.1.rbuf i).limits, cur.overlap (fragLimits cfg 0 len) = false)
| .gc _ => True

instance FirstApart.decidable
    (cfg : ExtReassConfig) (s : ExtReass) (e : ReassEvent) :
    Decidable (FirstApart cfg s e) := by
  rcases e with ⟨⟨⟩ | ⟨x, hdrs⟩, env⟩ | now
  all_goals
    unfold FirstApart
    infer_instance

----
-- What the Entries Own
----

/-
  The packets of the entries and the snips of the running call
  are live, and no two of them share a snip.
-/
structure ExtReass.Owned
    (s : ExtReass)
    (mine : List Nat) : Prop where
  live : ∀ i, ∀ a ∈ (s.rbuf i).pkt, (s.heap a).isSome
  nodup : ∀ i, (s.rbuf i).pkt.Nodup
  apart : ∀ i j, i ≠ j → ∀ a ∈ (s.rbuf i).pkt, a ∉ (s.rbuf j).pkt
  mineLive : ∀ a ∈ mine, (s.heap a).isSome
  mineNodup : mine.Nodup
  mineApart : ∀ i, ∀ a ∈ mine, a ∉ (s.rbuf i).pkt

def ExtReass.sizeAt
    (s : ExtReass) (a : Nat) : Nat :=
  ((s.heap a).map ReassSnip.size).getD 0

/- The packet of an entry reaches the start of its limits. -/
structure ExtReass.Fits
    (s : ExtReass)
    (i : Nat) : Prop where
  unused : (s.rbuf i).ipv6 = none → (s.rbuf i).pkt = []
  empty : (s.rbuf i).pkt = [] → (s.rbuf i).limits = []
  proper : ∀ l ∈ (s.rbuf i).limits, l.start < l.stop
  reaches :
    ∀ q ∈ (s.rbuf i).pkt.head?,
      (s.rbuf i).limits ≠ [] ∧ ∀ l ∈ (s.rbuf i).limits, 8 * l.start ≤ s.sizeAt q

structure ExtReass.Safe
    (s : ExtReass)
    (mine : List Nat) : Prop extends s.Owned mine where
  fits : ∀ i, s.Fits i
  copiesFit : s.CopiesFit

section

variable {cfg : ExtReassConfig} {env : ReassEnv} {s s' : ExtReass}
variable {mine mine' pkt : List Nat} {i : Nat}

namespace ExtReass

variable {a : Nat} {b : ExtFragRbuf}

/- A snip stays, and does not get smaller. -/
def SnipKept
    (s s' : ExtReass) (a : Nat) : Prop :=
  (s'.heap a).isSome ∧ s.sizeAt a ≤ s'.sizeAt a

theorem snipKept_of_eq
    (hLive : (s.heap a).isSome) (hHeap : s'.heap a = s.heap a) :
    SnipKept s s' a := by
  refine ⟨?_, ?_⟩
  · rw [hHeap]
    exact hLive
  · rw [sizeAt, sizeAt, hHeap]

theorem SnipKept.trans
    {s'' : ExtReass} (h : SnipKept s s' a) (h' : SnipKept s' s'' a) :
    SnipKept s s'' a :=
  ⟨h'.1, h.2.trans h'.2⟩

theorem snipKept_modifySnip
    {f : ReassSnip → ReassSnip} {a b : Nat}
    (hSize : ∀ q, ReassSnip.size q ≤ ReassSnip.size (f q))
    (hLive : (s.heap a).isSome) :
    SnipKept s (s.modifySnip b f) a := by
  by_cases hab : a = b
  · subst hab
    rcases Option.isSome_iff_exists.mp hLive with ⟨q, hq⟩
    refine ⟨?_, ?_⟩
    · rw [modifySnip_heap, Function.update_self, hq]
      rfl
    · rw [sizeAt, sizeAt, modifySnip_heap, Function.update_self, hq]
      exact hSize q
  · apply snipKept_of_eq hLive
    rw [modifySnip_heap, Function.update_of_ne hab]

/-
  A step may change one entry and the snips that this entry and
  the running call have.
-/
theorem Owned.step
    (h : s.Owned mine) (hOthers : ∀ j, j ≠ i → (s'.rbuf j).pkt = (s.rbuf j).pkt)
    (hHeap : ∀ j, j ≠ i → ∀ a ∈ (s.rbuf j).pkt, (s'.heap a).isSome)
    (hNodup : (s'.rbuf i).pkt.Nodup)
    (hFrom : ∀ a ∈ (s'.rbuf i).pkt, (s'.heap a).isSome ∧ ∀ j, j ≠ i → a ∉ (s.rbuf j).pkt)
    (hMine : ∀ a ∈ mine', a ∈ mine ∧ (s'.heap a).isSome ∧ a ∉ (s'.rbuf i).pkt)
    (hMineNodup : mine'.Nodup) :
    s'.Owned mine' where
  live := by
    intro j a ha
    by_cases hj : j = i
    · subst hj
      exact (hFrom a ha).1
    · rw [hOthers j hj] at ha
      exact hHeap j hj a ha
  nodup := by
    intro j
    by_cases hj : j = i
    · subst hj
      exact hNodup
    · rw [hOthers j hj]
      exact h.nodup j
  apart := by
    intro j k hjk a ha
    by_cases hj : j = i
    · subst hj
      rw [hOthers k hjk.symm]
      exact (hFrom a ha).2 k hjk.symm
    · rw [hOthers j hj] at ha
      by_cases hk : k = i
      · subst hk
        exact fun hIn => (hFrom a hIn).2 j hj ha
      · rw [hOthers k hk]
        exact h.apart j k hjk a ha
  mineLive := fun a ha => (hMine a ha).2.1
  mineNodup := hMineNodup
  mineApart := by
    intro j a ha
    by_cases hj : j = i
    · subst hj
      exact (hMine a ha).2.2
    · rw [hOthers j hj]
      exact h.mineApart j a (hMine a ha).1

/- What an entry says depends only on the entry itself. -/
theorem Fits.congr
    (h : s.Fits i) (hPkt : (s'.rbuf i).pkt = (s.rbuf i).pkt)
    (hLimits : (s'.rbuf i).limits = (s.rbuf i).limits)
    (hIpv6 : (s'.rbuf i).ipv6 = none → (s.rbuf i).ipv6 = none)
    (hSize : ∀ q ∈ (s.rbuf i).pkt, s.sizeAt q ≤ s'.sizeAt q) :
    s'.Fits i where
  unused := by
    rw [hPkt]
    exact fun hNone => h.unused (hIpv6 hNone)
  empty := by
    rw [hPkt, hLimits]
    exact h.empty
  proper := by
    rw [hLimits]
    exact h.proper
  reaches := by
    rw [hPkt, hLimits]
    intro q hq
    have hReach := h.reaches q hq
    refine ⟨hReach.1, fun l hl => ?_⟩
    have hGrow := hSize q (List.mem_of_mem_head? hq)
    exact (hReach.2 l hl).trans hGrow

/- An entry without a packet. -/
theorem fits_of_empty
    (hPkt : (s.rbuf i).pkt = []) (hLimits : (s.rbuf i).limits = []) :
    s.Fits i where
  unused := fun _ => hPkt
  empty := fun _ => hLimits
  proper := by
    rw [hLimits]
    simp
  reaches := by
    rw [hPkt]
    simp

/- All entries but one are in order. -/
structure SafeBut
    (s : ExtReass) (i : Nat)
    (mine : List Nat) : Prop extends s.Owned mine where
  fits : ∀ j, j ≠ i → s.Fits j
  copiesFit : s.CopiesFit

theorem Safe.but
    (h : s.Safe mine) :
    s.SafeBut i mine :=
  ⟨h.toOwned, fun j _ => h.fits j, h.copiesFit⟩

theorem SafeBut.safe
    (h : s.SafeBut i mine) (hFits : s.Fits i) :
    s.Safe mine where
  toOwned := h.toOwned
  fits := by
    intro j
    by_cases hj : j = i
    · rw [hj]
      exact hFits
    · exact h.fits j hj
  copiesFit := h.copiesFit

/- The rule for a step of one entry. -/
theorem SafeBut.step
    (h : s.SafeBut i mine) (hOthers : ∀ j, j ≠ i → s'.rbuf j = s.rbuf j)
    (hHeap : ∀ j, j ≠ i → ∀ a ∈ (s.rbuf j).pkt, SnipKept s s' a)
    (hNodup : (s'.rbuf i).pkt.Nodup)
    (hFrom : ∀ a ∈ (s'.rbuf i).pkt, (s'.heap a).isSome ∧ ∀ j, j ≠ i → a ∉ (s.rbuf j).pkt)
    (hMine : ∀ a ∈ mine', a ∈ mine ∧ (s'.heap a).isSome ∧ a ∉ (s'.rbuf i).pkt)
    (hMineNodup : mine'.Nodup) (hCopies : s'.CopiesFit) :
    s'.SafeBut i mine' where
  toOwned := h.toOwned.step
      (fun j hj => congrArg ExtFragRbuf.pkt (hOthers j hj))
      (fun j hj a ha => (hHeap j hj a ha).1)
      hNodup hFrom hMine hMineNodup
  fits := by
    intro j hj
    apply (h.fits j hj).congr
    · rw [hOthers j hj]
    · rw [hOthers j hj]
    · rw [hOthers j hj]
      exact id
    · intro q hq
      exact (hHeap j hj q hq).2
  copiesFit := hCopies

/- The rule for a step that leaves the packets alone. -/
theorem Safe.keep
    (h : s.Safe mine) (hPkt : ∀ j, (s'.rbuf j).pkt = (s.rbuf j).pkt)
    (hLimits : ∀ j, (s'.rbuf j).limits = (s.rbuf j).limits)
    (hIpv6 : ∀ j, (s'.rbuf j).ipv6 = none → (s.rbuf j).ipv6 = none)
    (hHeap : ∀ j, ∀ a ∈ (s.rbuf j).pkt, s'.heap a = s.heap a)
    (hMine : ∀ a ∈ mine', (s'.heap a).isSome ∧ ∀ j, a ∉ (s.rbuf j).pkt)
    (hMineNodup : mine'.Nodup) (hCopies : s'.copies = s.copies) :
    s'.Safe mine' where
  live := by
    intro j a ha
    rw [hPkt j] at ha
    rw [hHeap j a ha]
    exact h.live j a ha
  nodup := by
    intro j
    rw [hPkt j]
    exact h.nodup j
  apart := by
    intro j k hjk
    rw [hPkt j, hPkt k]
    exact h.apart j k hjk
  mineLive := fun a ha => (hMine a ha).1
  mineNodup := hMineNodup
  mineApart := by
    intro j a ha
    rw [hPkt j]
    exact (hMine a ha).2 j
  fits := by
    intro j
    apply (h.fits j).congr (hPkt j) (hLimits j) (hIpv6 j)
    intro q hq
    exact (snipKept_of_eq (h.live j q hq) (hHeap j q hq)).2
  copiesFit := by
    unfold CopiesFit
    rw [hCopies]
    exact h.copiesFit

/- Drop some of the snips of the running call. -/
theorem Safe.release
    (h : s.Safe mine) (hPkt : ∀ a ∈ pkt, a ∈ mine)
    (hMine : ∀ a ∈ mine', a ∈ mine ∧ a ∉ pkt) (hMineNodup : mine'.Nodup) :
    (s.pktbufRelease pkt).Safe mine' := by
  apply h.keep
  · intro j
    rfl
  · intro j
    rfl
  · intro j
    exact id
  · intro j a ha
    apply pktbufRelease_heap_of_notMem
    exact fun hIn => h.mineApart j a (hPkt a hIn) ha
  · intro a ha
    rw [pktbufRelease_heap_of_notMem (hMine a ha).2]
    exact ⟨h.mineLive a (hMine a ha).1, fun j => h.mineApart j a (hMine a ha).1⟩
  · exact hMineNodup
  · rfl

theorem Safe.releaseAll
    (h : s.Safe mine) :
    (s.pktbufRelease mine).Safe [] := by
  apply h.release (fun a ha => ha)
  · simp
  · exact List.nodup_nil

/- Delete an entry. -/
theorem SafeBut.rbufDel
    (h : s.SafeBut i mine) :
    (s.gnrcIpv6ExtFragRbufDel i).Safe mine := by
  have hEntry : (s.gnrcIpv6ExtFragRbufDel i).rbuf i = { s.rbuf i with
          pkt := []
          ipv6 := none
          limits := [] } := by
    rw [rbufDel_rbuf, Function.update_self]
  refine SafeBut.safe (h.step ?_ ?_ ?_ ?_ ?_ h.mineNodup h.copiesFit) ?_
  · intro j hj
    rw [rbufDel_rbuf, Function.update_of_ne hj]
  · intro j hj a ha
    apply snipKept_of_eq (h.live j a ha)
    rw [rbufDel_heap]
    apply pktbufRelease_heap_of_notMem
    exact h.apart j i hj a ha
  · rw [hEntry]
    exact List.nodup_nil
  · rw [hEntry]
    simp
  · intro a ha
    rw [rbufDel_heap, pktbufRelease_heap_of_notMem (h.mineApart i a ha), hEntry]
    exact ⟨ha, h.mineLive a ha, List.not_mem_nil⟩
  · apply fits_of_empty
    · rw [hEntry]
    · rw [hEntry]

/- The entry for which the code gives up is deleted. -/
theorem SafeBut.errorExit
    {r : ExtReass × List Nat} (h : s.SafeBut i mine)
    (hExit : s.errorExit i mine = some r) :
    (r.1.pktbufRelease r.2).Safe [] := by
  cases hExit
  apply h.rbufDel.releaseAll.release
  · simp
  · simp
  · exact List.nodup_nil

theorem Safe.rbufGc
    (h : s.Safe mine) (now : UInt32) :
    (s.gnrcIpv6ExtFragRbufGc cfg now).Safe mine := by
  unfold gnrcIpv6ExtFragRbufGc
  induction List.range cfg.rbufSize generalizing s with
  | nil => exact h
  | cons i is ih =>
    rw [List.foldl_cons]
    split
    · exact ih h.but.rbufDel
    · exact ih h

/- Other fields of an entry do not matter. -/
theorem Safe.setRbuf
    (h : s.Safe mine) (hPkt : b.pkt = (s.rbuf i).pkt)
    (hLimits : b.limits = (s.rbuf i).limits)
    (hIpv6 : b.ipv6 = none → (s.rbuf i).ipv6 = none) :
    (s.setRbuf i b).Safe mine := by
  have hEntry : ∀ j, j ≠ i → (s.setRbuf i b).rbuf j = s.rbuf j :=
    fun j hj => Function.update_of_ne hj _ _
  have hSelf : (s.setRbuf i b).rbuf i = b := Function.update_self _ _ _
  apply h.keep
  · intro j
    by_cases hj : j = i
    · rw [hj, hSelf, hPkt]
    · rw [hEntry j hj]
  · intro j
    by_cases hj : j = i
    · rw [hj, hSelf, hLimits]
    · rw [hEntry j hj]
  · intro j hNone
    by_cases hj : j = i
    · rw [hj, hSelf] at hNone
      rw [hj]
      exact hIpv6 hNone
    · rwa [hEntry j hj] at hNone
  · intro j a _
    rfl
  · intro a ha
    exact ⟨h.mineLive a ha, fun j => h.mineApart j a ha⟩
  · exact h.mineNodup
  · rfl

/- Taking an entry into use leaves its packet alone. -/
theorem Safe.initRbuf
    {ipv6 : Nat} {id : UInt32} (h : s.Safe mine) (i : Nat) :
    (s.initRbuf i ipv6 id).Safe mine := by
  apply h.setRbuf
  · rfl
  · rfl
  · intro hNone
    cases hNone

/- Writing to a snip leaves everything in its place. -/
theorem Safe.modifySnip
    {f : ReassSnip → ReassSnip} (h : s.Safe mine) (a : Nat)
    (hSize : ∀ q, ReassSnip.size q ≤ ReassSnip.size (f q)) :
    (s.modifySnip a f).Safe mine where
  live := fun j b hb =>
    (snipKept_modifySnip hSize (h.live j b hb)).1
  nodup := h.nodup
  apart := h.apart
  mineLive := fun b hb =>
    (snipKept_modifySnip hSize (h.mineLive b hb)).1
  mineNodup := h.mineNodup
  mineApart := h.mineApart
  fits := by
    intro j
    apply (h.fits j).congr
    · rfl
    · rfl
    · exact fun hNone => hNone
    · intro q hq
      exact (snipKept_modifySnip hSize (h.live j q hq)).2
  copiesFit := h.copiesFit

----
-- Looking Up an Entry
----

section

variable {ipv6 : Nat} {id : UInt32} {is : List Nat} {oldest : Option Nat} {k : Nat}

/- The scan stops at a match, and acts on a free entry. -/
def scanStops
    (env : ReassEnv) (s : ExtReass) (ipv6 : Nat) (id : UInt32) (k : Nat) : Bool :=
  s.rbufMatches env ipv6 id k || (s.rbuf k).ipv6.isNone

/- Another entry that is taken into use matches as before. -/
theorem rbufMatches_initRbuf
    {j : Nat} (hjk : j ≠ k) :
    (s.initRbuf k ipv6 id).rbufMatches env ipv6 id j = s.rbufMatches env ipv6 id j := by
  have hEntry : (s.initRbuf k ipv6 id).rbuf j = s.rbuf j := Function.update_of_ne hjk _ _
  unfold rbufMatches
  rw [hEntry]
  rfl

/- Once an entry is taken, only a match matters. -/
theorem rbufScan_taken
    (s : ExtReass) (k : Nat) (oldest : Option Nat) :
    ∃ o, rbufScan env ipv6 id is (some k) oldest s =
        (s, (is.find? (s.rbufMatches env ipv6 id)).elim (.missed (some k) o) .found) := by
  induction is generalizing oldest with
  | nil => exact ⟨oldest, rfl⟩
  | cons i is ih =>
    by_cases hMatch : s.rbufMatches env ipv6 id i = true
    · refine ⟨none, ?_⟩
      rw [rbufScan, if_pos hMatch, List.find?_cons_of_pos hMatch]
      rfl
    · rcases ih (s.olderRbuf oldest i) with ⟨o, hScan⟩
      refine ⟨o, ?_⟩
      rw [rbufScan, if_neg hMatch, List.find?_cons_of_neg hMatch]
      simpa using hScan

/- An entry that is not stopped at is passed over. -/
theorem rbufScan_cons
    {i : Nat} (hStop : scanStops env s ipv6 id i = false) :
    rbufScan env ipv6 id (i :: is) none oldest s =
      rbufScan env ipv6 id is none (s.olderRbuf oldest i) s := by
  rcases Bool.or_eq_false_iff.mp hStop with ⟨hMatch, hFree⟩
  rw [rbufScan, if_neg (by rw [hMatch]; decide)]
  simp [hFree]

theorem rbufScan_found
    (hFind : is.find? (scanStops env s ipv6 id) = some k)
    (hMatch : s.rbufMatches env ipv6 id k = true) :
    rbufScan env ipv6 id is none oldest s = (s, .found k) := by
  induction is generalizing oldest with
  | nil => cases hFind
  | cons i is ih =>
    by_cases hStop : scanStops env s ipv6 id i = true
    · rw [List.find?_cons_of_pos hStop] at hFind
      cases hFind
      rw [rbufScan, if_pos hMatch]
    · rw [List.find?_cons_of_neg hStop] at hFind
      rw [rbufScan_cons (Bool.not_eq_true _ ▸ hStop)]
      exact ih hFind

theorem rbufScan_free
    (hNodup : is.Nodup) (hFind : is.find? (scanStops env s ipv6 id) = some k)
    (hMatch : s.rbufMatches env ipv6 id k = false) :
    ∃ o, rbufScan env ipv6 id is none oldest s = (s.initRbuf k ipv6 id,
          (is.find? (s.rbufMatches env ipv6 id)).elim (.missed (some k) o) .found) := by
  induction is generalizing oldest with
  | nil => cases hFind
  | cons i is ih =>
    rcases List.nodup_cons.mp hNodup with ⟨hNot, hRest⟩
    by_cases hStop : scanStops env s ipv6 id i = true
    · rw [List.find?_cons_of_pos hStop] at hFind
      cases hFind
      have hFree : (s.rbuf k).ipv6.isNone = true := by
        simpa [scanStops, hMatch] using hStop
      have hTaken : ∃ o, rbufScan env ipv6 id is (some k)
                ((s.initRbuf k ipv6 id).olderRbuf oldest k)
                (s.initRbuf k ipv6 id) = (s.initRbuf k ipv6 id,
                (is.find? ((s.initRbuf k ipv6 id).rbufMatches
                  env ipv6 id)).elim (.missed (some k) o) .found) :=
        rbufScan_taken _ _ _
      rcases hTaken with ⟨o, hScan⟩
      refine ⟨o, ?_⟩
      have hSame : is.find? ((s.initRbuf k ipv6 id).rbufMatches env ipv6 id) =
          is.find? (s.rbufMatches env ipv6 id) := by
        apply List.find?_congr
        intro j hj
        apply rbufMatches_initRbuf
        exact fun hEq => hNot (hEq ▸ hj)
      rw [hSame] at hScan
      rw [rbufScan, if_neg (by rw [hMatch]; decide),
        List.find?_cons_of_neg (by rw [hMatch]; decide)]
      simpa [hFree] using hScan
    · rw [List.find?_cons_of_neg hStop] at hFind
      have hStop' := Bool.not_eq_true _ ▸ hStop
      rcases Bool.or_eq_false_iff.mp hStop' with ⟨hMatch', _⟩
      rw [rbufScan_cons hStop', List.find?_cons_of_neg (by rw [hMatch']; decide)]
      exact ih hRest hFind

theorem rbufScan_full
    (hFind : is.find? (scanStops env s ipv6 id) = none) :
    rbufScan env ipv6 id is none oldest s = (s, .missed none (is.foldl s.olderRbuf oldest)) := by
  induction is generalizing oldest with
  | nil => rfl
  | cons i is ih =>
    by_cases hStop : scanStops env s ipv6 id i = true
    · rw [List.find?_cons_of_pos hStop] at hFind
      cases hFind
    · rw [List.find?_cons_of_neg hStop] at hFind
      rw [rbufScan_cons (Bool.not_eq_true _ ▸ hStop)]
      exact ih hFind

end

section

variable {ipv6 : Nat} {id : UInt32}

/- An entry that the call may store a fragment in. -/
structure Ready
    (cfg : ExtReassConfig) (env : ReassEnv) (s s' : ExtReass) (ipv6 : Nat) (id : UInt32)
    (i : Nat) : Prop where
  used : (s'.rbuf i).ipv6 ≠ none
  known :
    (s'.rbuf i).limits = [] ∨
      (s.rbufOf cfg env ipv6 id = some i ∧ (s'.rbuf i).limits = (s.rbuf i).limits)

theorem ready_initRbuf
    (hLimits : (s.rbuf i).limits = []) :
    Ready cfg env s' (s.initRbuf i ipv6 id) ipv6 id i := by
  have hEntry : (s.initRbuf i ipv6 id).rbuf i =
        { s.rbuf i with ipv6 := some ipv6, id := id, pktLen := 0, last := 0 } :=
    Function.update_self _ _ _
  refine ⟨?_, Or.inl ?_⟩
  · rw [hEntry]
    simp
  · rw [hEntry]
    exact hLimits

theorem rbufMatches_used
    (hMatch : s.rbufMatches env ipv6 id i = true) :
    (s.rbuf i).ipv6 ≠ none := by
  intro hNone
  unfold rbufMatches at hMatch
  rw [hNone] at hMatch
  cases hMatch

/- A match that the scan stops at is the first match. -/
theorem rbufOf_of_stops
    {k : Nat}
    (hStops : (List.range cfg.rbufSize).find? (scanStops env s ipv6 id) = some k)
    (hMatch : s.rbufMatches env ipv6 id k = true) :
    s.rbufOf cfg env ipv6 id = some k := by
  rcases List.find?_eq_some_iff_append.mp hStops with ⟨_, before, after, hSplit, hBefore⟩
  apply List.find?_eq_some_iff_append.mpr
  refine ⟨hMatch, before, after, hSplit, fun j hj => ?_⟩
  have hNot := hBefore j hj
  simp only [scanStops, Bool.not_or, Bool.and_eq_true] at hNot
  exact hNot.1

theorem Safe.rbufGet
    {res : Option Nat} (h : s.Safe mine)
    (hGet : s.gnrcIpv6ExtFragRbufGet cfg env ipv6 id = some (s', res)) :
    s'.Safe mine ∧ (∀ a ∈ mine, s'.heap a = s.heap a) ∧
      (∀ a, s.heap a = none → s'.heap a = none) ∧ ∀ i ∈ res, Ready cfg env s s' ipv6 id i := by
  unfold gnrcIpv6ExtFragRbufGet at hGet
  cases hStops : (List.range cfg.rbufSize).find? (scanStops env s ipv6 id) with
  | none =>
    rw [rbufScan_full hStops] at hGet
    dsimp only at hGet
    split at hGet
    · cases hGet
      exact ⟨h, fun _ _ => rfl, fun _ hNone => hNone, by simp⟩
    · rcases Option.map_eq_some_iff.mp hGet with ⟨k, _, hPair⟩
      cases hPair
      refine ⟨h.but.rbufDel.initRbuf k, ?_, ?_, ?_⟩
      · intro a ha
        rw [initRbuf_heap, rbufDel_heap]
        exact pktbufRelease_heap_of_notMem (h.mineApart k a ha)
      · intro a ha
        rw [initRbuf_heap, rbufDel_heap]
        unfold pktbufRelease
        simp [ha]
      · rintro i ⟨⟩
        apply ready_initRbuf
        rw [rbufDel_rbuf, Function.update_self]
  | some k =>
    have hHead := List.find?_some hStops
    by_cases hMatch : s.rbufMatches env ipv6 id k = true
    · rw [rbufScan_found hStops hMatch] at hGet
      cases hGet
      refine ⟨h, fun _ _ => rfl, fun _ hNone => hNone, ?_⟩
      rintro i ⟨⟩
      exact ⟨rbufMatches_used hMatch, Or.inr ⟨rbufOf_of_stops hStops hMatch, rfl⟩⟩
    · have hNo := Bool.not_eq_true _ ▸ hMatch
      have hFree : (s.rbuf k).ipv6 = none := by
        simpa [scanStops, hNo] using hHead
      have hScanned : ∃ o, rbufScan env ipv6 id (List.range cfg.rbufSize)
                none none s =
              (s.initRbuf k ipv6 id, (s.rbufOf cfg env ipv6 id).elim (.missed (some k) o) .found) :=
        rbufScan_free List.nodup_range hStops hNo
      rcases hScanned with ⟨o, hScan⟩
      rw [hScan] at hGet
      cases hOf : s.rbufOf cfg env ipv6 id with
      | none =>
        rw [hOf] at hGet
        cases hGet
        refine ⟨h.initRbuf k, fun _ _ => rfl, fun _ hNone => hNone, ?_⟩
        rintro i ⟨⟩
        apply ready_initRbuf
        exact (h.fits k).empty ((h.fits k).unused hFree)
      | some j =>
        rw [hOf] at hGet
        cases hGet
        have hMatch' := List.find?_some hOf
        refine ⟨h.initRbuf k, fun _ _ => rfl, fun _ hNone => hNone, ?_⟩
        rintro i ⟨⟩
        have hjk : j ≠ k := by
          rintro rfl
          exact hMatch hMatch'
        have hEntry : (s.initRbuf k ipv6 id).rbuf j = s.rbuf j := Function.update_of_ne hjk _ _
        refine ⟨?_, Or.inr ⟨hOf, ?_⟩⟩
        · rw [hEntry]
          exact rbufMatches_used hMatch'
        · rw [hEntry]

end

----
-- Storing a Fragment
----

/-
  The limits of a fragment were stored, and its packet reaches
  their start once there is room for the fragment.
-/
structure Storing
    (s : ExtReass) (i : Nat) (mine : List Nat)
    (offset : Nat) : Prop extends s.SafeBut i mine where
  used : (s.rbuf i).ipv6 ≠ none
  limited : (s.rbuf i).limits ≠ []
  proper : ∀ l ∈ (s.rbuf i).limits, l.start < l.stop
  reaches :
    ∀ l ∈ (s.rbuf i).limits,
      8 * l.start ≤ offset ∨ ∃ q ∈ (s.rbuf i).pkt.head?, 8 * l.start ≤ s.sizeAt q

theorem SafeBut.setRbuf
    (h : s.SafeBut i mine) (hPkt : b.pkt = (s.rbuf i).pkt) :
    (s.setRbuf i b).SafeBut i mine := by
  have hSelf : (s.setRbuf i b).rbuf i = b := Function.update_self _ _ _
  apply h.step
  · exact fun j hj => Function.update_of_ne hj _ _
  · exact fun j _ a ha =>
      snipKept_of_eq (h.live j a ha) rfl
  · rw [hSelf, hPkt]
    exact h.nodup i
  · rw [hSelf, hPkt]
    exact fun a ha =>
      ⟨h.live i a ha, fun j hj => h.apart i j hj.symm a ha⟩
  · rw [hSelf, hPkt]
    exact fun a ha =>
      ⟨ha, h.mineLive a ha, h.mineApart i a ha⟩
  · exact h.mineNodup
  · exact h.copiesFit

theorem Storing.setRbuf
    {offset : Nat} (h : s.Storing i mine offset) (hPkt : b.pkt = (s.rbuf i).pkt)
    (hLimits : b.limits = (s.rbuf i).limits) (hIpv6 : b.ipv6 = (s.rbuf i).ipv6) :
    (s.setRbuf i b).Storing i mine offset := by
  have hSelf : (s.setRbuf i b).rbuf i = b := Function.update_self _ _ _
  refine ⟨h.toSafeBut.setRbuf hPkt, ?_, ?_, ?_, ?_⟩
  · rw [hSelf, hIpv6]
    exact h.used
  · rw [hSelf, hLimits]
    exact h.limited
  · rw [hSelf, hLimits]
    exact h.proper
  · rw [hSelf, hLimits, hPkt]
    exact h.reaches

/- An entry whose packet reaches far enough is in order. -/
theorem Storing.safe
    {offset q : Nat} {hs : List Nat} (h : s.Storing i mine offset)
    (hPkt : (s.rbuf i).pkt = q :: hs) (hSize : offset ≤ s.sizeAt q) :
    s.Safe mine := by
  apply h.toSafeBut.safe
  refine ⟨fun hNone => absurd hNone h.used, ?_, h.proper, ?_⟩
  · rw [hPkt]
    exact fun hNil => by cases hNil
  · rw [hPkt]
    rintro q' ⟨⟩
    refine ⟨h.limited, fun l hl => ?_⟩
    rcases h.reaches l hl with hReach | ⟨q', hq', hReach⟩
    · exact hReach.trans hSize
    · rw [hPkt] at hq'
      cases hq'
      exact hReach

theorem sizeAt_of_heap
    {snip : ReassSnip} (hHeap : s.heap a = some snip) :
    s.sizeAt a = snip.size := by
  rw [sizeAt, hHeap]
  rfl

section

variable {p fh offset size : Nat} {hdrs : List Nat}

/- A new snip is put in front of the headers. -/
theorem Storing.newSnip
    {a : Nat} {snip : ReassSnip} (h : s.Storing i (p :: fh :: hdrs) offset)
    (hNil : (s.rbuf i).pkt = []) (hFree : s.heap a = none)
    (hSize : offset ≤ snip.size) :
    ((s.setSnip a snip).setRbuf i { s.rbuf i with pkt := a :: hdrs }).Safe [p, fh] := by
  have hEntry : ((s.setSnip a snip).setRbuf i { s.rbuf i with pkt := a :: hdrs }).rbuf i =
        { s.rbuf i with pkt := a :: hdrs } :=
    Function.update_self _ _ _
  have hHeap : ∀ b, (s.heap b).isSome →
        ((s.setSnip a snip).setRbuf i { s.rbuf i with pkt := a :: hdrs }).heap b = s.heap b := by
    intro b hLive
    apply Function.update_of_ne
    rintro rfl
    rw [hFree] at hLive
    cases hLive
  have hDead : ∀ b, (s.heap b).isSome → b ≠ a := by
    rintro b hLive rfl
    rw [hFree] at hLive
    cases hLive
  have hNodup := h.mineNodup
  rw [List.nodup_cons, List.nodup_cons] at hNodup
  have hMine : ∀ b ∈ p :: fh :: hdrs, (s.heap b).isSome := h.mineLive
  have hStoring :
      ((s.setSnip a snip).setRbuf i { s.rbuf i with pkt := a :: hdrs }).SafeBut i [p, fh] := by
    apply h.toSafeBut.step
    · exact fun j hj => Function.update_of_ne hj _ _
    · intro j _ b hb
      exact snipKept_of_eq (h.live j b hb) (hHeap b (h.live j b hb))
    · rw [hEntry]
      apply List.nodup_cons.mpr
      refine ⟨fun hIn => ?_, hNodup.2.2⟩
      exact hDead a (hMine a (by simp [hIn])) rfl
    · rw [hEntry]
      intro b hb
      rcases List.mem_cons.mp hb with rfl | hb
      · refine ⟨?_, fun j _ hIn => ?_⟩
        · rw [setRbuf_heap, setSnip_heap, Function.update_self]
          rfl
        · exact hDead b (h.live j b hIn) rfl
      · have hIn : b ∈ p :: fh :: hdrs := by
          simp [hb]
        rw [hHeap b (hMine b hIn)]
        exact ⟨hMine b hIn, fun j _ => h.mineApart j b hIn⟩
    · rw [hEntry]
      intro b hb
      have hIn : b ∈ p :: fh :: hdrs := by
        rcases List.mem_cons.mp hb with rfl | hb
        · simp
        · rw [List.mem_singleton] at hb
          simp [hb]
      refine ⟨hIn, ?_, fun hOwn => ?_⟩
      · rw [hHeap b (hMine b hIn)]
        exact hMine b hIn
      · rcases List.mem_cons.mp hOwn with rfl | hOwn
        · exact hDead b (hMine b hIn) rfl
        · rcases List.mem_cons.mp hb with rfl | hb
          · exact hNodup.1 (List.mem_cons_of_mem _ hOwn)
          · rw [List.mem_singleton] at hb
            exact hNodup.2.1 (hb ▸ hOwn)
    · have hNe : p ≠ fh := fun hEq => hNodup.1 (by simp [hEq])
      simp [hNe]
    · exact h.copiesFit
  have hSizeAt : ((s.setSnip a snip).setRbuf i { s.rbuf i with pkt := a :: hdrs }).sizeAt a =
        snip.size := by
    apply sizeAt_of_heap
    exact Function.update_self _ _ _
  apply hStoring.safe
  refine ⟨?_, ?_, ?_, ?_⟩
  · rw [hEntry]
    exact fun hNone => absurd hNone h.used
  · rw [hEntry]
    exact fun hEmpty => by cases hEmpty
  · rw [hEntry]
    exact h.proper
  · rw [hEntry]
    rintro q ⟨⟩
    refine ⟨h.limited, fun l hl => ?_⟩
    rw [hSizeAt]
    rcases h.reaches l hl with hReach | ⟨q, hq, _⟩
    · exact hReach.trans hSize
    · rw [hNil] at hq
      cases hq

theorem Storing.modifySnip
    {f : ReassSnip → ReassSnip} (h : s.Storing i mine offset) (a : Nat)
    (hSize : ∀ q, ReassSnip.size q ≤ ReassSnip.size (f q)) :
    (s.modifySnip a f).Storing i mine offset where
  live := fun j b hb =>
    (snipKept_modifySnip hSize (h.live j b hb)).1
  nodup := h.nodup
  apart := h.apart
  mineLive := fun b hb =>
    (snipKept_modifySnip hSize (h.mineLive b hb)).1
  mineNodup := h.mineNodup
  mineApart := h.mineApart
  fits := by
    intro j hj
    apply (h.fits j hj).congr
    · rfl
    · rfl
    · exact fun hNone => hNone
    · intro q hq
      exact (snipKept_modifySnip hSize (h.live j q hq)).2
  copiesFit := h.copiesFit
  used := h.used
  limited := h.limited
  proper := h.proper
  reaches := by
    intro l hl
    rcases h.reaches l hl with hReach | ⟨q, hq, hReach⟩
    · exact Or.inl hReach
    · refine Or.inr ⟨q, hq, hReach.trans ?_⟩
      have hLive := h.live i q (List.mem_of_mem_head? hq)
      exact (snipKept_modifySnip hSize hLive).2

/- With enough room the entry is in order. -/
theorem Storing.space
    (h : s.Storing i (p :: fh :: hdrs) offset)
    (hFree : ∀ a ∈ env.addSnip, s.heap a = none) (hOffset : offset ≤ size)
    (hSpace : s.reassSpace env i hdrs size = some s') :
    ∃ q hs, (s'.rbuf i).pkt = q :: hs ∧ size ≤ s'.sizeAt q ∧
      ((hs = hdrs ∧ s'.Safe [p, fh]) ∨ s'.Safe (p :: fh :: hdrs)) := by
  unfold reassSpace at hSpace
  cases hPkt : (s.rbuf i).pkt with
  | nil =>
    rw [hPkt] at hSpace
    rcases Option.map_eq_some_iff.mp hSpace with ⟨a, ha, hEq⟩
    subst hEq
    have hSize : (⟨.undef, newBytes env 0 size⟩ : ReassSnip).size = size := by
      simp [ReassSnip.size, length_newBytes]
    refine ⟨a, hdrs, ?_, ?_, Or.inl ⟨rfl, ?_⟩⟩
    · rw [setRbuf_rbuf, Function.update_self]
    · rw [sizeAt_of_heap (Function.update_self _ _ _), hSize]
    · apply h.newSnip hPkt (hFree a ha)
      rw [hSize]
      exact hOffset
  | cons q hs =>
    rw [hPkt] at hSpace
    have hLive : (s.heap q).isSome := h.live i q (by simp [hPkt])
    rcases Option.isSome_iff_exists.mp hLive with ⟨snip, hSnip⟩
    dsimp only at hSpace
    rw [snip_of_heap hSnip] at hSpace
    by_cases hShort : snip.size < size
    · rw [if_pos hShort] at hSpace
      by_cases hRealloc : env.realloc = true
      · rw [if_pos hRealloc] at hSpace
        cases hSpace
        have hGrown := h.modifySnip q (@size_le_growSnip env size)
        have hSize : (s.modifySnip q (growSnip env size)).sizeAt q = size := by
          rw [sizeAt, modifySnip_heap, Function.update_self, hSnip]
          exact size_growSnip (by omega)
        refine ⟨q, hs, hPkt, hSize.ge, Or.inr ?_⟩
        apply hGrown.safe hPkt
        rw [hSize]
        exact hOffset
      · rw [if_neg hRealloc] at hSpace
        cases hSpace
    · rw [if_neg hShort] at hSpace
      cases hSpace
      have hSize : size ≤ s.sizeAt q := by
        rw [sizeAt_of_heap hSnip]
        omega
      exact ⟨q, hs, hPkt, hSize, Or.inr (h.safe hPkt (hOffset.trans hSize))⟩

/- A copy that fits is recorded as such. -/
theorem Safe.copyToRbuf
    {q : Nat} {hs : List Nat} {bytes : List UInt8} (h : s.Safe mine)
    (hPkt : (s.rbuf i).pkt = q :: hs) (hFits : offset + bytes.length ≤ s.sizeAt q) :
    (s.copyToRbuf env i offset bytes).Safe mine := by
  rcases Option.isSome_iff_exists.mp (h.live i q (by simp [hPkt])) with ⟨snip, hSnip⟩
  have hWritten := h.modifySnip q (fun q => (size_storeInSnip offset bytes q).ge)
  rw [copyToRbuf_eq hPkt]
  refine ⟨⟨hWritten.live, hWritten.nodup, hWritten.apart, hWritten.mineLive, hWritten.mineNodup,
    hWritten.mineApart⟩, fun j => ?_, ?_⟩
  · exact (hWritten.fits j).congr rfl rfl (fun hNone => hNone) (fun q _ => Nat.le_refl _)
  · intro c hc
    rcases List.mem_cons.mp hc with rfl | hc
    · rw [snip_of_heap hSnip, ← sizeAt_of_heap hSnip]
      exact hFits
    · exact h.copiesFit c hc

end

/- A packet that is complete leaves its entry. -/
theorem Safe.completed
    {r : ExtReass × List Nat} (h : s.Safe []) (hDone : s.completed i = some r) :
    (r.1.pktbufRelease r.2).Safe [] := by
  have hSame : (s.pktbufRelease []).Safe [] := by
    apply h.release
    · simp
    · simp
    · exact List.nodup_nil
  unfold ExtReass.completed at hDone
  split at hDone
  · cases hDone
  · split at hDone
    · unfold takePkt at hDone
      rcases Option.map_eq_some_iff.mp hDone with ⟨ipv6, _, hPair⟩
      cases hPair
      -- what is handed on is what deleting would release
      have hLen : (s.modifySnip ipv6 (fun q =>
            { q with
              data := setIpv6Len q.data (s.rbuf i).pktLen })).Safe [] := by
        apply h.modifySnip
        intro q
        simp [ReassSnip.size, setIpv6Len]
      exact hLen.but.rbufDel
    · cases hDone
      exact hSame

theorem setNh_eq
    {nh : UInt8} (hSet : s.setNh env a nh = some s') :
    ∃ f : ReassSnip → ReassSnip,
      s' = s.modifySnip a f ∧ ∀ q, ReassSnip.size q = ReassSnip.size (f q) := by
  unfold setNh at hSet
  split at hSet
  · cases hSet
    refine ⟨_, rfl, fun q => ?_⟩
    simp [ReassSnip.size]
  · cases hSet
    refine ⟨_, rfl, fun q => ?_⟩
    simp [ReassSnip.size]
  · cases hSet

section

variable {p fh offset : Nat} {hdrs : List Nat} {r : ExtReass × List Nat}

theorem Storing.release
    (h : s.Storing i mine offset) (hPkt : ∀ a ∈ pkt, a ∈ mine)
    (hMine : ∀ a ∈ mine', a ∈ mine ∧ a ∉ pkt) (hMineNodup : mine'.Nodup) :
    (s.pktbufRelease pkt).Storing i mine' offset := by
  have hHeap : ∀ j, ∀ a ∈ (s.rbuf j).pkt, (s.pktbufRelease pkt).heap a = s.heap a := by
    intro j a ha
    apply pktbufRelease_heap_of_notMem
    exact fun hIn => h.mineApart j a (hPkt a hIn) ha
  refine ⟨?_, h.used, h.limited, h.proper, ?_⟩
  · apply h.toSafeBut.step
    · exact fun j _ => rfl
    · exact fun j _ a ha =>
        snipKept_of_eq (h.live j a ha) (hHeap j a ha)
    · exact h.nodup i
    · intro a ha
      rw [hHeap i a ha]
      exact ⟨h.live i a ha, fun j hj => h.apart i j hj.symm a ha⟩
    · intro a ha
      rw [pktbufRelease_heap_of_notMem (hMine a ha).2]
      exact ⟨(hMine a ha).1, h.mineLive a (hMine a ha).1, h.mineApart i a (hMine a ha).1⟩
    · exact hMineNodup
    · exact h.copiesFit
  · intro l hl
    rcases h.reaches l hl with hReach | ⟨q, hq, hReach⟩
    · exact Or.inl hReach
    · have hIn := List.mem_of_mem_head? hq
      have hKept := snipKept_of_eq (h.live i q hIn) (hHeap i q hIn)
      exact Or.inr ⟨q, hq, hReach.trans hKept.2⟩

section

variable (h : s.Storing i (p :: fh :: hdrs) offset)

include h

theorem Storing.store
    {size : Nat} {bytes : List UInt8} (hFree : ∀ a ∈ env.addSnip, s.heap a = none)
    (hSize : size = offset + bytes.length)
    (hStep : s.reassStore env i p fh hdrs offset size bytes = some r) :
    (r.1.pktbufRelease r.2).Safe [] := by
  unfold reassStore at hStep
  cases hSpace : s.reassSpace env i hdrs size with
  | none =>
    rw [hSpace] at hStep
    exact h.toSafeBut.errorExit hStep
  | some s₁ =>
    rw [hSpace] at hStep
    dsimp only at hStep
    rcases h.space hFree (by omega) hSpace with ⟨q, hs, hPkt, hRoom, hSafe⟩
    rw [hSize] at hRoom
    rw [copyToRbuf_rbuf, hPkt, List.tail_cons] at hStep
    rcases hSafe with ⟨rfl, hSafe⟩ | hSafe
    · rw [if_pos rfl] at hStep
      have hCopied : (s₁.copyToRbuf env i offset bytes).Safe [p, fh] := hSafe.copyToRbuf hPkt hRoom
      refine Safe.completed ?_ hStep
      apply hCopied.release
      · simp
      · simp
      · exact List.nodup_nil
    · have hCopied : (s₁.copyToRbuf env i offset bytes).Safe (p :: fh :: hdrs) :=
        hSafe.copyToRbuf hPkt hRoom
      refine Safe.completed ?_ hStep
      by_cases hHead : hs.head? = hdrs.head?
      · rw [if_pos hHead]
        apply hCopied.release
        · simp
        · simp
        · exact List.nodup_nil
      · rw [if_neg hHead]
        exact hCopied.releaseAll

theorem Storing.subsequent
    {more : Bool} (hFree : ∀ a ∈ env.addSnip, s.heap a = none)
    (hEnd : offset + (s.snip env p).size < 2 ^ cfg.width)
    (hStep : s.reassSubsequent cfg env i p fh hdrs offset more = some r) :
    (r.1.pktbufRelease r.2).Safe [] := by
  have hUntil :
      (offset + (s.snip env p).data.length) % 2 ^ cfg.width = offset + (s.snip env p).data.length :=
    Nat.mod_eq_of_lt hEnd
  unfold reassSubsequent at hStep
  dsimp only at hStep
  by_cases hOdd : more = true ∧ (s.snip env p).data.length % 8 ≠ 0
  · rw [if_pos hOdd] at hStep
    exact h.toSafeBut.errorExit hStep
  · rw [if_neg hOdd] at hStep
    cases more with
    | true =>
      rw [if_pos rfl] at hStep
      exact h.store hFree hUntil hStep
    | false =>
      rw [if_neg (by decide)] at hStep
      have hLast : (s.setRbuf i { s.rbuf i with
            last := (s.rbuf i).last + 1
            pktLen := (s.rbuf i).pktLen +
                UInt16.ofNat ((offset + (s.snip env p).data.length) % 2 ^ cfg.width) }).Storing i
              (p :: fh :: hdrs) offset := by
        apply h.setRbuf
        · rfl
        · rfl
        · rfl
      exact hLast.store hFree hUntil hStep

/- Release the fragment header. -/
theorem Storing.dropHeader :
    (s.pktbufRelease [fh]).Storing i (p :: hdrs) offset := by
  have hNodup := h.mineNodup
  simp only [List.nodup_cons, List.mem_cons, not_or] at hNodup
  apply h.release
  · simp
  · intro a ha
    rcases List.mem_cons.mp ha with rfl | ha
    · simpa using hNodup.1.1
    · refine ⟨by simp [ha], ?_⟩
      rw [List.mem_singleton]
      rintro rfl
      exact hNodup.2.1 ha
  · exact List.nodup_cons.mpr ⟨hNodup.1.2, hNodup.2.2⟩

theorem Storing.atomic
    {ipv6 : Nat} {nh : UInt8}
    (hStep : s.reassAtomic env i p fh ipv6 hdrs nh = some r) :
    (r.1.pktbufRelease r.2).Safe [] := by
  unfold reassAtomic at hStep
  rcases Option.map_eq_some_iff.mp hStep with ⟨s₁, hSet, hPair⟩
  cases hPair
  rcases Option.bind_eq_some_iff.mp hSet with ⟨hdr, _, hSet⟩
  rcases setNh_eq hSet with ⟨f, rfl, hSize⟩
  have hNext : (s.modifySnip hdr f).Storing i
      (p :: fh :: hdrs) offset :=
    h.modifySnip hdr (fun q => (hSize q).le)
  apply Safe.releaseAll
  apply hNext.dropHeader.toSafeBut.rbufDel.modifySnip
  intro q
  simp [ReassSnip.size, setIpv6Len]

end

/- The packet of an entry gets these headers. -/
theorem Safe.setHeaders
    {q ipv6 : Nat} {hs : List Nat} (h : s.Safe hdrs)
    (hPkt : (s.rbuf i).pkt = q :: hs) :
    (s.setRbuf i { s.rbuf i with
      pkt := q :: hdrs
      ipv6 := some ipv6 }).Safe [] := by
  have hEntry : (s.setRbuf i { s.rbuf i with pkt := q :: hdrs, ipv6 := some ipv6 }).rbuf i =
        { s.rbuf i with pkt := q :: hdrs, ipv6 := some ipv6 } :=
    Function.update_self _ _ _
  have hIn : q ∈ (s.rbuf i).pkt := by
    simp [hPkt]
  have hFits := h.fits i
  refine SafeBut.safe (h.but.step (i := i) ?_ ?_ ?_ ?_ ?_ ?_ h.copiesFit) ?_
  · exact fun j hj => Function.update_of_ne hj _ _
  · exact fun j _ a ha =>
      snipKept_of_eq (h.live j a ha) rfl
  · rw [hEntry]
    apply List.nodup_cons.mpr
    exact ⟨fun hHdr => h.mineApart i q hHdr hIn, h.mineNodup⟩
  · rw [hEntry]
    intro a ha
    rcases List.mem_cons.mp ha with rfl | ha
    · exact ⟨h.live i a hIn, fun j hj => h.apart i j hj.symm a hIn⟩
    · exact ⟨h.mineLive a ha, fun j _ => h.mineApart j a ha⟩
  · simp
  · exact List.nodup_nil
  · refine ⟨?_, ?_, ?_, ?_⟩
    · rw [hEntry]
      exact fun hNone => by cases hNone
    · rw [hEntry]
      exact fun hNil => by cases hNil
    · rw [hEntry]
      exact hFits.proper
    · rw [hEntry]
      rintro q' ⟨⟩
      exact hFits.reaches q (by simp [hPkt])

theorem Storing.storeFirst
    {ipv6 : Nat} {snip : ReassSnip} (h : s.Storing i (p :: hdrs) 0)
    (hSmall : ∀ q ∈ (s.rbuf i).pkt.head?, snip.size ≤ s.sizeAt q)
    (hStep : s.reassStoreFirst env i p ipv6 hdrs snip = some r) :
    (r.1.pktbufRelease r.2).Safe [] := by
  unfold reassStoreFirst at hStep
  cases hPkt : (s.rbuf i).pkt with
  | nil =>
    rw [hPkt] at hStep
    cases hStep
    have hEntry : (s.setRbuf i { s.rbuf i with pkt := p :: hdrs }).rbuf i =
          { s.rbuf i with pkt := p :: hdrs } :=
      Function.update_self _ _ _
    have hSafe : (s.setRbuf i { s.rbuf i with
          pkt := p :: hdrs }).Safe [] := by
      refine SafeBut.safe (h.toSafeBut.step ?_ ?_ ?_ ?_ ?_ List.nodup_nil h.copiesFit) ?_
      · exact fun j hj => Function.update_of_ne hj _ _
      · exact fun j _ a ha =>
          snipKept_of_eq (h.live j a ha) rfl
      · rw [hEntry]
        exact h.mineNodup
      · rw [hEntry]
        exact fun a ha => ⟨h.mineLive a ha, fun j _ => h.mineApart j a ha⟩
      · simp
      · refine ⟨?_, ?_, ?_, ?_⟩
        · rw [hEntry]
          exact fun hNone => absurd hNone h.used
        · rw [hEntry]
          exact fun hNil => by cases hNil
        · rw [hEntry]
          exact h.proper
        · rw [hEntry]
          rintro q ⟨⟩
          refine ⟨h.limited, fun l hl => ?_⟩
          rcases h.reaches l hl with hReach | ⟨q, hq, _⟩
          · exact hReach.trans (Nat.zero_le _)
          · rw [hPkt] at hq
            cases hq
    apply hSafe.release
    · simp
    · simp
    · exact List.nodup_nil
  | cons q hs =>
    rw [hPkt] at hStep
    dsimp only at hStep
    have hRoom : 0 + snip.data.length ≤ s.sizeAt q := by
      rw [Nat.zero_add]
      exact hSmall q (by simp [hPkt])
    have hCopied : (s.copyToRbuf env i 0 snip.data).Safe (p :: hdrs) :=
      (h.safe hPkt (Nat.zero_le _)).copyToRbuf hPkt hRoom
    have hTyped : ((s.copyToRbuf env i 0 snip.data).modifySnip q
          (fun q => { q with type := snip.type })).Safe (p :: hdrs) := by
      apply hCopied.modifySnip
      exact fun q => Nat.le_refl _
    have hNodup := List.nodup_cons.mp h.mineNodup
    have hFinal : (((s.copyToRbuf env i 0 snip.data).modifySnip q (fun q =>
            { q with type := snip.type })).pktbufRelease [p]).Safe hdrs := by
      apply hTyped.release
      · simp
      · intro a ha
        refine ⟨by simp [ha], ?_⟩
        rw [List.mem_singleton]
        rintro rfl
        exact hNodup.1 ha
      · exact hNodup.2
    have hPkt' : ((((s.copyToRbuf env i 0 snip.data).modifySnip q (fun q =>
            { q with type := snip.type })).pktbufRelease [p]).rbuf i).pkt = q :: hs := by
      rw [pktbufRelease_rbuf, modifySnip_rbuf, copyToRbuf_rbuf, hPkt]
    exact (hFinal.setHeaders hPkt').completed hStep

theorem Storing.first
    {ipv6 : Nat} {nh : UInt8} (h : s.Storing i (p :: fh :: hdrs) 0)
    (hSmall :
      ∀ q ∈ (s.rbuf i).pkt.head?, (s.snip env p).size % 8 = 0 → (s.snip env p).size ≤ s.sizeAt q)
    (hStep : s.reassFirst env i p fh ipv6 hdrs nh = some r) :
    (r.1.pktbufRelease r.2).Safe [] := by
  unfold reassFirst at hStep
  dsimp only at hStep
  by_cases hOdd : (s.snip env p).size % 8 ≠ 0
  · rw [if_pos hOdd] at hStep
    exact h.toSafeBut.errorExit hStep
  rw [if_neg hOdd] at hStep
  rcases Option.bind_eq_some_iff.mp hStep with ⟨s₁, hSet, hStep⟩
  rcases Option.bind_eq_some_iff.mp hSet with ⟨hdr, _, hSet⟩
  rcases setNh_eq hSet with ⟨f, rfl, hSize⟩
  have hNext : (s.modifySnip hdr f).Storing i
      (p :: fh :: hdrs) 0 :=
    h.modifySnip hdr (fun q => (hSize q).le)
  have hLeft := hNext.dropHeader
  refine Storing.storeFirst (hLeft.setRbuf ?_ ?_ ?_) ?_ hStep
  · rfl
  · rfl
  · rfl
  · intro q hq
    have hHead : q ∈ (s.rbuf i).pkt.head? := by
      rwa [setRbuf_rbuf, Function.update_self] at hq
    have hIn := List.mem_of_mem_head? hHead
    have hFit := hSmall q hHead (by omega)
    have hKept : SnipKept s (s.modifySnip hdr f) q :=
      snipKept_modifySnip (fun q => (hSize q).le) (h.live i q hIn)
    have hKept' : SnipKept (s.modifySnip hdr f) ((s.modifySnip hdr f).pktbufRelease [fh]) q := by
      apply snipKept_of_eq hKept.1
      apply pktbufRelease_heap_of_notMem
      rw [List.mem_singleton]
      rintro rfl
      exact h.mineApart i q (by simp) hIn
    exact hFit.trans (hKept.trans hKept').2

end

----
-- The Limits of a Fragment
----

section

variable {offset len : Nat}

/- Limits that are not cut off are in order. -/
theorem fragLimits_spec
    (hEnd : EndFits cfg (offset + len)) :
    (fragLimits cfg offset len).start = offset / 8 ∧
      (fragLimits cfg offset len).stop = max (offset / 8 + 1) ((offset + len) / 8) := by
  rcases hEnd with ⟨hEnd, hBound⟩
  have hStart : offset / 8 % 2 ^ 16 = offset / 8 := by
    omega
  have hStop : (offset + len) % 2 ^ cfg.width / 8 % 2 ^ 16 = (offset + len) / 8 := by
    rw [Nat.mod_eq_of_lt hEnd]
    omega
  unfold fragLimits
  rw [hStart, hStop]
  by_cases hSame : offset / 8 = (offset + len) / 8
  · rw [if_pos hSame]
    refine ⟨rfl, ?_⟩
    rw [Nat.mod_eq_of_lt (by omega)]
    dsimp only
    omega
  · rw [if_neg hSame]
    refine ⟨rfl, ?_⟩
    dsimp only
    omega

theorem mem_sortLimits
    {l : FragLimits} {limits : List FragLimits} :
    l ∈ sortLimits limits ↔ l ∈ limits :=
  List.mem_insertionSort _

/- Storing starts with the limits, if they are new. -/
theorem Safe.storing
    (h : s.Safe mine) (hUsed : (s.rbuf i).ipv6 ≠ none)
    (hEnd : EndFits cfg (offset + len))
    (hNew : s.overlaps cfg i offset len = (s', .limitsNew)) :
    s'.Storing i mine offset := by
  have hFits := h.fits i
  have hReach : ∀ l ∈ (s.rbuf i).limits, ∃ q ∈ (s.rbuf i).pkt.head?, 8 * l.start ≤ s.sizeAt q := by
    intro l hl
    cases hPkt : (s.rbuf i).pkt with
    | nil =>
      rw [hFits.empty hPkt] at hl
      cases hl
    | cons q hs =>
      have hHead : q ∈ (s.rbuf i).pkt.head? := by
        simp [hPkt]
      exact ⟨q, rfl, (hFits.reaches q hHead).2 l hl⟩
  rcases fragLimits_spec hEnd with ⟨hStart, hStop⟩
  rcases overlaps_cases cfg s i offset len with hRes | hRes | ⟨hRes, cur, hCur, _⟩ | ⟨hRes, _⟩
  · cases hRes.symm.trans hNew
  · cases hRes.symm.trans hNew
  · cases hRes.symm.trans hNew
    exact ⟨h.but, hUsed, List.ne_nil_of_mem hCur, hFits.proper, fun l hl => Or.inr (hReach l hl)⟩
  · cases hRes.symm.trans hNew
    have hEntry : (s.addLimits i (fragLimits cfg offset len)).rbuf i = { s.rbuf i with
            limits := sortLimits ((s.rbuf i).limits ++ [fragLimits cfg offset len]) } := by
      rw [addLimits_rbuf, Function.update_self]
    have hMem : ∀ l ∈ sortLimits ((s.rbuf i).limits ++ [fragLimits cfg offset len]),
          l ∈ (s.rbuf i).limits ∨ l = fragLimits cfg offset len := by
      intro l hl
      simpa [mem_sortLimits] using hl
    have hBut : (s.setRbuf i { s.rbuf i with
        limits := sortLimits ((s.rbuf i).limits ++ [fragLimits cfg offset len]) }).SafeBut i mine :=
      h.but.setRbuf rfl
    refine ⟨⟨⟨hBut.live, hBut.nodup, hBut.apart,
      hBut.mineLive, hBut.mineNodup, hBut.mineApart⟩, ?_, h.copiesFit⟩, ?_, ?_, ?_, ?_⟩
    · intro j hj
      apply (hBut.fits j hj).congr
      · rfl
      · rfl
      · exact fun hNone => hNone
      · exact fun q _ => Nat.le_refl _
    · rw [hEntry]
      exact hUsed
    · rw [hEntry]
      apply List.ne_nil_of_mem
      exact mem_sortLimits.mpr (List.mem_append_right _ (List.mem_singleton.mpr rfl))
    · rw [hEntry]
      intro l hl
      rcases hMem l hl with hOld | rfl
      · exact hFits.proper l hOld
      · omega
    · rw [hEntry]
      intro l hl
      rcases hMem l hl with hOld | rfl
      · exact Or.inr (hReach l hOld)
      · left
        omega

/- A first fragment apart from the limits fits. -/
theorem Fits.first
    {q : Nat} (h : s.Fits i) (hHead : q ∈ (s.rbuf i).pkt.head?)
    (hEnd : EndFits cfg (0 + len)) (hUnits : len % 8 = 0)
    (hApart : ∀ cur ∈ (s.rbuf i).limits, cur.overlap (fragLimits cfg 0 len) = false) :
    len ≤ s.sizeAt q := by
  rcases h.reaches q hHead with ⟨hNe, hReach⟩
  rcases List.exists_mem_of_ne_nil _ hNe with ⟨l, hl⟩
  have hProper := h.proper l hl
  have hStart := hReach l hl
  rcases fragLimits_spec hEnd with ⟨hFirst, hStop⟩
  have hNot := hApart l hl
  simp only [FragLimits.overlap, Bool.and_eq_false_iff, decide_eq_false_iff_not, not_lt] at hNot
  rw [hFirst, hStop] at hNot
  omega

end

----
-- Receiving a Fragment
----

section

variable {p fh ipv6 : Nat} {hdrs : List Nat} {r : ExtReass × List Nat}
variable {pkt : List (Nat × ReassSnip)}

/- A fragment whose limits were stored. -/
theorem Safe.reassNew
    {offset : Nat} {more : Bool} {nh : UInt8} (h : s.Safe (p :: fh :: hdrs))
    (hStoring : s'.Storing i (p :: fh :: hdrs) offset)
    (hPkt : (s'.rbuf i).pkt = (s.rbuf i).pkt) (hHeap : s'.heap = s.heap)
    (hFree : ∀ a ∈ env.addSnip, s.heap a = none)
    (hEnd : EndFits cfg (offset + (s.snip env p).size))
    (hApart : offset = 0 → more = true →
        ∀ cur ∈ (s.rbuf i).limits, cur.overlap (fragLimits cfg 0 (s.snip env p).size) = false)
    (hStep : (if 0 < offset then s'.reassSubsequent cfg env i p fh hdrs offset more
      else if more = false then s'.reassAtomic env i p fh ipv6 hdrs nh
      else s'.reassFirst env i p fh ipv6 hdrs nh) = some r) :
    (r.1.pktbufRelease r.2).Safe [] := by
  have hSnip : ∀ a, s'.snip env a = s.snip env a := by
    intro a
    rw [ExtReass.snip, hHeap]
    rfl
  by_cases hPos : 0 < offset
  · rw [if_pos hPos] at hStep
    refine hStoring.subsequent ?_ ?_ hStep
    · rw [hHeap]
      exact hFree
    · rw [hSnip]
      exact hEnd.1
  · rw [if_neg hPos] at hStep
    obtain rfl : offset = 0 := by
      omega
    cases more with
    | false =>
      rw [if_pos rfl] at hStep
      exact hStoring.atomic hStep
    | true =>
      rw [if_neg (by decide)] at hStep
      refine hStoring.first ?_ hStep
      intro q hq hUnits
      rw [hPkt] at hq
      rw [hSnip] at hUnits ⊢
      rw [sizeAt, hHeap]
      exact (h.fits i).first hq hEnd hUnits (hApart rfl rfl)

theorem Safe.reassInto
    {s₀ : ExtReass} {id : UInt32} (h : s.Safe (p :: fh :: hdrs))
    (hFree : ∀ a ∈ env.addSnip, s.heap a = none)
    (hReady : Ready cfg env s₀ s ipv6 id i)
    (hEnd : EndFits cfg (extFragGetOffset (s.snip env fh).data + (s.snip env p).size))
    (hApart :
      extFragGetOffset (s.snip env fh).data = 0 → extFragMore (s.snip env fh).data = true →
        ∀ i ∈ s₀.rbufOf cfg env ipv6 id,
          ∀ cur ∈ (s₀.rbuf i).limits, cur.overlap (fragLimits cfg 0 (s.snip env p).size) = false)
    (hStep : s.reassInto cfg env i p fh ipv6 hdrs = some r) :
    (r.1.pktbufRelease r.2).Safe [] := by
  -- the time of arrival matters to no other step
  have hTimed : (s.setRbuf i { s.rbuf i with arrival := env.now }).Safe (p :: fh :: hdrs) :=
    h.setRbuf rfl rfl (fun hNone => hNone)
  have hEntry : (s.setRbuf i { s.rbuf i with arrival := env.now }).rbuf i =
        { s.rbuf i with arrival := env.now } :=
    Function.update_self _ _ _
  have hUsed : ((s.setRbuf i { s.rbuf i with
        arrival := env.now }).rbuf i).ipv6 ≠ none := by
    rw [hEntry]
    exact hReady.used
  have hHeap : (s.setRbuf i { s.rbuf i with arrival := env.now }).heap = s.heap := rfl
  have hKnown :
      extFragGetOffset (s.snip env fh).data = 0 → extFragMore (s.snip env fh).data = true →
        ∀ cur ∈ ((s.setRbuf i { s.rbuf i with arrival := env.now }).rbuf i).limits,
          cur.overlap (fragLimits cfg 0 (s.snip env p).size) = false := by
    intro hZero hMore
    rw [hEntry]
    rcases hReady.known with hNil | ⟨hOf, hSame⟩
    · intro cur hCur
      rw [hNil] at hCur
      cases hCur
    · intro cur hCur
      rw [hSame] at hCur
      exact hApart hZero hMore i hOf cur hCur
  unfold ExtReass.reassInto at hStep
  dsimp only at hStep
  generalize s.setRbuf i { s.rbuf i with arrival := env.now } = t at *
  have hSnip : ∀ a, t.snip env a = s.snip env a := by
    intro a
    rw [ExtReass.snip, hHeap]
    rfl
  rw [← hHeap] at hFree
  simp only [← hSnip] at hEnd hKnown
  rcases overlaps_cases cfg t i
      (extFragGetOffset (t.snip env fh).data)
      (t.snip env p).size with
    hRes | hRes | ⟨hRes, _⟩ | ⟨hRes, _⟩
  · rw [hRes] at hStep
    exact hTimed.but.errorExit hStep
  · rw [hRes] at hStep
    cases hStep
    apply hTimed.releaseAll.release
    · simp
    · simp
    · exact List.nodup_nil
  · have hStoring := hTimed.storing hUsed hEnd hRes
    rw [hRes] at hStep
    exact hTimed.reassNew hStoring rfl rfl hFree hEnd hKnown hStep
  · have hStoring := hTimed.storing hUsed hEnd hRes
    rw [hRes] at hStep
    refine hTimed.reassNew hStoring ?_ rfl hFree hEnd hKnown hStep
    rw [addLimits_rbuf, Function.update_self]

theorem receive_heap_of_notMem
    {a : Nat} (hNot : a ∉ pkt.map Prod.fst) :
    (s.receive pkt).heap a = s.heap a := by
  have hNone : pkt.lookup a = none := by
    rw [List.lookup_eq_none_iff]
    intro x hx
    rw [bne_iff_ne]
    rintro rfl
    exact hNot (List.mem_map_of_mem hx)
  simp [receive, hNone]

/- Each snip of a received packet is in its place. -/
theorem receive_heap
    {x : Nat × ReassSnip} (hNodup : (pkt.map Prod.fst).Nodup) (hx : x ∈ pkt) :
    (s.receive pkt).heap x.1 = some x.2 := by
  have hLookup : pkt.lookup x.1 = some x.2 := by
    induction pkt with
    | nil => cases hx
    | cons y pkt ih =>
      rw [List.map_cons, List.nodup_cons] at hNodup
      rcases List.mem_cons.mp hx with rfl | hx
      · rw [List.lookup_cons_self]
      · have hNe : x.1 ≠ y.1 := by
          intro hEq
          apply hNodup.1
          rw [← hEq]
          exact List.mem_map_of_mem hx
        rw [List.lookup_cons, beq_false_of_ne hNe]
        exact ih hNodup.2 hx
  simp [receive, hLookup]

theorem Safe.receive
    (h : s.Safe []) (hNodup : (pkt.map Prod.fst).Nodup)
    (hDead : ∀ a ∈ pkt.map Prod.fst, s.heap a = none) :
    (s.receive pkt).Safe (pkt.map Prod.fst) := by
  have hApart : ∀ a ∈ pkt.map Prod.fst, ∀ j, a ∉ (s.rbuf j).pkt := by
    intro a ha j hIn
    have hLive := h.live j a hIn
    rw [hDead a ha] at hLive
    cases hLive
  apply h.keep
  · exact fun _ => rfl
  · exact fun _ => rfl
  · exact fun _ hNone => hNone
  · intro j a ha
    apply receive_heap_of_notMem
    exact fun hIn => hApart a hIn j ha
  · intro a ha
    refine ⟨?_, hApart a ha⟩
    rcases List.mem_map.mp ha with ⟨x, hx, rfl⟩
    rw [receive_heap hNodup hx]
    rfl
  · exact hNodup
  · rfl

theorem pktbufMark_eq
    (hMark : s.pktbufMark env p = some (s', fh)) :
    env.markSnip = some fh ∧ s' = (s.setSnip fh
          ⟨.ipv6Ext, (s.snip env p).data.take sizeofIpv6ExtFrag⟩).modifySnip
        p (fun q =>
          { q with
            data := q.data.drop sizeofIpv6ExtFrag }) := by
  unfold pktbufMark at hMark
  split at hMark
  · cases hMark
  · rcases Option.map_eq_some_iff.mp hMark with ⟨a, ha, hPair⟩
    cases hPair
    exact ⟨ha, rfl⟩

theorem Safe.mark
    (h : s.Safe (p :: hdrs)) (hDead : s.heap fh = none)
    (hMark : s.pktbufMark env p = some (s', fh)) :
    s'.Safe (p :: fh :: hdrs) := by
  rcases pktbufMark_eq hMark with ⟨_, rfl⟩
  have hLive : ∀ a ∈ p :: hdrs, a ≠ fh := by
    rintro a ha rfl
    have hSome := h.mineLive a ha
    rw [hDead] at hSome
    cases hSome
  have hOld : ∀ a, a ≠ fh → a ≠ p → ((s.setSnip fh
            ⟨.ipv6Ext, (s.snip env p).data.take sizeofIpv6ExtFrag⟩).modifySnip
          p (fun q =>
            { q with data := q.data.drop sizeofIpv6ExtFrag })).heap a =
          s.heap a := by
    intro a hFh hp
    rw [modifySnip_heap, Function.update_of_ne hp, setSnip_heap, Function.update_of_ne hFh]
  have hp : fh ≠ p := (hLive p (by simp)).symm
  have hNodup := List.nodup_cons.mp h.mineNodup
  apply h.keep
  · exact fun _ => rfl
  · exact fun _ => rfl
  · exact fun _ hNone => hNone
  · intro j a ha
    apply hOld
    · rintro rfl
      have hSome := h.live j a ha
      rw [hDead] at hSome
      cases hSome
    · rintro rfl
      exact h.mineApart j a (by simp) ha
  · intro a ha
    simp only [List.mem_cons] at ha
    rcases ha with rfl | rfl | ha
    · refine ⟨?_, fun j => h.mineApart j a (by simp)⟩
      rw [modifySnip_heap, Function.update_self, setSnip_heap, Function.update_of_ne hp.symm,
        Option.isSome_map]
      exact h.mineLive a (by simp)
    · refine ⟨?_, fun j hIn => ?_⟩
      · rw [modifySnip_heap, Function.update_of_ne hp, setSnip_heap, Function.update_self]
        rfl
      · have hSome := h.live j a hIn
        rw [hDead] at hSome
        cases hSome
    · have hIn : a ∈ p :: hdrs := by
        simp [ha]
      refine ⟨?_, fun j => h.mineApart j a hIn⟩
      rw [hOld a (hLive a hIn) (fun hEq => hNodup.1 (hEq ▸ ha))]
      exact h.mineLive a hIn
  · have hFh : fh ∉ hdrs := by
      intro hIn
      exact hLive fh (by simp [hIn]) rfl
    simp only [List.nodup_cons, List.mem_cons, not_or]
    exact ⟨⟨hp.symm, hNodup.1⟩, hFh, hNodup.2⟩
  · rfl

/- One call, from a packet that is in memory. -/
theorem Safe.reass
    (h : s.Safe (p :: hdrs))
    (hDead : ∀ a ∈ env.markSnip.toList ++ env.addSnip.toList, s.heap a = none)
    (hNe : (env.markSnip.toList ++ env.addSnip.toList).Nodup)
    (hApart : ∀ s' fhSnip, s.pktbufMark env p = some (s', fhSnip) →
        EndFits cfg (extFragGetOffset (s'.snip env fhSnip).data + (s'.snip env p).size) ∧
        (extFragGetOffset (s'.snip env fhSnip).data = 0 →
          extFragMore (s'.snip env fhSnip).data = true →
          ∀ ipv6 ∈ s'.pktsnipSearchType env (p :: fhSnip :: hdrs) .ipv6,
            ∀ i ∈ s'.rbufOf cfg env ipv6
                (fragId (s'.snip env fhSnip).data), ∀ cur ∈ (s'.rbuf i).limits,
                cur.overlap (fragLimits cfg 0 (s'.snip env p).size) = false))
    (hStep : s.gnrcIpv6ExtFragReass cfg env (p :: hdrs) = some r) :
    (r.1.pktbufRelease r.2).Safe [] := by
  unfold gnrcIpv6ExtFragReass at hStep
  dsimp only at hStep
  cases hMark : s.pktbufMark env p with
  | none =>
    rw [hMark] at hStep
    cases hStep
    apply h.releaseAll.release
    · simp
    · simp
    · exact List.nodup_nil
  | some m =>
    rcases m with ⟨s₁, fhSnip⟩
    rw [hMark] at hStep
    dsimp only at hStep
    rcases pktbufMark_eq hMark with ⟨hSnip, hMarked⟩
    have hFh : s.heap fhSnip = none := by
      apply hDead
      simp [hSnip]
    have hAdd : ∀ a ∈ env.addSnip, s₁.heap a = none := by
      intro a ha
      have hOld : s.heap a = none := by
        apply hDead
        simp [Option.mem_def.mp ha]
      have hne : a ≠ fhSnip := by
        rintro rfl
        rw [hSnip, Option.mem_def.mp ha] at hNe
        simp at hNe
      have hnp : a ≠ p := by
        rintro rfl
        have hSome := h.mineLive a (by simp)
        rw [hOld] at hSome
        cases hSome
      rw [hMarked, modifySnip_heap, Function.update_of_ne hnp, setSnip_heap,
        Function.update_of_ne hne, hOld]
    have hSafe := h.mark hFh hMark
    rcases Option.bind_eq_some_iff.mp hStep with ⟨ipv6, hSearch, hStep⟩
    rcases Option.bind_eq_some_iff.mp hStep with ⟨⟨s₂, res⟩, hGet, hStep⟩
    rcases hSafe.rbufGet hGet with ⟨hSafe₂, hMine, hNone, hReady⟩
    cases res with
    | none =>
      cases hStep
      apply hSafe₂.releaseAll.release
      · simp
      · simp
      · exact List.nodup_nil
    | some i =>
      dsimp only at hStep
      have hSame : ∀ a ∈ p :: fhSnip :: hdrs, s₂.snip env a = s₁.snip env a := by
        intro a ha
        rw [ExtReass.snip, hMine a ha]
        rfl
      have hp := hSame p (by simp)
      have hf := hSame fhSnip (by simp)
      rcases hApart s₁ fhSnip hMark with ⟨hEnd, hFirst⟩
      refine hSafe₂.reassInto ?_ (hReady i rfl) ?_ ?_ hStep
      · exact fun a ha => hNone a (hAdd a ha)
      · rw [hp, hf]
        exact hEnd
      · rw [hp, hf]
        exact fun hZero hMore =>
          hFirst hZero hMore ipv6 hSearch

end

end ExtReass

end

----
-- Every Run
----

theorem ExtReass.safe_init
    (cfg : ExtReassConfig) :
    (ExtReass.init cfg).Safe [] where
  live := by simp [ExtReass.init, ExtFragRbuf.init]
  nodup := by simp [ExtReass.init, ExtFragRbuf.init]
  apart := by simp [ExtReass.init, ExtFragRbuf.init]
  mineLive := by simp
  mineNodup := List.nodup_nil
  mineApart := by simp
  fits := fun _ => ExtReass.fits_of_empty rfl rfl
  copiesFit := by simp [ExtReass.CopiesFit, ExtReass.init]

theorem ExtReass.Safe.step_event
    {cfg : ExtReassConfig} {s s' : ExtReass} {e : ReassEvent} (h : s.Safe [])
    (hOk : FirstApart cfg s e) (hPossible : e.Possible s)
    (hStep : reassStep cfg s e = some s') :
    s'.Safe [] := by
  cases e with
  | gc now =>
    cases hStep
    exact h.rbufGc now
  | recv pkt env =>
    rcases Option.map_eq_some_iff.mp hStep with ⟨r, hReass, rfl⟩
    rcases hPossible with ⟨hNodup, hDead⟩
    cases pkt with
    | nil => cases hReass
    | cons x hdrs =>
      rcases x with ⟨p, snip⟩
      have hAppend := List.nodup_append.mp hNodup
      have hSafe := h.receive hAppend.1 (fun a ha => hDead a (List.mem_append_left _ ha))
      refine hSafe.reass ?_ hAppend.2.1 ?_ hReass
      · intro a ha
        rw [receive_heap_of_notMem]
        · exact hDead a (List.mem_append_right _ ha)
        · exact fun hOld =>
            hAppend.2.2 a hOld a ha rfl
      · intro s₁ fhSnip hMark
        exact hOk (s₁, fhSnip) hMark

/-
  The claim on copies: in every run in which first fragments
  overlap no limits that are stored, each range that is copied
  to lies in its packet.
-/
theorem reassCopies_inBounds
    {cfg : ExtReassConfig} {s : ExtReass}
    (hReach : (reassSystem cfg).ReachableVia (FirstApart cfg) s) :
    s.CopiesFit := by
  have hSafe : s.Safe [] := by
    apply hReach.invariant (I := fun s => s.Safe [])
    · rintro s rfl
      exact ExtReass.safe_init cfg
    · intro s e s' hSafe hOk hPossible hStep
      exact hSafe.step_event hOk hPossible hStep
  exact hSafe.copiesFit

/- An IPv6 header between two fixed addresses. -/
def sampleIpv6
    (nh : UInt8) (len : UInt16) : List UInt8 :=
  0x60 :: 0 :: 0 :: 0 :: (len >>> 8).toUInt8 ::
    len.toUInt8 :: nh :: 64 :: (List.replicate 16 1 ++ List.replicate 16 2)

/- A fragment of packet 7 at the addresses from `base` on. -/
def sampleFragment
    (base : Nat) (offset : UInt16) (more : Bool)
    (payload : List UInt8) : List (Nat × ReassSnip) :=
  [(base, ⟨.undef, fragHdrData 59 offset more 7 ++ payload⟩),
    (base + 1, ⟨.ipv6, sampleIpv6 44 (UInt16.ofNat (8 + payload.length))⟩)]

/- There is memory, at the addresses behind a fragment. -/
def sampleReassEnv
    (base : Nat) : ReassEnv where
  now := 0
  markSnip := some (base + 2)
  addSnip := some (base + 3)
  realloc := true
  fill _ := 0
  stale _ := ⟨.other, []⟩

def sampleReassConfig : ExtReassConfig :=
  ⟨1, 2, false, 10000000, 32⟩

/- The second eight bytes arrive before the first ones. -/
theorem reassCopies_inBounds_twoFragments :
    ∃ s, (reassSystem sampleReassConfig).ReachableVia
        (FirstApart sampleReassConfig) s ∧ s.copies.length = 2 ∧ s.CopiesFit := by
  exact System.exists_reachableVia
    [.recv (sampleFragment 0 8 true (List.replicate 8 3)) (sampleReassEnv 0),
      .recv (sampleFragment 4 0 true (List.replicate 8 4)) (sampleReassEnv 4)]
    rfl (by decide +kernel) (fun _ => reassCopies_inBounds)

/-
  A first fragment of 24 bytes overlaps the second eight bytes,
  and is copied to a packet of 16 bytes.
-/
theorem not_reassCopies_overlap :
    ¬ ∀ s, (reassSystem sampleReassConfig).Reachable s → s.CopiesFit := by
  have hRun :
      ((reassSystem sampleReassConfig).runVia
        (fun _ _ => True)
        (ExtReass.init sampleReassConfig)
        [.recv (sampleFragment 0 8 true
            (List.replicate 8 3)) (sampleReassEnv 0),
          .recv (sampleFragment 4 0 true (List.replicate 24 4)) (sampleReassEnv 4)]).any
        (fun s => decide (¬ s.CopiesFit)) = true := by
    decide +kernel
  rcases System.exists_reachableVia_of_runVia rfl hRun with ⟨s, _, hReach, hNot⟩
  exact fun hAll => hNot (hAll s hReach)

end Riot
