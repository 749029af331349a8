import Riot.Lib.ByteBuffer
import Riot.Net.Ipv6ExtFrag
import Mathlib.Data.List.Sort

/-
  Reassembly of IPv6 packets from their fragments.

  Snips are named by their addresses, and a chain of snips is
  the list of the addresses, where the empty list is NULL. A
  pointer to a header may outlive the header; what is read
  through it then is left to the environment. The result
  `none` says that an assertion fails or that NULL is
  dereferenced. Stores behind the end of a snip are left out,
  but every copy is recorded.
-/

open ByteBuffer

----
-- Snips and Entries
----

namespace Riot

structure ReassSnip where
  type : SnipType
  data : List UInt8
deriving DecidableEq, Repr

def ReassSnip.size
    (snip : ReassSnip) : Nat :=
  snip.data.length

/- The part of a fragment, in units of eight bytes. -/
structure FragLimits where
  start : Nat
  stop : Nat
deriving DecidableEq, Repr

structure ExtFragRbuf where
  pkt : List Nat
  ipv6 : Option Nat
  limits : List FragLimits
  id : UInt32
  arrival : UInt32
  pktLen : UInt16
  last : UInt8
deriving DecidableEq, Repr

def ExtFragRbuf.init : ExtFragRbuf :=
  ⟨[], none, [], 0, 0, 0, 0⟩

/- A copy of `len` bytes to `offset` in a snip of `size`. -/
structure RbufCopy where
  offset : Nat
  len : Nat
  size : Nat
deriving DecidableEq, Repr

structure ExtReass where
  heap : Nat → Option ReassSnip
  rbuf : Nat → ExtFragRbuf
  freeLimits : Nat
  copies : List RbufCopy

structure ExtReassConfig where
  rbufSize : Nat
  limitsPoolSize : Nat
  doNotOverride : Bool
  timeoutUs : UInt32
  -- the width of the types `unsigned` and `size_t`
  width : Nat

def ExtReass.init
    (cfg : ExtReassConfig) : ExtReass :=
  ⟨fun _ => none, fun _ => ExtFragRbuf.init, cfg.limitsPoolSize, []⟩

/- What the code around a call decides. -/
structure ReassEnv where
  now : UInt32
  -- the addresses of new snips, if there is memory for them
  markSnip : Option Nat
  addSnip : Option Nat
  realloc : Bool
  -- the content of new memory and of released snips
  fill : Nat → UInt8
  stale : Nat → ReassSnip

inductive LimitsRes where
  | limitsNew
  | limitsDuplicate
  | limitsOverlap
  | limitsFull
deriving DecidableEq, Repr

----
-- Headers
----

def ipv6Src
    (ipv6 : List UInt8) : List UInt8 :=
  (ipv6.drop 8).take 16

def ipv6Dst
    (ipv6 : List UInt8) : List UInt8 :=
  (ipv6.drop 24).take 16

def ipv6Len
    (ipv6 : List UInt8) : UInt16 :=
  UInt16.ofNat (fromNetwork [ipv6.getD 4 0, ipv6.getD 5 0])

def setIpv6Len
    (ipv6 : List UInt8) (len : UInt16) : List UInt8 :=
  (ipv6.set 4 (len >>> 8).toUInt8).set 5 len.toUInt8

def fragNh
    (fh : List UInt8) : UInt8 :=
  fh.getD 0 0

def fragOffsetFlags
    (fh : List UInt8) : Nat :=
  fromNetwork [fh.getD 2 0, fh.getD 3 0]

def extFragGetOffset
    (fh : List UInt8) : Nat :=
  fragOffsetFlags fh &&& 0xfff8

def extFragMore
    (fh : List UInt8) : Bool :=
  fragOffsetFlags fh &&& 1 != 0

def fragId
    (fh : List UInt8) : UInt32 :=
  UInt32.ofNat (fromNetwork [fh.getD 4 0, fh.getD 5 0, fh.getD 6 0, fh.getD 7 0])

def sizeofIpv6ExtFrag : Nat := 8

----
-- The Packet Buffer
----

namespace ExtReass

variable (cfg : ExtReassConfig) (env : ReassEnv) (s : ExtReass)

/- What is read at an address. -/
def snip
    (a : Nat) : ReassSnip :=
  (s.heap a).getD (env.stale a)

def setSnip
    (a : Nat) (snip : ReassSnip) : ExtReass :=
  { s with heap := Function.update s.heap a (some snip) }

/- Writing to a released snip changes no other snip. -/
def modifySnip
    (a : Nat) (f : ReassSnip → ReassSnip) : ExtReass :=
  { s with heap := Function.update s.heap a ((s.heap a).map f) }

def setRbuf
    (i : Nat) (b : ExtFragRbuf) : ExtReass :=
  { s with rbuf := Function.update s.rbuf i b }

def pktbufRelease
    (pkt : List Nat) : ExtReass :=
  { s with
    heap := fun a => if a ∈ pkt then none else s.heap a }

/- Split the fragment header off a packet. -/
def pktbufMark
    (p : Nat) : Option (ExtReass × Nat) :=
  if (s.snip env p).size < sizeofIpv6ExtFrag then
    none
  else
    env.markSnip.map (fun fh =>
      ((s.setSnip fh
          ⟨.ipv6Ext, (s.snip env p).data.take sizeofIpv6ExtFrag⟩).modifySnip
        p (fun q =>
          { q with data := q.data.drop sizeofIpv6ExtFrag }),
        fh))

/- New bytes behind the `n` bytes of a snip, up to `size`. -/
def newBytes
    (n size : Nat) : List UInt8 :=
  (List.range' n (size - n)).map env.fill

def growSnip
    (size : Nat) (snip : ReassSnip) : ReassSnip :=
  { snip with data := snip.data ++ newBytes env snip.size size }

def storeInSnip
    (offset : Nat) (bytes : List UInt8) (snip : ReassSnip) : ReassSnip :=
  { snip with data := (writeBytes snip.data offset bytes).getD snip.data }

/- Copy to the first snip of the packet of an entry. -/
def copyToRbuf
    (i offset : Nat) (bytes : List UInt8) : ExtReass :=
  match (s.rbuf i).pkt with
  | [] => s
  | q :: _ =>
    { s.modifySnip q (storeInSnip offset bytes) with
      copies := ⟨offset, bytes.length, (s.snip env q).size⟩ :: s.copies }

def setNh
    (a : Nat) (nh : UInt8) : Option ExtReass :=
  match (s.snip env a).type with
  | .ipv6 =>
    some (s.modifySnip a (fun q =>
      { q with data := q.data.set 6 nh }))
  | .ipv6Ext =>
    some (s.modifySnip a (fun q =>
      { q with data := q.data.set 0 nh }))
  | _ => none

----
-- Entries
----

def initRbuf
    (i ipv6 : Nat) (id : UInt32) : ExtReass :=
  s.setRbuf i { s.rbuf i with ipv6 := some ipv6, id := id, pktLen := 0, last := 0 }

def gnrcIpv6ExtFragRbufFree
    (i : Nat) : ExtReass :=
  { s.setRbuf i { s.rbuf i with ipv6 := none, limits := [] } with
    freeLimits := s.freeLimits + (s.rbuf i).limits.length }

def gnrcIpv6ExtFragRbufDel
    (i : Nat) : ExtReass :=
  let s := s.pktbufRelease (s.rbuf i).pkt
  let s := s.setRbuf i { s.rbuf i with pkt := [] }
  s.gnrcIpv6ExtFragRbufFree i

/- An entry in use for the same datagram as a fragment. -/
def rbufMatches
    (ipv6 : Nat) (id : UInt32) (i : Nat) : Bool :=
  match (s.rbuf i).ipv6 with
  | none => false
  | some a =>
    (s.rbuf i).id == id &&
      ipv6Src (s.snip env a).data == ipv6Src (s.snip env ipv6).data &&
      ipv6Dst (s.snip env a).data == ipv6Dst (s.snip env ipv6).data

def olderRbuf
    (oldest : Option Nat) (i : Nat) : Option Nat :=
  match oldest with
  | none => some i
  | some o =>
    if (s.rbuf i).arrival - (s.rbuf o).arrival <
        0x7fffffff then
      some i
    else
      some o

inductive RbufScan where
  | found (i : Nat)
  | missed (res oldest : Option Nat)

/- The first free entry is taken before the scan ends. -/
def rbufScan
    (ipv6 : Nat) (id : UInt32) :
    List Nat → Option Nat → Option Nat → ExtReass → ExtReass × RbufScan
| [], res, oldest, s => (s, .missed res oldest)
| i :: is, res, oldest, s =>
  if s.rbufMatches env ipv6 id i then
    (s, .found i)
  else
    let free := (s.rbuf i).ipv6.isNone && res.isNone
    let s := if free then s.initRbuf i ipv6 id else s
    rbufScan ipv6 id is (if free then some i else res) (s.olderRbuf oldest i) s

def gnrcIpv6ExtFragRbufGet
    (ipv6 : Nat) (id : UInt32) : Option (ExtReass × Option Nat) :=
  match rbufScan env ipv6 id (List.range cfg.rbufSize)
      none none s with
  | (s, .found i) => some (s, some i)
  | (s, .missed (some i) _) => some (s, some i)
  | (s, .missed none oldest) =>
    if cfg.doNotOverride then
      some (s, none)
    else
      oldest.map (fun o =>
        ((s.gnrcIpv6ExtFragRbufDel o).initRbuf o ipv6 id, some o))

def gnrcIpv6ExtFragRbufGc
    (now : UInt32) : ExtReass :=
  (List.range cfg.rbufSize).foldl
    (fun s i =>
      if cfg.timeoutUs < now - (s.rbuf i).arrival then
        s.gnrcIpv6ExtFragRbufDel i
      else
        s) s

----
-- Limits
----

end ExtReass

def FragLimits.overlap
    (cur limits : FragLimits) : Bool :=
  cur.start < limits.stop && limits.start < cur.stop

/- Numbers of type `unsigned`, stored in 16 bits. -/
def fragLimits
    (cfg : ExtReassConfig) (offset len : Nat) : FragLimits :=
  let start := offset / 8 % 2 ^ 16
  let stop := (offset + len) % 2 ^ cfg.width / 8 % 2 ^ 16
  if start = stop then
    ⟨start, (stop + 1) % 2 ^ 16⟩
  else
    ⟨start, stop⟩

def sortLimits
    (limits : List FragLimits) : List FragLimits :=
  limits.insertionSort (fun a b => a.start ≤ b.start)

namespace ExtReass

variable (cfg : ExtReassConfig) (env : ReassEnv) (s : ExtReass)

def addLimits
    (i : Nat) (limits : FragLimits) : ExtReass :=
  { s.setRbuf i { s.rbuf i with limits := sortLimits ((s.rbuf i).limits ++ [limits]) } with
    freeLimits := s.freeLimits - 1 }

/- Limits that overlap others are reported as new. -/
def overlaps
    (i offset len : Nat) : ExtReass × LimitsRes :=
  let limits := fragLimits cfg offset len
  match (s.rbuf i).limits.find? (fun cur =>
      cur.overlap limits) with
  | none =>
    if s.freeLimits = 0 then
      (s, .limitsFull)
    else
      (s.addLimits i limits, .limitsNew)
  | some cur =>
    if cur = limits then
      (s, .limitsDuplicate)
    else
      (s, .limitsNew)

/- Whether no gap follows, up to the last limits. -/
def completedFrom :
    FragLimits → List FragLimits → Bool
| _, [] => true
| ptr, next :: rest =>
  if ptr.stop < next.start then
    false
  else
    completedFrom next rest

/- Write the length and free the entry. -/
def handOver
    (i ipv6 : Nat) : ExtReass :=
  let s := s.modifySnip ipv6 (fun q =>
    { q with data := setIpv6Len q.data (s.rbuf i).pktLen })
  let s := s.setRbuf i { s.rbuf i with pkt := [] }
  s.gnrcIpv6ExtFragRbufFree i

def takePkt
    (i : Nat) : Option (ExtReass × List Nat) :=
  (s.rbuf i).ipv6.map (fun ipv6 =>
    (s.handOver i ipv6, (s.rbuf i).pkt))

/- In a circular list a single node follows itself. -/
def nextLimits
    (ptr : FragLimits) (rest : List FragLimits) : List FragLimits :=
  if rest.isEmpty then [ptr] else rest

def completed
    (i : Nat) : Option (ExtReass × List Nat) :=
  match (s.rbuf i).limits with
  | [] => none
  | ptr :: rest =>
    if (s.rbuf i).last ≠ 0 ∧ ptr.start = 0 ∧
        completedFrom ptr (nextLimits ptr rest) = true then
      s.takePkt i
    else
      some (s, [])

----
-- Reassembly
----

/- Delete the entry and drop the packet. -/
def errorExit
    (i : Nat) (pkt : List Nat) : Option (ExtReass × List Nat) :=
  some ((s.gnrcIpv6ExtFragRbufDel i).pktbufRelease pkt, [])

/- Space for `size` bytes in the packet of an entry. -/
def reassSpace
    (i : Nat) (hdrs : List Nat) (size : Nat) : Option ExtReass :=
  match (s.rbuf i).pkt with
  | [] =>
    env.addSnip.map (fun a =>
      (s.setSnip a ⟨.undef, newBytes env 0 size⟩).setRbuf i { s.rbuf i with pkt := a :: hdrs })
  | q :: _ =>
    if (s.snip env q).size < size then
      if env.realloc then
        some (s.modifySnip q (growSnip env size))
      else
        none
    else
      some s

/- Copy the data to its place and drop the fragment. -/
def reassStore
    (i p fhSnip : Nat) (hdrs : List Nat) (offset size : Nat)
    (bytes : List UInt8) : Option (ExtReass × List Nat) :=
  match s.reassSpace env i hdrs size with
  | none => s.errorExit i (p :: fhSnip :: hdrs)
  | some s =>
    let s := s.copyToRbuf env i offset bytes
    -- whether the entry has just been given these headers
    let s :=
      if (s.rbuf i).pkt.tail.head? = hdrs.head? then
        s.pktbufRelease [fhSnip, p]
      else
        s.pktbufRelease (p :: fhSnip :: hdrs)
    s.completed i

def reassSubsequent
    (i p fhSnip : Nat) (hdrs : List Nat) (offset : Nat)
    (more : Bool) : Option (ExtReass × List Nat) :=
  let bytes := (s.snip env p).data
  let sizeUntil := (offset + bytes.length) % 2 ^ cfg.width
  if more ∧ bytes.length % 8 ≠ 0 then
    s.errorExit i (p :: fhSnip :: hdrs)
  else
    let s :=
      if more then s
      else
        s.setRbuf i { s.rbuf i with
          last := (s.rbuf i).last + 1
          pktLen := (s.rbuf i).pktLen + UInt16.ofNat sizeUntil }
    s.reassStore env i p fhSnip hdrs offset sizeUntil bytes

/- A first fragment with no others. -/
def reassAtomic
    (i p fhSnip ipv6 : Nat) (hdrs : List Nat) (nh : UInt8) : Option (ExtReass × List Nat) :=
  (hdrs.head?.bind (fun hdr => s.setNh env hdr nh)).map
    (fun s =>
      let s := s.pktbufRelease [fhSnip]
      let s := s.gnrcIpv6ExtFragRbufDel i
      let s := s.modifySnip ipv6 (fun q =>
        { q with data := setIpv6Len q.data (ipv6Len q.data - 8) })
      (s, p :: hdrs))

/- Put the headers of the first fragment in place. -/
def reassStoreFirst
    (i p ipv6 : Nat) (hdrs : List Nat) (snip : ReassSnip) : Option (ExtReass × List Nat) :=
  match (s.rbuf i).pkt with
  | [] => some (s.setRbuf i { s.rbuf i with pkt := p :: hdrs }, [])
  | q :: _ =>
    let s := s.copyToRbuf env i 0 snip.data
    let s := s.modifySnip q (fun q =>
      { q with type := snip.type })
    let s := s.pktbufRelease [p]
    let s := s.setRbuf i { s.rbuf i with pkt := q :: hdrs, ipv6 := some ipv6 }
    s.completed i

def reassFirst
    (i p fhSnip ipv6 : Nat) (hdrs : List Nat) (nh : UInt8) : Option (ExtReass × List Nat) :=
  let snip := s.snip env p
  let len := ipv6Len (s.snip env ipv6).data
  if snip.size % 8 ≠ 0 then
    s.errorExit i (p :: fhSnip :: hdrs)
  else
    (hdrs.head?.bind (fun hdr => s.setNh env hdr nh)).bind
      (fun s =>
        let s := s.pktbufRelease [fhSnip]
        let s := s.setRbuf i { s.rbuf i with
          pktLen := (s.rbuf i).pktLen + (len - UInt16.ofNat snip.size - 8) }
        s.reassStoreFirst env i p ipv6 hdrs snip)

/- Store the fragment, once its entry is known. -/
def reassInto
    (i p fhSnip ipv6 : Nat) (hdrs : List Nat) : Option (ExtReass × List Nat) :=
  let s := s.setRbuf i { s.rbuf i with arrival := env.now }
  let fh := (s.snip env fhSnip).data
  let offset := extFragGetOffset fh
  match s.overlaps cfg i offset (s.snip env p).size with
  | (s, .limitsDuplicate) => some (s.pktbufRelease (p :: fhSnip :: hdrs), [])
  | (s, .limitsOverlap) => s.errorExit i (p :: fhSnip :: hdrs)
  | (s, .limitsFull) => s.errorExit i (p :: fhSnip :: hdrs)
  | (s, .limitsNew) =>
    if 0 < offset then
      s.reassSubsequent cfg env i p fhSnip hdrs offset (extFragMore fh)
    else if extFragMore fh = false then
      s.reassAtomic env i p fhSnip ipv6 hdrs (fragNh fh)
    else
      s.reassFirst env i p fhSnip ipv6 hdrs (fragNh fh)

/- The first snip of a type in a chain. -/
def pktsnipSearchType
    (pkt : List Nat) (type : SnipType) : Option Nat :=
  pkt.find? (fun a => (s.snip env a).type = type)

/- The packet that is complete, or else NULL. -/
def gnrcIpv6ExtFragReass
    (pkt : List Nat) : Option (ExtReass × List Nat) :=
  match pkt with
  | [] => none
  | p :: hdrs =>
    match s.pktbufMark env p with
    | none => some (s.pktbufRelease (p :: hdrs), [])
    | some (s, fhSnip) =>
      let fh := (s.snip env fhSnip).data
      (s.pktsnipSearchType env (p :: fhSnip :: hdrs)
        .ipv6).bind (fun ipv6 =>
          (s.gnrcIpv6ExtFragRbufGet cfg env ipv6
            (fragId fh)).bind
            (fun r =>
              match r with
              | (s, none) => some (s.pktbufRelease (p :: fhSnip :: hdrs), [])
              | (s, some i) => s.reassInto cfg env i p fhSnip ipv6 hdrs))

----
-- What Each Operation Changes
----

section

variable {cfg : ExtReassConfig} {env : ReassEnv} {s : ExtReass} {a i : Nat} {pkt : List Nat}

@[simp]
theorem setSnip_heap
    {snip : ReassSnip} :
    (s.setSnip a snip).heap = Function.update s.heap a (some snip) :=
  rfl

@[simp]
theorem modifySnip_rbuf
    {f : ReassSnip → ReassSnip} :
    (s.modifySnip a f).rbuf = s.rbuf :=
  rfl

@[simp]
theorem modifySnip_heap
    {f : ReassSnip → ReassSnip} :
    (s.modifySnip a f).heap = Function.update s.heap a ((s.heap a).map f) :=
  rfl

@[simp]
theorem setRbuf_rbuf
    {b : ExtFragRbuf} :
    (s.setRbuf i b).rbuf = Function.update s.rbuf i b :=
  rfl

@[simp]
theorem setRbuf_heap
    {b : ExtFragRbuf} :
    (s.setRbuf i b).heap = s.heap :=
  rfl

@[simp]
theorem pktbufRelease_rbuf :
    (s.pktbufRelease pkt).rbuf = s.rbuf :=
  rfl

theorem pktbufRelease_heap_of_notMem
    (hNot : a ∉ pkt) :
    (s.pktbufRelease pkt).heap a = s.heap a :=
  if_neg hNot

@[simp]
theorem initRbuf_heap
    {ipv6 : Nat} {id : UInt32} :
    (s.initRbuf i ipv6 id).heap = s.heap :=
  rfl

@[simp]
theorem rbufDel_rbuf :
    (s.gnrcIpv6ExtFragRbufDel i).rbuf = Function.update s.rbuf i { s.rbuf i with
        pkt := []
        ipv6 := none
        limits := [] } := by
  simp [gnrcIpv6ExtFragRbufDel, gnrcIpv6ExtFragRbufFree]

@[simp]
theorem rbufDel_heap :
    (s.gnrcIpv6ExtFragRbufDel i).heap = (s.pktbufRelease (s.rbuf i).pkt).heap :=
  rfl

@[simp]
theorem addLimits_rbuf
    {limits : FragLimits} :
    (s.addLimits i limits).rbuf = Function.update s.rbuf i { s.rbuf i with
        limits := sortLimits ((s.rbuf i).limits ++ [limits]) } :=
  rfl

theorem copyToRbuf_eq
    {q offset : Nat} {hs : List Nat} {bytes : List UInt8}
    (hPkt : (s.rbuf i).pkt = q :: hs) :
    s.copyToRbuf env i offset bytes = { s.modifySnip q (storeInSnip offset bytes) with
        copies := ⟨offset, bytes.length, (s.snip env q).size⟩ :: s.copies } := by
  simp only [copyToRbuf, hPkt]

@[simp]
theorem copyToRbuf_rbuf
    {offset : Nat} {bytes : List UInt8} :
    (s.copyToRbuf env i offset bytes).rbuf = s.rbuf := by
  unfold copyToRbuf
  split <;> rfl

theorem snip_of_heap
    {snip : ReassSnip} (hHeap : s.heap a = some snip) :
    s.snip env a = snip := by
  rw [ExtReass.snip, hHeap]
  rfl

theorem length_newBytes
    (n size : Nat) :
    (newBytes env n size).length = size - n := by
  simp [newBytes]

theorem size_growSnip
    {size : Nat} {snip : ReassSnip} (hSize : snip.size ≤ size) :
    (growSnip env size snip).size = size := by
  simp only [growSnip, ReassSnip.size, List.length_append, length_newBytes]
  unfold ReassSnip.size at hSize
  omega

theorem size_le_growSnip
    (size : Nat) (snip : ReassSnip) :
    snip.size ≤ (growSnip env size snip).size := by
  simp [growSnip, ReassSnip.size]

theorem size_storeInSnip
    (offset : Nat) (bytes : List UInt8) (snip : ReassSnip) :
    (storeInSnip offset bytes snip).size = snip.size := by
  unfold storeInSnip ReassSnip.size
  by_cases hFits : offset + bytes.length ≤ snip.data.length
  · rcases length_writeBytes snip.data bytes offset hFits with ⟨buf, hWrite, hLen⟩
    simp [hWrite, hLen]
  · simp [writeBytes, hFits]

/- The ways in which the check of the limits may end. -/
theorem overlaps_cases
    (cfg : ExtReassConfig) (s : ExtReass) (i offset len : Nat) :
    s.overlaps cfg i offset len = (s, .limitsFull) ∨
    s.overlaps cfg i offset len = (s, .limitsDuplicate) ∨
    (s.overlaps cfg i offset len = (s, .limitsNew) ∧
      ∃ cur ∈ (s.rbuf i).limits, cur.overlap (fragLimits cfg offset len) = true) ∨
    (s.overlaps cfg i offset len = (s.addLimits i (fragLimits cfg offset len), .limitsNew) ∧
      ∀ cur ∈ (s.rbuf i).limits, cur.overlap (fragLimits cfg offset len) = false) := by
  cases hFind : (s.rbuf i).limits.find? (fun cur =>
      cur.overlap (fragLimits cfg offset len)) with
  | none =>
    have hApart : ∀ cur ∈ (s.rbuf i).limits, cur.overlap (fragLimits cfg offset len) = false := by
      intro cur hCur
      simpa using List.find?_eq_none.mp hFind cur hCur
    by_cases hFull : s.freeLimits = 0
    · left
      simp only [overlaps, hFind, if_pos hFull]
    · refine Or.inr (Or.inr (Or.inr ⟨?_, hApart⟩))
      simp only [overlaps, hFind, if_neg hFull]
  | some cur =>
    by_cases hSame : cur = fragLimits cfg offset len
    · refine Or.inr (Or.inl ?_)
      simp only [overlaps, hFind, if_pos hSame]
    · have hMem := List.mem_of_find?_eq_some hFind
      have hOverlap := List.find?_some hFind
      refine Or.inr (Or.inr (Or.inl ⟨?_, cur, hMem, hOverlap⟩))
      simp only [overlaps, hFind, if_neg hSame]

end

end ExtReass

end Riot
