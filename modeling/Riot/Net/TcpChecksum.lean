import Riot.Sys.InetCsum

/-
  The checksum of TCP segments over IPv6, against the one of
  the contiguous segment.

  The payload is summed snip by snip, each one padded by
  itself, so a snip that begins at an odd offset counts with
  its bytes in the wrong halves of the words. The length is
  added with a single carry.
-/

----
-- Operations
----

namespace Riot

/- What is read of a snip. Its size is the number of bytes. -/
structure CsumSnip where
  next : Option Nat
  data : List UInt8

/- What is read of the snip of the network header. -/
structure CsumPseudoHdr where
  -- whether the type is GNRC_NETTYPE_IPV6
  ipv6 : Bool
  data : List UInt8

/- Sum the pseudo header of an IPv6 header. -/
def ipv6HdrInetCsum
    (sum : UInt16) (hdr : List UInt8) (protNum : UInt8) (len : UInt16) : Option UInt16 :=
  let sum :=
    if sum.toNat + len.toNat + protNum.toNat > 0xffff then
      sum + 1
    else
      sum
  -- the addresses stand behind each other
  inetCsum (UInt16.ofNat (sum.toNat + len.toNat + protNum.toNat)) (hdr.drop 8) 32

/- The loop over the payload, up to the header or the end. -/
def pktCalcPayload
    (mem : Nat → Option CsumSnip) (hdr : Nat) :
    Nat → Option Nat → UInt16 → UInt16 → Option (UInt16 × UInt16)
  | 0, _, _, _ => none
  | _ + 1, none, csum, len => some (csum, len)
  | fuel + 1, some payload, csum, len =>
    if payload = hdr then
      some (csum, len)
    else
      match mem payload with
      | none => none
      | some snip =>
        match inetCsum csum snip.data
            (UInt16.ofNat snip.data.length) with
        | none => none
        | some csum =>
          pktCalcPayload mem hdr fuel snip.next csum (len + UInt16.ofNat snip.data.length)

/- The protocol number of TCP. -/
def protnumTcp : UInt8 := 6

/- The checksum of a segment. -/
def pktCalcCsum
    (mem : Nat → Option CsumSnip) (fuel : Nat) (hdr : Nat) (pseudoHdr : Option CsumPseudoHdr)
    (payload : Option Nat) : Option UInt16 := do
  let tcp ← mem hdr
  match pseudoHdr with
  | none => some 0
  | some pseudoHdr =>
    let (csum, len) ← pktCalcPayload mem hdr fuel payload 0 (UInt16.ofNat tcp.data.length)
    -- the header before and behind its checksum field
    let csum ← inetCsum csum tcp.data 16
    let csum ← inetCsum csum (tcp.data.drop 18) (UInt16.ofNat (tcp.data.length - 18))
    if pseudoHdr.ipv6 then
      let csum ← ipv6HdrInetCsum csum pseudoHdr.data protnumTcp len
      return ~~~csum
    else
      return 0

----
-- The Contiguous Segment
----

open OnesComplement

/- The segment with a zero checksum field. -/
def tcpSegmentBytes
    (tcp payload : List UInt8) : List UInt8 :=
  tcp.take 16 ++ [0, 0] ++ tcp.drop 18 ++ payload

/- The addresses, the length and the protocol. -/
def pseudoBytes
    (ip : List UInt8) (len : Nat) : List UInt8 :=
  (ip.drop 8).take 32 ++ [0, 0, UInt8.ofNat (len / 256), UInt8.ofNat (len % 256)] ++
    [0, 0, 0, protnumTcp]

/- The checksum of a contiguous segment. -/
def tcpChecksum
    (ip tcp payload : List UInt8) : UInt16 :=
  ~~~(UInt16.ofNat
    (OnesComplement.sum 0
      (words (pseudoBytes ip (tcp.length + payload.length) ++ tcpSegmentBytes tcp payload))))

/-
  The snips from `payload` up to the header or the end hold
  the chunks.
-/
def PayloadChain
    (mem : Nat → Option CsumSnip)
    (hdr : Nat) : Option Nat → List (List UInt8) → Prop
  | payload, [] => payload = none ∨ payload = some hdr
  | payload, chunk :: chunks =>
    ∃ id next,
      payload = some id ∧ id ≠ hdr ∧ mem id = some ⟨next, chunk⟩ ∧ PayloadChain mem hdr next chunks

/- The bytes at even places less those at odd places. -/
def alternate : List UInt8 → Int
  | [] => 0
  | b :: bytes => b.toNat - alternate bytes

/-
  The alternating sums of the chunks that begin at an odd
  offset, the first chunk at offset `n`.
-/
def displaced : Nat → List (List UInt8) → Int
  | _, [] => 0
  | n, chunk :: chunks =>
    (if n % 2 = 0 then 0 else alternate chunk) + displaced (n + chunk.length) chunks

/- The weight of chunks that are padded one by one. -/
def weighEach
    (chunks : List (List UInt8)) : Nat :=
  (chunks.map (weigh 0)).sum

----
-- Displaced Bytes
----

variable {n : Nat} {bytes : List UInt8} {chunks : List (List UInt8)}

/- Moving bytes by one place. -/
theorem weigh_move
    (n : Nat) (bytes : List UInt8) :
    (weigh n bytes : Int) - weigh (n + 1) bytes = if n % 2 = 0 then 255 * alternate bytes
      else -(255 * alternate bytes) := by
  induction bytes generalizing n with
  | nil => simp [weigh, alternate]
  | cons b bytes ih =>
    have hRest := ih (n + 1)
    by_cases hEven : n % 2 = 0
    · have hOdd : ¬ (n + 1) % 2 = 0 := by omega
      rw [if_neg hOdd] at hRest
      rw [weigh, weigh, if_pos hEven, if_neg hOdd, if_pos hEven, alternate]
      push_cast
      omega
    · have hEven' : (n + 1) % 2 = 0 := by omega
      rw [if_pos hEven'] at hRest
      rw [weigh, weigh, if_neg hEven, if_pos hEven', if_neg hEven, alternate]
      push_cast
      omega

/- What the padding of single chunks changes. -/
theorem weighEach_eq
    (n : Nat) (chunks : List (List UInt8)) :
    (weighEach chunks : Int) = weigh n chunks.flatten + 255 * displaced n chunks := by
  induction chunks generalizing n with
  | nil => rfl
  | cons chunk chunks ih =>
    have hRest := ih (n + chunk.length)
    have hEach : weighEach (chunk :: chunks) = weigh 0 chunk + weighEach chunks := by
      simp [weighEach]
    rw [hEach, List.flatten_cons, weigh_append, displaced]
    push_cast
    rw [hRest]
    by_cases hEven : n % 2 = 0
    · have hSame : weigh n chunk = weigh 0 chunk := weigh_congr hEven
      rw [if_pos hEven, hSame]
      omega
    · have hSame : weigh n chunk = weigh (0 + 1) chunk := weigh_congr (by omega)
      have hMove := weigh_move 0 chunk
      rw [if_pos rfl] at hMove
      rw [if_neg hEven, hSame]
      omega

/- Zero bytes weigh nothing at any place. -/
theorem weigh_le_weigh
    (n m : Nat) (bytes : List UInt8) :
    weigh n bytes ≤ 256 * weigh m bytes := by
  induction bytes generalizing n m with
  | nil => simp [weigh]
  | cons b bytes ih =>
    have hRest := ih (n + 1) (m + 1)
    rw [weigh, weigh]
    split <;> split <;> omega

/- Padding one by one keeps whether there is any weight. -/
theorem weighEach_eq_zero_iff :
    weighEach chunks = 0 ↔ weigh 0 chunks.flatten = 0 := by
  suffices hAll : ∀ n, weighEach chunks = 0 ↔ weigh n chunks.flatten = 0 from hAll 0
  intro n
  induction chunks generalizing n with
  | nil => simp [weighEach, weigh]
  | cons chunk chunks ih =>
    have hEach : weighEach (chunk :: chunks) = weigh 0 chunk + weighEach chunks := by
      simp [weighEach]
    have hRest := ih (n + chunk.length)
    have hUp := weigh_le_weigh 0 n chunk
    have hDown := weigh_le_weigh n 0 chunk
    rw [hEach, List.flatten_cons, weigh_append]
    omega

----
-- What the Code Sums
----

variable {mem : Nat → Option CsumSnip} {hdr fuel : Nat}
variable {chunks : List (List UInt8)} {ip tcp : List UInt8}

/- The value of a word. -/
theorem toNat_ofNat_word
    {n : Nat} (hLt : n < 65536) :
    (UInt16.ofNat n).toNat = n := by
  rw [UInt16.toNat_ofNat']
  exact Nat.mod_eq_of_lt hLt

/- The function sees the first `len` bytes of the buffer. -/
theorem inetCsum_eq
    (sum : UInt16) (buf : List UInt8) {len : UInt16}
    (hLen : len.toNat ≤ buf.length) :
    inetCsum sum buf len = some (UInt16.ofNat (fold (sum.toNat + weigh 0 (buf.take len.toNat)))) :=
  inetCsumSlice_eq sum 0 hLen

/- Data that stands alone is summed by its words. -/
theorem inetCsum_whole
    (sum : UInt16) (buf : List UInt8) (hLt : buf.length < 65536) :
    inetCsum sum buf (UInt16.ofNat buf.length) =
      some (UInt16.ofNat (fold (sum.toNat + weigh 0 buf))) :=
  inetCsumSlice_whole sum 0 hLt

/- The payload is padded chunk by chunk. -/
theorem pktCalcPayload_eq
    (csum len : UInt16) {payload : Option Nat}
    (hChain : PayloadChain mem hdr payload chunks)
    (hChunks : ∀ chunk ∈ chunks, chunk.length < 65536)
    (hFuel : chunks.length < fuel) :
    pktCalcPayload mem hdr fuel payload csum len = some
        (UInt16.ofNat (fold (csum.toNat + weighEach chunks)),
          len + UInt16.ofNat chunks.flatten.length) := by
  induction chunks generalizing fuel payload csum len with
  | nil =>
    have hFold : UInt16.ofNat (fold (csum.toNat + weighEach [])) = csum := by
      change UInt16.ofNat (fold csum.toNat) = csum
      rw [fold_of_lt csum.toNat_lt, UInt16.ofNat_toNat]
    have hLen : len + UInt16.ofNat ([] : List (List UInt8)).flatten.length = len :=
      UInt16.add_zero len
    rw [hFold, hLen]
    cases fuel with
    | zero => simp at hFuel
    | succ fuel =>
      rcases hChain with rfl | rfl
      · rfl
      · simp [pktCalcPayload]
  | cons chunk chunks ih =>
    rcases hChain with ⟨id, next, rfl, hNe, hMem, hRest⟩
    have hLt := hChunks chunk (by simp)
    cases fuel with
    | zero => simp at hFuel
    | succ fuel =>
      simp only [pktCalcPayload, hMem]
      rw [if_neg hNe, inetCsum_whole csum chunk hLt]
      dsimp only
      rw [ih _ _ hRest (fun c hc => hChunks c (by simp [hc])) (by simpa using hFuel),
        toNat_ofNat_word (fold_lt _), fold_add_fold]
      have hEach : weighEach (chunk :: chunks) = weigh 0 chunk + weighEach chunks := by
        simp [weighEach]
      rw [hEach, Nat.add_assoc, UInt16.add_assoc, List.flatten_cons, List.length_append,
        UInt16.ofNat_add]

/- The length and the protocol, added with one carry. -/
def addLength
    (sum len : Nat) : Nat :=
  ((if sum + len + 6 > 65535 then (sum + 1) % 65536 else sum) + len + 6) % 65536

/- One carry is enough up to 131070, and one too few above. -/
theorem addLength_eq
    {sum len : Nat} (hSum : sum < 65536) (hLen : len < 65536) :
    if sum + len + 6 ≤ 131070 then addLength sum len = fold (sum + len + 6)
    else addLength sum len + 1 = fold (sum + len + 6) := by
  unfold addLength fold
  rw [if_neg (by omega : ¬ sum + len + 6 = 0)]
  split <;> split <;> omega

/- The pseudo header adds the addresses at last. -/
theorem ipv6HdrInetCsum_eq
    (sum len : UInt16) (hIp : ip.length = 40) :
    ipv6HdrInetCsum sum ip protnumTcp len = some
        (UInt16.ofNat (fold (addLength sum.toNat len.toNat + weigh 0 ((ip.drop 8).take 32)))) := by
  have hProt : protnumTcp.toNat = 6 := rfl
  have hLen : (32 : UInt16).toNat ≤ (ip.drop 8).length := by
    rw [List.length_drop, hIp]
    decide
  have hWord : (UInt16.ofNat ((if sum.toNat + len.toNat + protnumTcp.toNat > 0xffff
            then sum + 1 else sum).toNat + len.toNat + protnumTcp.toNat)).toNat =
        addLength sum.toNat len.toNat := by
    rw [UInt16.toNat_ofNat', addLength, hProt]
    split
    · rw [UInt16.toNat_add, UInt16.toNat_one]
    · rfl
  unfold ipv6HdrInetCsum
  dsimp only
  rw [inetCsum_eq _ _ hLen, hWord]
  rfl

/-
  The weights of the padded chunks and of the whole payload
  lead to the same checksum exactly if they differ by a
  multiple of 255 * 257 and there is no second carry.
-/
theorem fold_addLength_eq_iff
    {each whole header addresses len : Nat} {k : Int} (hLen : len < 65536)
    (hEach : (each : Int) = whole + 255 * k) (hZero : each = 0 ↔ whole = 0) :
    fold (addLength (fold (each + header)) len + addresses) =
        fold (addresses + len + 6 + header + whole) ↔
      257 ∣ k ∧ fold (header + whole) + len + 6 ≤ 131070 := by
  have hMod := fold_mod (each + header)
  have hAdd := addLength_eq (fold_lt (each + header)) hLen
  -- without displaced weight both sums have one representative
  have hSame : 257 ∣ k → fold (header + whole) = fold (each + header) := by
    intro hDvd
    by_cases hNone : each + header = 0
    · have hNone' : header + whole = 0 := by omega
      rw [hNone, hNone']
    · rw [fold_eq_iff (by omega) (by omega)]
      omega
  generalize fold (each + header) = sum at hMod hAdd hSame ⊢
  by_cases hCarry : sum + len + 6 ≤ 131070
  · rw [if_pos hCarry] at hAdd
    rw [hAdd, fold_add_fold, fold_eq_iff (by omega) (by omega)]
    constructor
    · intro hEq
      have hDvd : 257 ∣ k := by omega
      exact ⟨hDvd, by rw [hSame hDvd]; exact hCarry⟩
    · rintro ⟨hDvd, _⟩
      omega
  · rw [if_neg hCarry] at hAdd
    have hMod' := fold_mod (sum + len + 6)
    rw [← hAdd] at hMod'
    constructor
    · intro hEq
      exfalso
      by_cases hNone : addLength sum len + addresses = 0
      · rw [hNone] at hEq
        have hAbs := fold_eq_zero_iff.mp hEq.symm
        omega
      · rw [fold_eq_iff (by omega) (by omega)] at hEq
        omega
    · rintro ⟨hDvd, hLe⟩
      rw [hSame hDvd] at hLe
      exact absurd hLe hCarry

----
-- The Checksum
----

variable {mem : Nat → Option CsumSnip} {hdr fuel : Nat}
variable {chunks : List (List UInt8)} {ip tcp : List UInt8}

/- The weight of the contiguous segment. -/
theorem weigh_tcpSegmentBytes
    (payload : List UInt8) (hLen : 20 ≤ tcp.length) (hWords : 4 ∣ tcp.length) :
    weigh 0 (tcpSegmentBytes tcp payload) =
      weigh 0 (tcp.take 16) + weigh 0 (tcp.drop 18) + weigh 0 payload := by
  have hTake : (tcp.take 16).length = 16 := by
    rw [List.length_take]
    omega
  have hField : weigh (0 + (tcp.take 16).length) [0, 0] = 0 := by
    rw [hTake]
    rfl
  have hDrop :
      weigh (0 + (tcp.take 16 ++ [0, 0]).length) (tcp.drop 18) = weigh 0 (tcp.drop 18) := by
    apply weigh_congr
    rw [List.length_append, hTake]
    rfl
  have hPayload :
      weigh (0 + (tcp.take 16 ++ [0, 0] ++ tcp.drop 18).length) payload = weigh 0 payload := by
    apply weigh_congr
    simp only [List.length_append, hTake, List.length_drop, List.length_cons, List.length_nil]
    omega
  rw [tcpSegmentBytes, weigh_append, weigh_append,
    weigh_append, hField, hDrop, hPayload, Nat.add_zero]

/- The weight of the pseudo header. -/
theorem weigh_pseudoBytes
    {len : Nat} (back : List UInt8) (hIp : ip.length = 40) (hLen : len < 65536) :
    weigh 0 (pseudoBytes ip len ++ back) =
      weigh 0 ((ip.drop 8).take 32) + len + 6 + weigh 0 back := by
  have hAddr : ((ip.drop 8).take 32).length = 32 := by
    rw [List.length_take, List.length_drop, hIp]
    decide
  have hFields : ∀ a b : UInt8, weigh 32
            ([0, 0, a, b] ++ [0, 0, 0, protnumTcp] ++ back) =
          256 * a.toNat + b.toNat + 6 + weigh 0 back := by
    intro a b
    have hBack : weigh 40 back = weigh 0 back := weigh_congr (by decide)
    simp [weigh, hBack, protnumTcp]
    omega
  have hHigh : (UInt8.ofNat (len / 256)).toNat = len / 256 := by
    rw [UInt8.toNat_ofNat']
    omega
  have hLow : (UInt8.ofNat (len % 256)).toNat = len % 256 := by
    rw [UInt8.toNat_ofNat']
    omega
  rw [pseudoBytes, List.append_assoc, List.append_assoc, weigh_append, hAddr, Nat.zero_add,
    ← List.append_assoc, hFields, hHigh, hLow]
  omega

/-
  The checksum of a segment is the one of the contiguous
  segment exactly if the bytes that the padding displaces sum
  to a multiple of 257 and the length brings no second carry.
-/
theorem pktCalcCsum_iff
    {next payload : Option Nat} (hTcp : mem hdr = some ⟨next, tcp⟩)
    (hHdr : 20 ≤ tcp.length) (hWords : 4 ∣ tcp.length) (hIp : ip.length = 40)
    (hChain : PayloadChain mem hdr payload chunks)
    (hTotal : tcp.length + chunks.flatten.length < 65536)
    (hFuel : chunks.length < fuel) :
    pktCalcCsum mem fuel hdr (some ⟨true, ip⟩) payload =
        some (tcpChecksum ip tcp chunks.flatten) ↔ 257 ∣ displaced 0 chunks ∧
        OnesComplement.sum 0
            (words (tcpSegmentBytes tcp chunks.flatten)) +
          (tcp.length + chunks.flatten.length) + 6 ≤ 131070 := by
  have hChunks : ∀ chunk ∈ chunks, chunk.length < 65536 := by
    intro chunk hMem
    have hLe := (List.sublist_flatten_of_mem hMem).length_le
    omega
  have hPayload := pktCalcPayload_eq 0 (UInt16.ofNat tcp.length) hChain hChunks hFuel
  have hZero : (0 : UInt16).toNat + weighEach chunks = weighEach chunks := Nat.zero_add _
  rw [hZero] at hPayload
  have hFirst :
      inetCsum (UInt16.ofNat (fold (weighEach chunks))) tcp 16 =
        some (UInt16.ofNat (fold (weighEach chunks + weigh 0 (tcp.take 16)))) := by
    have h16 : (16 : UInt16).toNat = 16 := rfl
    rw [inetCsum_eq _ _ (by rw [h16]; omega), h16, toNat_ofNat_word (fold_lt _), fold_add_fold]
  have hSecond :
      inetCsum
          (UInt16.ofNat (fold (weighEach chunks + weigh 0 (tcp.take 16))))
          (tcp.drop 18) (UInt16.ofNat (tcp.length - 18)) =
        some
          (UInt16.ofNat
            (fold (weighEach chunks + (weigh 0 (tcp.take 16) + weigh 0 (tcp.drop 18))))) := by
    have hDrop : tcp.length - 18 = (tcp.drop 18).length := List.length_drop.symm
    rw [hDrop, inetCsum_whole _ _ (by rw [← hDrop]; omega), toNat_ofNat_word (fold_lt _),
      fold_add_fold, Nat.add_assoc]
  have hLen :
      (UInt16.ofNat tcp.length + UInt16.ofNat chunks.flatten.length).toNat =
        tcp.length + chunks.flatten.length := by
    rw [← UInt16.ofNat_add, toNat_ofNat_word hTotal]
  have hRun :
      pktCalcCsum mem fuel hdr (some ⟨true, ip⟩) payload =
        some
          (~~~UInt16.ofNat
            (fold
              (addLength
                  (fold (weighEach chunks + (weigh 0 (tcp.take 16) + weigh 0 (tcp.drop 18))))
                  (tcp.length + chunks.flatten.length) + weigh 0 ((ip.drop 8).take 32)))) := by
    unfold pktCalcCsum
    simp only [hTcp, Option.bind_eq_bind, Option.bind_some, hPayload, hFirst, hSecond, if_true]
    rw [ipv6HdrInetCsum_eq _ _ hIp, Option.bind_some, hLen, toNat_ofNat_word (fold_lt _)]
    rfl
  have hSpec :
      tcpChecksum ip tcp chunks.flatten =
        ~~~UInt16.ofNat
          (fold
            (weigh 0 ((ip.drop 8).take 32) + (tcp.length + chunks.flatten.length) + 6 +
              (weigh 0 (tcp.take 16) + weigh 0 (tcp.drop 18)) + weigh 0 chunks.flatten)) := by
    rw [tcpChecksum, sum_words_eq_fold (by decide), Nat.zero_add, weigh_pseudoBytes _ hIp hTotal,
      weigh_tcpSegmentBytes _ hHdr hWords, ← Nat.add_assoc]
  have hNot :
      ∀ a b : Nat, a < 65536 → b < 65536 →
        (some (~~~UInt16.ofNat a) = some (~~~UInt16.ofNat b) ↔ a = b) := by
    intro a b ha hb
    rw [Option.some_inj, UInt16.not_inj]
    constructor
    · intro hEq
      have hWord := congrArg UInt16.toNat hEq
      rwa [toNat_ofNat_word ha, toNat_ofNat_word hb] at hWord
    · intro hEq
      rw [hEq]
  rw [hRun, hSpec, hNot _ _ (fold_lt _) (fold_lt _), sum_words_eq_fold (by decide), Nat.zero_add,
    weigh_tcpSegmentBytes _ hHdr hWords]
  exact fold_addLength_eq_iff hTotal (weighEach_eq 0 chunks) weighEach_eq_zero_iff

/- A header without options, and two ways to cut the payload. -/
def sampleTcp : List UInt8 :=
  [0, 80, 0, 80, 0, 0, 0, 0, 0, 0, 0, 0, 0x50, 0x10, 0, 0, 0, 0, 0, 0]

def oddSnips : Nat → Option CsumSnip
  | 0 => some ⟨some 1, [0]⟩
  | 1 => some ⟨some 2, [1]⟩
  | 2 => some ⟨none, sampleTcp⟩
  | _ => none

def evenSnips : Nat → Option CsumSnip
  | 0 => some ⟨some 1, [0, 1]⟩
  | 1 => some ⟨some 2, []⟩
  | 2 => some ⟨none, sampleTcp⟩
  | _ => none

/- A payload that is cut into even snips. -/
theorem pktCalcCsum_evenSnips :
    pktCalcCsum evenSnips 3 2
          (some ⟨true, List.replicate 40 0⟩) (some 0) =
        some (tcpChecksum (List.replicate 40 0) sampleTcp [[0, 1], []].flatten) ↔
      257 ∣ displaced 0 [[0, 1], []] ∧
        OnesComplement.sum 0
            (words (tcpSegmentBytes sampleTcp [[0, 1], []].flatten)) +
          (sampleTcp.length + ([[0, 1], []] : List (List UInt8)).flatten.length) + 6 ≤ 131070 :=
  pktCalcCsum_iff rfl (by decide) (by decide) rfl
    ⟨0, some 1, rfl, by decide, rfl, 1, some 2, rfl, by decide, rfl, .inr rfl⟩
    (by decide) (by decide)

/- The same payload in two snips of one byte. -/
theorem pktCalcCsum_oddSnips :
    pktCalcCsum oddSnips 3 2
          (some ⟨true, List.replicate 40 0⟩) (some 0) ≠
        some (tcpChecksum (List.replicate 40 0) sampleTcp [0, 1]) ∧
      pktCalcCsum oddSnips 3 2
          (some ⟨true, List.replicate 40 0⟩) (some 0) ≠
        pktCalcCsum evenSnips 3 2 (some ⟨true, List.replicate 40 0⟩) (some 0) := by
  decide +kernel

end Riot
