import Riot.Lib.Segments
import Riot.Net.CoapBuilder

/-
  Strings that are cut into several options, such as paths,
  and the two writers and the reader of them.
-/

open ByteBuffer Segments

----
-- Writing Strings
----

namespace Riot

def slash : UInt8 := 0x2f

section

variable (string : List UInt8) (separator : UInt8) (atEnd : Nat → UInt8 → Bool)

/-
  The inner loop of both writers: go on to a separator or to
  the end, while the counter is not used up.
-/
def scanPart : Nat → Nat → Option (Nat × Nat)
| 0, uripos => some (0, uripos)
| len + 1, uripos => do
    let c ← string[uripos]?
    if c = separator ∨ atEnd uripos c then
      some (len, uripos)
    else
      scanPart len (uripos + 1)

/-
  One part of the string, with the counter and the position
  after it. A leading separator is skipped without counting.
-/
def nextPart
    (len uripos : Nat) : Option (List UInt8 × Nat × Nat) := do
  let c ← string[uripos]?
  let partStart := if c = separator then uripos + 1 else uripos
  let (len, uripos) ← scanPart string separator atEnd len partStart
  let part ← readBytes string partStart (uripos - partStart)
  some (part, len, uripos)

end

/- The outer loop of coap_opt_put_string. -/
def putParts
    (string : List UInt8) (separator : UInt8) (optnum : UInt16) :
    Nat → Nat → Nat → UInt16 → List UInt8 → Nat → Option (List UInt8 × Nat)
| 0, _, _, _, _, _ => none
| fuel + 1, len, uripos, lastonum, buf, bufpos =>
  if len = 0 then
    some (buf, bufpos)
  else do
    let (part, len, uripos) ← nextPart string separator (fun _ c => c = 0) len uripos
    -- no option for the path without a segment
    if part.length ≠ 0 ∨
        (separator = slash ∧ lastonum = optnum) then do
      let (buf, n) ← coapPutOption buf bufpos lastonum.toNat optnum.toNat part
      putParts string separator optnum fuel len uripos optnum buf (bufpos + n)
    else
      putParts string separator optnum fuel len uripos lastonum buf bufpos

/- Write the string and return the number of bytes. -/
def coapOptPutString
    (buf : List UInt8) (pos : Nat) (lastonum optnum : UInt16) (string : List UInt8)
    (separator : UInt8) : Option (List UInt8 × Nat) := do
  let len ← strlen string
  let (buf, bufpos) ← putParts string separator optnum (len + 1) len 0 lastonum buf pos
  some (buf, bufpos - pos)

/- The outer loop of coap_opt_add_chars. -/
def addParts
    (cfg : NanocoapConfig) (chars : List UInt8) (endpos : Nat) (separator : UInt8)
    (optnum : UInt16) :
    Nat → Nat → Nat → Nat → CoapPkt → Option (Except CoapError Nat × CoapPkt)
| 0, _, _, _, _ => none
| fuel + 1, len, uripos, writeLen, pkt =>
  if len = 0 then
    some (.ok writeLen, pkt)
  else do
    let (part, len, uripos) ← nextPart chars separator (fun pos _ => pos = endpos) len uripos
    if part.length ≠ 0 ∨
        (separator = slash ∧ writeLen ≠ 0) then do
      let added ← addOptPkt cfg pkt optnum.toNat part
      match added with
      | .error e => some (.error e, pkt)
      | .ok (optlen, pkt) =>
        addParts cfg chars endpos separator optnum fuel len uripos (writeLen + optlen) pkt
    else
      addParts cfg chars endpos separator optnum fuel len uripos writeLen pkt

/-
  Add the characters to the packet. The code also reads the
  byte behind them, which `chars` therefore has to hold.
-/
def coapOptAddChars
    (cfg : NanocoapConfig) (pkt : CoapPkt) (optnum : UInt16) (chars : List UInt8)
    (charsLen : Nat) (separator : UInt8) :
    Option (Except CoapError Nat × CoapPkt) :=
  addParts cfg chars charsLen separator optnum (charsLen + 1) charsLen 0 0 pkt

----
-- Reading Strings
----

/-
  The next of several options of one number, as its value, its
  length and the position after it, or NULL.
-/
def coapIterateOption
    (pkt : CoapPkt) (optpos : Nat) (first : Bool) : Option (Option (Nat × Int × Nat)) := do
  let parsed ← parseOption pkt optpos
  match parsed with
  | none => some none
  | some p =>
    if first ∨ p.delta = 0 then
      some (some (p.pktPos, p.optLen, (p.pktPos + p.optLen).toNat))
    else
      some none

/- The loop over the options; `left` is the room that is left. -/
def getParts
    (pkt : CoapPkt) (separator : UInt8) (maxLen : Nat) :
    Nat → Nat → Bool → List UInt8 → Nat → Nat → Option (Except CoapError Int × List UInt8)
| 0, _, _, _, _, _ => none
| fuel + 1, optPos, first, target, tpos, left => do
    let next ← coapIterateOption pkt optPos first
    match next with
    | none => do
        let target ← writeBytes target tpos [0]
        some (.ok (Int.bmod (maxLen - left : Nat) (2 ^ 32)), target)
    | some (partStart, optLen, optPos) =>
      if left < ((optLen + 1) % 2 ^ 32).toNat then
        some (.error .enospc, target)
      else do
        let target ← writeBytes target tpos [separator]
        -- the length of an error is a huge one
        let part ← readBytes pkt.hdr partStart (optLen % 2 ^ 32).toNat
        let target ← writeBytes target (tpos + 1) part
        getParts pkt separator maxLen fuel optPos false target
          (tpos + 1 + part.length)
          (left - ((optLen + 1) % 2 ^ 32).toNat)

/- Read the string of the options of a number. -/
def coapOptGetString
    (pkt : CoapPkt) (optnum : UInt16) (target : List UInt8) (maxLen : Nat) (separator : UInt8) :
    Option (Except CoapError Int × List UInt8) :=
  if maxLen ≤ 1 then
    none
  else
    match coapFindOption pkt optnum.toNat with
    | none => do
        let target ← writeBytes target 0 [separator]
        let target ← writeBytes target 1 [0]
        some (.ok 2, target)
    | some optPos =>
      getParts pkt separator maxLen (pkt.hdr.length + 2) optPos true target 0 (maxLen - 1)

----
-- The Two Writers
----

variable {s rest : List UInt8} {separator : UInt8} {len uripos : Nat}

/- Behind the text, and only there, stands the NUL. -/
theorem eq_zero_iff_eq_length
    {c : UInt8} (hText : 0 ∉ s) (hChar : (s ++ [0])[uripos]? = some c) :
    c = 0 ↔ uripos = s.length := by
  rcases Nat.lt_trichotomy uripos s.length with hLt | rfl | hGt
  · rw [List.getElem?_append_left hLt] at hChar
    have hMem : c ∈ s := List.mem_of_getElem? hChar
    constructor
    · rintro rfl
      exact absurd hMem hText
    · omega
  · rw [List.getElem?_append_right le_rfl, Nat.sub_self] at hChar
    have hZero : c = 0 := (Option.some.inj hChar).symm
    simp [hZero]
  · have hNone : (s ++ [0])[uripos]? = none := by
      refine List.getElem?_eq_none ?_
      rw [List.length_append, List.length_singleton]
      omega
    rw [hNone] at hChar
    cases hChar

/- Testing for the NUL is testing for the end. -/
theorem scanPart_atEnd
    (hText : 0 ∉ s) :
    scanPart (s ++ [0]) separator (fun pos _ => pos = s.length) len uripos =
      scanPart (s ++ [0]) separator (fun _ c => c = 0) len uripos := by
  induction len generalizing uripos with
  | zero => rfl
  | succ len ih =>
    simp only [scanPart, ih]
    cases hChar : (s ++ [0])[uripos]? with
    | none => rfl
    | some c =>
      simp only [Option.bind_eq_bind, Option.bind_some,
        decide_eq_true_eq, eq_zero_iff_eq_length hText hChar]

theorem nextPart_atEnd
    (hText : 0 ∉ s) :
    nextPart (s ++ [0]) separator (fun pos _ => pos = s.length) len uripos =
      nextPart (s ++ [0]) separator (fun _ c => c = 0) len uripos := by
  simp only [nextPart, scanPart_atEnd hText]

variable {cfg : NanocoapConfig} {pkt pkt' : CoapPkt} {n last : UInt16} {fuel w w' : Nat}

/-
  The two loops in step: an option was added exactly if the
  last option is one of the string's, by induction on the
  fuel.
-/
theorem addParts_putParts
    (hText : 0 ∉ s) (hLast : lastonum pkt = last.toNat) (hSync : last = n ↔ w ≠ 0)
    (hAdd :
      addParts cfg (s ++ [0]) s.length separator n fuel len uripos w pkt = some (.ok w', pkt')) :
    putParts (s ++ [0]) separator n fuel len uripos last pkt.hdr
        pkt.payload = some (pkt'.hdr, pkt'.payload) ∧ pkt'.payload + w = pkt.payload + w' := by
  induction fuel generalizing len uripos w pkt last with
  | zero => cases hAdd
  | succ fuel ih =>
    rw [addParts] at hAdd
    rw [putParts]
    by_cases hDone : len = 0
    · rw [if_pos hDone, Option.some.injEq, Prod.mk.injEq, Except.ok.injEq] at hAdd
      rcases hAdd with ⟨rfl, rfl⟩
      exact ⟨if_pos hDone, rfl⟩
    rw [if_neg hDone, nextPart_atEnd hText] at hAdd
    rw [if_neg hDone]
    rcases Option.bind_eq_some_iff.mp hAdd with ⟨⟨part, len', uripos'⟩, hPart, hAdd⟩
    rw [hPart, Option.bind_eq_bind, Option.bind_some]
    dsimp only at hAdd ⊢
    have hSame : (part.length ≠ 0 ∨ (separator = slash ∧ last = n)) ↔
          (part.length ≠ 0 ∨ (separator = slash ∧ w ≠ 0)) := by
      rw [hSync]
    by_cases hEmit : part.length ≠ 0 ∨ (separator = slash ∧ w ≠ 0)
    · rw [if_pos hEmit] at hAdd
      rw [if_pos (hSame.mpr hEmit)]
      rcases Option.bind_eq_some_iff.mp hAdd with ⟨added, hAdded, hNext⟩
      cases added with
      | error e => cases hNext
      | ok r =>
        rcases r with ⟨optlen, pkt₁⟩
        rcases addOptPkt_eq_some hAdded with ⟨hPut, hPayload, hNumber⟩
        have hPos : 0 < optlen := by
          rw [(coapPutOption_eq_some hPut).2.1]
          exact Nat.add_pos_left fieldHeader_length_pos _
        rw [hLast] at hPut
        have hStep := ih hNumber (iff_of_true rfl (Nat.add_pos_right w hPos).ne') hNext
        rw [hPut, Option.bind_eq_bind, Option.bind_some]
        dsimp only
        rw [← hPayload]
        exact ⟨hStep.1, by omega⟩
    · rw [if_neg hEmit] at hAdd
      rw [if_neg (mt hSame.mp hEmit)]
      exact ih hLast hSync hAdd

/-
  Where no option has the number yet, adding a text and
  putting it write the same bytes.
-/
theorem coapOptAddChars_put
    (hText : 0 ∉ s) (hLast : lastonum pkt = last.toNat) (hNew : last ≠ n)
    (hAdd : coapOptAddChars cfg pkt n (s ++ [0]) s.length separator = some (.ok w, pkt')) :
    coapOptPutString pkt.hdr pkt.payload last n (s ++ [0]) separator = some (pkt'.hdr, w) ∧
    pkt'.payload = pkt.payload + w := by
  have hSync : last = n ↔ (0 : Nat) ≠ 0 := iff_of_false hNew (fun h => h rfl)
  rcases addParts_putParts hText hLast hSync hAdd with ⟨hPut, hCount⟩
  have hDiff : pkt'.payload - pkt.payload = w := by
    omega
  refine ⟨?_, by omega⟩
  simp only [coapOptPutString, strlen_append hText, hPut, hDiff,
    Option.bind_eq_bind, Option.bind_some]

----
-- What Is Written
----

/- The options for segments, after an option `last`. -/
def segmentBytes
    (n : Nat) : Nat → List (List UInt8) → List UInt8
| _, [] => []
| last, seg :: segs => fieldHeader (n - last) seg.length ++ (seg ++ segmentBytes n n segs)

variable {string buf buf' seg : List UInt8} {segs : List (List UInt8)}
variable {c : UInt8} {pos bufpos bufpos' k : Nat}

/- A segment is scanned up to what follows it. -/
theorem scanPart_segment
    (hDrop : string.drop pos = seg ++ c :: rest) (hEnd : c = separator ∨ c = 0)
    (hSeg : separator ∉ seg ∧ 0 ∉ seg) (hLen : seg.length < len) :
    scanPart string separator (fun _ c => c = 0) len pos =
      some (len - (seg.length + 1), pos + seg.length) := by
  induction seg generalizing pos len with
  | nil =>
    obtain ⟨len, rfl⟩ : ∃ l, len = l + 1 := ⟨len - 1, by omega⟩
    have hChar := getElem?_of_drop hDrop
    have hStop : c = separator ∨ decide (c = 0) = true := by
      rwa [decide_eq_true_eq]
    rw [scanPart, hChar, Option.bind_eq_bind, Option.bind_some, if_pos hStop]
    rfl
  | cons x seg ih =>
    obtain ⟨len, rfl⟩ : ∃ l, len = l + 1 := ⟨len - 1, by omega⟩
    have hChar := getElem?_of_drop hDrop
    have hRest := drop_succ_of_drop hDrop
    simp only [List.mem_cons, not_or] at hSeg
    rcases hSeg with ⟨⟨hSep, hSegSep⟩, hNul, hSegNul⟩
    have hGo : ¬ (x = separator ∨ decide (x = 0) = true) := by
      rw [decide_eq_true_eq]
      rintro (rfl | rfl)
      · exact hSep rfl
      · exact hNul rfl
    rw [List.length_cons] at hLen ⊢
    rw [scanPart, hChar, Option.bind_eq_bind, Option.bind_some, if_neg hGo,
      ih hRest ⟨hSegSep, hSegNul⟩ (by omega)]
    congr 2
    · omega
    · omega

/-
  The counter that runs one behind comes out right: it counts
  the separator at the end of a segment instead of the one
  before it.
-/
theorem nextPart_joined
    (hDrop : string.drop pos = joined separator (seg :: segs) ++ 0 :: rest)
    (hSeg : separator ∉ seg ∧ 0 ∉ seg) :
    nextPart string separator (fun _ c => c = 0) (joined separator (seg :: segs)).length pos =
      some (seg, (joined separator segs).length, pos + 1 + seg.length) ∧
    string.drop (pos + 1 + seg.length) = joined separator segs ++ 0 :: rest := by
  rw [joined_cons, List.cons_append, List.append_assoc] at hDrop
  have hChar := getElem?_of_drop hDrop
  have hStart := drop_succ_of_drop hDrop
  have hRest := drop_of_drop hStart
  obtain ⟨c, tail, hTail, hEnd⟩ :
      ∃ c tail, joined separator segs ++ 0 :: rest = c :: tail ∧ (c = separator ∨ c = 0) := by
    cases segs with
    | nil => exact ⟨0, rest, rfl, .inr rfl⟩
    | cons seg' segs =>
      rw [joined_cons]
      exact ⟨separator, _, rfl, .inl rfl⟩
  have hScanDrop : string.drop (pos + 1) = seg ++ c :: tail := by
    rw [hStart, hTail]
  have hLength : (joined separator (seg :: segs)).length =
        seg.length + 1 + (joined separator segs).length := by
    rw [joined_cons, List.length_cons, List.length_append]
    omega
  have hScan : scanPart string separator (fun _ c => c = 0)
        (seg.length + 1 + (joined separator segs).length)
        (pos + 1) = _ :=
    scanPart_segment hScanDrop hEnd hSeg (by omega)
  rw [Nat.add_sub_cancel_left] at hScan
  have hRead : readBytes string (pos + 1) seg.length = some seg := by
    refine readBytes_of_drop hStart ?_
    have hIn := congrArg List.length hStart
    rw [List.length_drop, List.length_append, List.length_append, List.length_cons] at hIn
    omega
  refine ⟨?_, hRest⟩
  simp only [nextPart, hChar, Option.bind_eq_bind, Option.bind_some, if_true, hScan, hLength,
    Nat.add_sub_cancel_left, hRead]

/-
  The loop writes an option for every segment, once one of
  them was written or if the first one is not empty, by
  induction on the segments.
-/
theorem putParts_joined
    (hDrop : string.drop pos = joined slash segs ++ 0 :: rest)
    (hSegs : ∀ seg ∈ segs, slash ∉ seg ∧ 0 ∉ seg)
    (hEmit : last = n ∨ ∀ seg ∈ segs.head?, seg ≠ [])
    (hPut : putParts string slash n fuel (joined slash segs).length pos
        last buf bufpos = some (buf', bufpos')) :
    bufpos' = bufpos + (segmentBytes n.toNat last.toNat segs).length ∧
    buf'.take bufpos' = buf.take bufpos ++ segmentBytes n.toNat last.toNat segs := by
  induction segs generalizing pos last buf bufpos fuel with
  | nil =>
    cases fuel with
    | zero => cases hPut
    | succ fuel =>
      rw [joined_nil, List.length_nil, putParts, if_pos rfl, Option.some.injEq,
        Prod.mk.injEq] at hPut
      rcases hPut with ⟨rfl, rfl⟩
      exact ⟨rfl, (List.append_nil _).symm⟩
  | cons seg segs ih =>
    cases fuel with
    | zero => cases hPut
    | succ fuel =>
      have hMore : ¬ (joined slash (seg :: segs)).length = 0 := by
        rw [joined_cons, List.length_cons]
        omega
      rcases nextPart_joined hDrop (hSegs seg List.mem_cons_self) with ⟨hPart, hRest⟩
      have hWrite : seg.length ≠ 0 ∨ (slash = slash ∧ last = n) := by
        rcases hEmit with hSame | hFirst
        · exact .inr ⟨rfl, hSame⟩
        · have hNe := hFirst seg rfl
          exact .inl (fun h =>
            hNe (List.length_eq_zero_iff.mp h))
      rw [putParts, if_neg hMore, hPart, Option.bind_eq_bind, Option.bind_some] at hPut
      dsimp only at hPut
      rw [if_pos hWrite] at hPut
      rcases Option.bind_eq_some_iff.mp hPut with ⟨⟨buf₁, k⟩, hOption, hNext⟩
      rcases coapPutOption_eq_some hOption with ⟨_, hk, pre, old, post, rfl, rfl, hOld, rfl⟩
      have hAfter := ih hRest (fun t ht => hSegs t (List.mem_cons_of_mem _ ht)) (.inl rfl) hNext
      have hTake : (pre ++ (fieldHeader (n.toNat - last.toNat) seg.length ++
              (seg ++ post))).take (pre.length + k) =
            pre ++ (fieldHeader (n.toNat - last.toNat) seg.length ++ seg) := by
        rw [List.take_length_add_append, hk, ← List.append_assoc (fieldHeader _ _),
          ← List.length_append, List.take_left]
      rw [hTake] at hAfter
      rw [segmentBytes, List.take_left, hAfter.2]
      refine ⟨?_, ?_⟩
      · rw [hAfter.1, hk, List.length_append, List.length_append]
        omega
      · simp only [List.append_assoc]

theorem notMem_joined_zero
    (hSegs : ∀ seg ∈ segs, slash ∉ seg ∧ 0 ∉ seg) :
    0 ∉ joined slash segs := by
  intro hMem
  rcases List.mem_flatMap.mp hMem with ⟨seg, hSeg, hZero⟩
  rcases List.mem_cons.mp hZero with hSlash | hZero
  · exact absurd hSlash (by decide)
  · exact (hSegs seg hSeg).2 hZero

/- The whole string, written as its segments. -/
theorem coapOptPutString_joined
    (hSegs : ∀ seg ∈ segs, slash ∉ seg ∧ 0 ∉ seg)
    (hEmit : last = n ∨ ∀ seg ∈ segs.head?, seg ≠ [])
    (hPut : coapOptPutString buf pos last n (joined slash segs ++ [0]) slash = some (buf', k)) :
    k = (segmentBytes n.toNat last.toNat segs).length ∧
    buf'.take (pos + k) = buf.take pos ++ segmentBytes n.toNat last.toNat segs := by
  have hText := notMem_joined_zero hSegs
  rw [coapOptPutString, strlen_append hText, Option.bind_eq_bind, Option.bind_some] at hPut
  rcases Option.bind_eq_some_iff.mp hPut with ⟨⟨buf₁, bufpos⟩, hParts, hResult⟩
  simp only [Option.some.injEq, Prod.mk.injEq] at hResult
  rcases hResult with ⟨rfl, rfl⟩
  rcases putParts_joined (List.drop_zero) hSegs hEmit hParts with ⟨hEnd, hTake⟩
  have hCount : pos + (bufpos - pos) = bufpos := by
    omega
  refine ⟨by omega, ?_⟩
  rw [hCount, hTake]

/- For the root nothing is written. -/
theorem coapOptPutString_root
    (hNew : last ≠ n) :
    coapOptPutString buf pos last n ([slash] ++ [0]) slash = some (buf, 0) := by
  have hPart : nextPart ([slash] ++ [0]) slash (fun _ c => c = 0) 1 0 = some ([], 0, 1) := by
    decide
  have hNone : ¬ (([] : List UInt8).length ≠ 0 ∨ (slash = slash ∧ last = n)) := by
    rintro (h | ⟨_, h⟩)
    · exact h rfl
    · exact hNew h
  have hText : strlen ([slash] ++ [0]) = some 1 := by
    decide
  have hStep : putParts ([slash] ++ [0]) slash n 2 1 0 last buf pos = some (buf, pos) := by
    rw [putParts, if_neg (by decide), hPart, Option.bind_eq_bind, Option.bind_some]
    dsimp only
    rw [if_neg hNone, putParts, if_pos rfl]
  simp only [coapOptPutString, hText, hStep, Option.bind_eq_bind, Option.bind_some, Nat.sub_self]

end Riot
