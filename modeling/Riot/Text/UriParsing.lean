import Mathlib.Data.List.Basic
import Riot.Sys.UriParser

/-
  What the parser for URIs finds in a string.
-/

open ByteBuffer

----
-- Cutting Strings
----

namespace Riot

/- What is before and behind the first `c`. -/
def cut
    (c : UInt8) :
    List UInt8 → List UInt8 × Option (List UInt8)
| [] => ([], none)
| b :: s =>
  if b = c then ([], some s)
  else (b :: (cut c s).1, (cut c s).2)

/- What is before and behind the last `c`. -/
def cutLast
    (c : UInt8) :
    List UInt8 → List UInt8 × Option (List UInt8)
| [] => ([], none)
| b :: s =>
  if (cutLast c s).2.isSome then
    (b :: (cutLast c s).1, (cutLast c s).2)
  else if b = c then ([], some s)
  else (b :: s, none)

/- A component with the delimiter before or behind it. -/
def prefixed
    (c : UInt8) : Option (List UInt8) → List UInt8
| none => []
| some s => c :: s

def suffixed
    (c : UInt8) : Option (List UInt8) → List UInt8
| none => []
| some s => s ++ [c]

variable {c : UInt8} {s : List UInt8}

theorem cut_text :
    (cut c s).1 ++ prefixed c (cut c s).2 = s := by
  induction s with
  | nil => rfl
  | cons b s ih =>
    rw [cut]
    by_cases hb : b = c
    · rw [if_pos hb, hb]
      rfl
    · rw [if_neg hb, List.cons_append, ih]

theorem notMem_cut :
    c ∉ (cut c s).1 := by
  induction s with
  | nil => exact List.not_mem_nil
  | cons b s ih =>
    rw [cut]
    by_cases hb : b = c
    · rw [if_pos hb]
      exact List.not_mem_nil
    · rw [if_neg hb, List.mem_cons, not_or]
      exact ⟨Ne.symm hb, ih⟩

theorem cut_eq_none_iff :
    (cut c s).2 = none ↔ c ∉ s := by
  induction s with
  | nil => exact iff_of_true rfl List.not_mem_nil
  | cons b s ih =>
    rw [cut, List.mem_cons, not_or]
    by_cases hb : b = c
    · rw [if_pos hb]
      exact iff_of_false (Option.some_ne_none s) (fun h => h.1 hb.symm)
    · rw [if_neg hb, ih]
      exact (and_iff_right (Ne.symm hb)).symm

theorem cutLast_eq_none_iff :
    (cutLast c s).2 = none ↔ c ∉ s := by
  induction s with
  | nil => exact iff_of_true rfl List.not_mem_nil
  | cons b s ih =>
    rw [cutLast, List.mem_cons, not_or]
    cases hRest : (cutLast c s).2 with
    | some t =>
      rw [hRest] at ih
      rw [if_pos (Option.isSome_some)]
      exact iff_of_false (Option.some_ne_none t) (fun h => Option.some_ne_none t (ih.mpr h.2))
    | none =>
      rw [hRest] at ih
      rw [if_neg (by simp)]
      by_cases hb : b = c
      · rw [if_pos hb]
        exact iff_of_false (Option.some_ne_none s) (fun h => h.1 hb.symm)
      · rw [if_neg hb]
        exact iff_of_true rfl ⟨Ne.symm hb, ih.mp rfl⟩

theorem cutLast_text :
    (cutLast c s).1 ++ prefixed c (cutLast c s).2 = s := by
  induction s with
  | nil => rfl
  | cons b s ih =>
    rw [cutLast]
    by_cases hRest : (cutLast c s).2.isSome
    · rw [if_pos hRest, List.cons_append, ih]
    · rw [if_neg hRest]
      by_cases hb : b = c
      · rw [if_pos hb, hb]
        rfl
      · rw [if_neg hb]
        exact List.append_nil _

theorem cut_of_none
    (hNone : (cut c s).2 = none) :
    (cut c s).1 = s := by
  have hText := cut_text (c := c) (s := s)
  rwa [hNone, prefixed, List.append_nil] at hText

/- The last `c` is found behind the first one. -/
theorem cutLast_of_cut
    {a t : List UInt8} (hCut : cut c s = (a, some t)) :
    cutLast c s = if (cutLast c t).2.isSome then (a ++ c :: (cutLast c t).1, (cutLast c t).2)
      else (a, some t) := by
  induction s generalizing a with
  | nil => cases hCut
  | cons b s ih =>
    rw [cut] at hCut
    by_cases hb : b = c
    · rw [if_pos hb] at hCut
      cases hCut
      rw [cutLast, if_pos hb, hb]
      rfl
    · rw [if_neg hb, Prod.mk.injEq] at hCut
      rcases hCut with ⟨rfl, hTail⟩
      rw [cutLast, ih (Prod.ext rfl hTail)]
      by_cases hMore : (cutLast c t).2.isSome
      · rw [if_pos hMore, if_pos hMore, if_pos hMore]
        rfl
      · rw [if_neg hMore, if_neg hMore]
        rfl

----
-- Searching Memory
----

variable {mem pre s post : List UInt8} {c : UInt8} {start stop p : Nat}

theorem strchrbLoop_spec
    (hMem : mem = pre ++ (s ++ post)) (hStart : start = pre.length) :
    strchrbLoop mem c s.length start =
      some ((cut c s).2.map (fun _ => start + (cut c s).1.length)) := by
  induction s generalizing pre start with
  | nil => rfl
  | cons b s ih =>
    have hByte : mem[start]? = some b := by
      rw [hMem, hStart, List.getElem?_append_right (le_refl _), Nat.sub_self]
      rfl
    have hNext : mem = (pre ++ [b]) ++ (s ++ post) := by
      rw [hMem, List.append_assoc]
      rfl
    rw [List.length_cons, strchrbLoop, hByte, Option.bind_eq_bind, Option.bind_some, cut]
    by_cases hb : b = c
    · rw [if_pos hb, if_pos hb]
      rfl
    · rw [if_neg hb, if_neg hb, ih hNext (by rw [List.length_append, hStart]; rfl)]
      simp only [List.length_cons]
      congr 2
      funext _
      omega

/- The first `c` between two positions. -/
theorem strchrb_spec
    (hMem : mem = pre ++ (s ++ post)) (hStart : start = pre.length)
    (hStop : stop = start + s.length) :
    strchrb mem start stop c = some ((cut c s).2.map (fun _ => start + (cut c s).1.length)) := by
  rw [strchrb, hStop, Nat.add_sub_cancel_left]
  exact strchrbLoop_spec hMem hStart

/-
  The loop ends at the last colon behind the position `p`, or
  at `p` if there is none.
-/
theorem portLoop_spec
    {n : Nat} {b : UInt8} (hMem : mem = pre ++ (b :: s ++ post))
    (hStart : p = pre.length) (hStop : stop = p + 1 + s.length)
    (hFuel : s.length < n) :
    portLoop mem stop n p = some (if (cutLast 0x3a s).2.isSome then
          p + 1 + (cutLast 0x3a s).1.length
        else p) := by
  induction n generalizing pre b s p with
  | zero => omega
  | succ n ih =>
    have hSplit : mem = (pre ++ [b]) ++ (s ++ post) := by
      rw [hMem, List.append_assoc]
      rfl
    have hFind := strchrb_spec (c := 0x3a) hSplit (by rw [List.length_append, hStart]; rfl) hStop
    rw [portLoop, hFind, Option.bind_eq_bind, Option.bind_some]
    cases hCut : cut 0x3a s with
    | mk a t =>
      cases t with
      | none =>
        have hNone : (cutLast 0x3a s).2 = none := by
          rw [cutLast_eq_none_iff, ← cut_eq_none_iff, hCut]
        rw [hNone]
        rfl
      | some t =>
        have hText := cut_text (c := 0x3a) (s := s)
        rw [hCut] at hText
        have hLen := congrArg List.length hText
        have hNext : mem = (pre ++ b :: a) ++ (0x3a :: t ++ post) := by
          rw [hMem, ← hText]
          simp [prefixed]
        rw [List.length_append] at hLen
        have hRest := ih (p := p + 1 + a.length) hNext (by
              rw [List.length_append, List.length_cons, hStart]
              omega)
            (by
              rw [hStop, ← hLen]
              simp only [prefixed, List.length_cons]
              omega)
            (by
              simp only [prefixed, List.length_cons] at hLen
              omega)
        dsimp only [Option.map_some]
        rw [hRest, cutLast_of_cut hCut]
        by_cases hMore : (cutLast 0x3a t).2.isSome
        · rw [if_pos hMore, if_pos hMore, if_pos hMore, List.length_append, List.length_cons]
          congr 1
          omega
        · rw [if_neg hMore, if_neg hMore]
          rfl

----
-- Parts of a URI
----

structure AuthorityParts where
  userinfo : Option (List UInt8)
  host : List UInt8
  port : Option (List UInt8)

structure UriParts where
  scheme : Option (List UInt8)
  authority : Option AuthorityParts
  path : List UInt8
  query : Option (List UInt8)

def AuthorityParts.text
    (A : AuthorityParts) : List UInt8 :=
  suffixed 0x40 A.userinfo ++ (A.host ++ prefixed 0x3a A.port)

/- The components put back together. -/
def UriParts.text
    (u : UriParts) : List UInt8 :=
  suffixed 0x3a u.scheme ++
    ((match u.authority with
      | none => []
      | some A => 0x2f :: 0x2f :: A.text) ++
      (u.path ++ prefixed 0x3f u.query))

/- The authority behind its first '@'. -/
def hostPart
    (auth : List UInt8) : List UInt8 :=
  (cut 0x40 auth).2.getD auth

/-
  A host that begins with '[' is kept up to its first ']'. The
  colon before the port is searched for in what is behind.
-/
def keptPart
    (h : List UInt8) : List UInt8 × List UInt8 :=
  if h.head? = some 0x5b then
    match (cut 0x5d h).2 with
    | none => ([], h)
    | some t => ((cut 0x5d h).1 ++ [0x5d], t)
  else
    ([], h)

def authorityParts
    (auth : List UInt8) : AuthorityParts where
  userinfo := (cut 0x40 auth).2.map fun _ => (cut 0x40 auth).1
  host := (keptPart (hostPart auth)).1 ++ (cutLast 0x3a (keptPart (hostPart auth)).2).1
  port := (cutLast 0x3a (keptPart (hostPart auth)).2).2

/- The authority, and what is behind it. -/
def splitAuthority
    (a : List UInt8) : List UInt8 × List UInt8 :=
  ((cut 0x2f a).1, prefixed 0x2f (cut 0x2f a).2)

def relativeParts
    (s : List UInt8) : UriParts where
  scheme := none
  authority := none
  path := (cut 0x3f s).1
  query := (cut 0x3f s).2

/- What is behind "//", if the string begins so. -/
def afterSlashes : List UInt8 → Option (List UInt8)
| b₁ :: b₂ :: a =>
  if b₁ = 0x2f ∧ b₂ = 0x2f then some a else none
| _ => none

def absoluteParts
    (scheme rest : List UInt8) : UriParts :=
  match afterSlashes rest with
  | some a =>
    { relativeParts (splitAuthority a).2 with
      scheme := some scheme
      authority := some (authorityParts (splitAuthority a).1) }
  | none => { relativeParts rest with scheme := some scheme }

variable {a s auth scheme rest : List UInt8}

theorem keptPart_text :
    (keptPart s).1 ++ (keptPart s).2 = s := by
  rw [keptPart]
  split
  · cases hCut : (cut 0x5d s).2 with
    | none => rfl
    | some t =>
      have hText := cut_text (c := 0x5d) (s := s)
      rw [hCut] at hText
      rw [List.append_assoc]
      exact hText
  · rfl

theorem userinfo_text :
    suffixed 0x40 (authorityParts auth).userinfo ++ hostPart auth = auth := by
  have hText := cut_text (c := 0x40) (s := auth)
  rw [authorityParts, hostPart]
  cases hCut : (cut 0x40 auth).2 with
  | none => rfl
  | some h =>
    rw [hCut] at hText
    rw [Option.map_some, Option.getD_some, suffixed, List.append_assoc]
    exact hText

theorem hostPart_text :
    (authorityParts auth).host ++ prefixed 0x3a (authorityParts auth).port = hostPart auth := by
  have hScan := cutLast_text (c := 0x3a) (s := (keptPart (hostPart auth)).2)
  rw [authorityParts]
  dsimp only
  rw [List.append_assoc, hScan, keptPart_text]

theorem text_authorityParts :
    (authorityParts auth).text = auth := by
  rw [AuthorityParts.text, hostPart_text, userinfo_text]

theorem splitAuthority_text :
    (splitAuthority a).1 ++ (splitAuthority a).2 = a :=
  cut_text

theorem text_relativeParts :
    (relativeParts s).text = s :=
  cut_text

theorem afterSlashes_eq_some
    (hAfter : afterSlashes rest = some a) :
    rest = 0x2f :: 0x2f :: a := by
  match rest, hAfter with
  | b₁ :: b₂ :: a', hAfter =>
    rw [afterSlashes] at hAfter
    split at hAfter
    · rename_i hSlashes
      rw [hSlashes.1, hSlashes.2, Option.some.inj hAfter]
    · cases hAfter

theorem text_absoluteParts :
    (absoluteParts scheme rest).text = scheme ++ 0x3a :: rest := by
  rw [absoluteParts]
  cases hAfter : afterSlashes rest with
  | some a =>
    have hPath := cut_text (c := 0x3f) (s := (splitAuthority a).2)
    rw [UriParts.text]
    dsimp only [relativeParts]
    rw [text_authorityParts, hPath, List.cons_append, List.cons_append, splitAuthority_text,
      suffixed, List.append_assoc, afterSlashes_eq_some hAfter]
    rfl
  | none =>
    have hPath := cut_text (c := 0x3f) (s := rest)
    rw [UriParts.text]
    dsimp only [relativeParts]
    rw [hPath, suffixed, List.append_assoc]
    rfl

----
-- What the Steps Find
----

variable {mem pre s auth scan post : List UInt8} {result : UriParserResult}
variable {uri uriEnd p stop : Nat}

theorem u16_eq
    {x : Int} {n : Nat} (hx : x = n) (hn : n < 2 ^ 16) :
    u16 x = n := by
  rw [u16, hx]
  omega

def UriParserResult.putPath
    (result : UriParserResult) (uri : Nat) (path : List UInt8)
    (query : Option (List UInt8)) : UriParserResult :=
  { result with
    path := some uri
    pathLen := path.length
    query := query.map fun _ => uri + path.length + 1
    queryLen := (query.getD []).length }

section

variable (hMem : mem = pre ++ (s ++ post)) (hUri : uri = pre.length)
variable (hEnd : uriEnd = uri + s.length) (hLen : uriEnd < 2 ^ 16)
variable (hQuery : result.query = none) (hQueryLen : result.queryLen = 0)

include hMem hUri hEnd hLen hQuery hQueryLen

theorem consumePath_spec :
    consumePath mem result uri uriEnd =
      some (result.putPath uri (cut 0x3f s).1 (cut 0x3f s).2, uriEnd) := by
  have hText := congrArg List.length (cut_text (c := 0x3f) (s := s))
  have hPathLen : u16 (uriEnd - uri) = s.length := u16_eq (by omega) (by omega)
  rw [List.length_append] at hText
  rw [consumePath]
  dsimp only
  rw [strchrb_spec hMem hUri hEnd, Option.bind_eq_bind, Option.bind_some, hPathLen]
  cases hCut : (cut 0x3f s).2 with
  | none =>
    dsimp only [Option.map_none]
    rw [cut_of_none hCut, UriParserResult.putPath, hEnd, Option.map_none, Option.getD_none,
      List.length_nil, hQuery, hQueryLen]
  | some t =>
    rw [hCut, prefixed, List.length_cons] at hText
    have hQueryLen :
        u16 (s.length - ((uri + (cut 0x3f s).1.length : Nat) - uri : Int) - 1) = t.length :=
      u16_eq (by omega) (by omega)
    have hPath : u16 (s.length - (t.length + 1)) = (cut 0x3f s).1.length :=
      u16_eq (by omega) (by omega)
    have hDone : uri + (cut 0x3f s).1.length + 1 + t.length = uriEnd := by
      omega
    dsimp only [Option.map_some]
    rw [hQueryLen, hPath, hDone, UriParserResult.putPath, Option.map_some, Option.getD_some]

theorem parseRelative_spec :
    parseRelative mem result uri uriEnd =
      some (result.putPath uri (cut 0x3f s).1 (cut 0x3f s).2, true) := by
  rw [parseRelative, consumePath_spec hMem hUri hEnd hLen hQuery hQueryLen, Option.bind_eq_bind,
    Option.bind_some]
  dsimp only
  rw [decide_eq_true rfl]

end

def UriParserResult.putUserinfo
    (result : UriParserResult) (uri : Nat) (auth : List UInt8) : UriParserResult :=
  match (cut 0x40 auth).2 with
  | none => result
  | some h =>
    { result with
      userinfo := some uri
      userinfoLen := (cut 0x40 auth).1.length
      host := some (uri + ((cut 0x40 auth).1.length + 1))
      hostLen := h.length }

theorem consumeUserinfo_spec
    (hMem : mem = pre ++ (auth ++ post)) (hUri : uri = pre.length)
    (hEnd : stop = uri + auth.length) (hLen : stop < 2 ^ 16)
    (hHost : result.host = some uri) (hHostLen : result.hostLen = auth.length) :
    consumeUserinfo mem result uri stop = some (result.putUserinfo uri auth) := by
  have hText := congrArg List.length (cut_text (c := 0x40) (s := auth))
  rw [List.length_append] at hText
  rw [consumeUserinfo, strchrb_spec hMem hUri hEnd, Option.bind_eq_bind, Option.bind_some,
    UriParserResult.putUserinfo]
  cases hCut : (cut 0x40 auth).2 with
  | none => rfl
  | some h =>
    rw [hCut, prefixed, List.length_cons] at hText
    have hUser : u16 ((uri + (cut 0x40 auth).1.length : Nat) - uri) = (cut 0x40 auth).1.length :=
      u16_eq (by omega) (by omega)
    have hRest : u16 (auth.length - ((cut 0x40 auth).1.length + 1)) = h.length :=
      u16_eq (by omega) (by omega)
    dsimp only [Option.map_some]
    rw [hUser, hHost, hHostLen, hRest]
    rfl

theorem getElem_at
    {b : UInt8} {i : Nat} (hMem : mem = pre ++ b :: post) (hi : i = pre.length) :
    mem[i]? = some b := by
  rw [hMem, hi, List.getElem?_append_right (le_refl _), Nat.sub_self]
  rfl

theorem portBegin_cons
    {b : UInt8} (hMem : mem = pre ++ (b :: s ++ post)) (hPos : p = pre.length)
    (hStop : stop = p + 1 + s.length) :
    portBegin mem p stop = some (some (if (cutLast 0x3a s).2.isSome then
            p + 1 + (cutLast 0x3a s).1.length
          else p)) := by
  rw [portBegin, if_pos (by omega), portLoop_spec hMem hPos hStop (by omega)]
  rfl

/- Where the port is looked for, and what is found there. -/
theorem portBegin_spec
    {kept : List UInt8} (hMem : mem = pre ++ (kept ++ (scan ++ post)))
    (hStop : stop = pre.length + kept.length + scan.length)
    (hPos : (kept = [] ∧ p = pre.length) ∨ ∃ b, kept = b ++ [0x5d] ∧ p = pre.length + b.length) :
    ∃ begin?, portBegin mem p stop = some begin? ∧ match (cutLast 0x3a scan).2 with
        | none => ∀ b, begin? = some b → ∃ x, mem[b]? = some x ∧ x ≠ 0x3a
        | some _ =>
          begin? = some (pre.length + kept.length + (cutLast 0x3a scan).1.length) := by
  rcases hPos with ⟨rfl, hPos⟩ | ⟨b, rfl, hPos⟩
  · -- From the start of the host, which may be the colon.
    cases scan with
    | nil =>
      refine ⟨none, if_neg (by simp_all), ?_⟩
      intro b hb
      cases hb
    | cons x s =>
      refine ⟨_, portBegin_cons hMem hPos ?_, ?_⟩
      · rw [hStop, hPos, List.length_nil, List.length_cons]
        omega
      · rw [cutLast]
        by_cases hRest : (cutLast 0x3a s).2.isSome
        · rw [if_pos hRest, if_pos hRest]
          cases hLast : (cutLast 0x3a s).2 with
          | none =>
            rw [hLast] at hRest
            cases hRest
          | some t =>
            rw [hPos, List.length_nil, List.length_cons]
            congr 1
            omega
        · rw [if_neg hRest, if_neg hRest]
          by_cases hx : x = 0x3a
          · rw [if_pos hx, hPos]
            rfl
          · rw [if_neg hx]
            intro b hb
            cases hb
            exact ⟨x, getElem_at hMem hPos, hx⟩
  · have hMarker : mem = (pre ++ b) ++ (0x5d :: scan ++ post) := by
      rw [hMem]
      simp only [List.append_assoc, List.cons_append, List.nil_append]
    have hStart : p = (pre ++ b).length := by
      rw [List.length_append, hPos]
    refine ⟨_, portBegin_cons hMarker hStart ?_, ?_⟩
    · rw [hStop, hPos, List.length_append, List.length_singleton]
      omega
    · cases hLast : (cutLast 0x3a scan).2 with
      | none =>
        intro q hq
        cases hq
        exact ⟨0x5d, getElem_at hMarker hStart, by decide⟩
      | some t =>
        rw [if_pos (Option.isSome_some), hPos, List.length_append, List.length_singleton]
        congr 1

/- The port, if it is not empty. -/
def UriParserResult.putPort
    (result : UriParserResult) (pos : Nat) (scan : List UInt8) : UriParserResult :=
  match (cutLast 0x3a scan).2 with
  | none => result
  | some port =>
    { result with
      port := some (pos + (cutLast 0x3a scan).1.length + 1)
      portLen := port.length
      hostLen := result.hostLen - (port.length + 1) }

theorem consumePort_spec
    {kept : List UInt8} {ipv6End : Option Nat} {host : Nat}
    (hMem : mem = pre ++ (kept ++ (scan ++ post)))
    (hStop : stop = pre.length + kept.length + scan.length) (hLen : stop < 2 ^ 16)
    (hHost : result.host = some host)
    (hHostLen : result.hostLen = kept.length + scan.length)
    (hPos : (kept = [] ∧ ipv6End.getD host = pre.length) ∨
        ∃ b, kept = b ++ [0x5d] ∧ ipv6End.getD host = pre.length + b.length) :
    consumePort mem result ipv6End stop = some
        (if (cutLast 0x3a scan).2 = some [] then (result, false)
        else (result.putPort (pre.length + kept.length) scan, true)) := by
  have hText := cutLast_text (c := 0x3a) (s := scan)
  rcases portBegin_spec hMem hStop hPos with ⟨begin?, hBegin, hFound⟩
  rw [consumePort, UriParserResult.putPort, hHost, Option.bind_eq_bind, Option.bind_some, hBegin,
    Option.bind_eq_bind, Option.bind_some]
  cases hLast : (cutLast 0x3a scan).2 with
  | none =>
    rw [hLast] at hFound
    rw [if_neg (by simp)]
    cases begin? with
    | none => rfl
    | some b =>
      rcases hFound b rfl with ⟨x, hx, hNot⟩
      dsimp only
      rw [hx, Option.bind_eq_bind, Option.bind_some, if_neg hNot]
  | some port =>
    rw [hLast] at hFound hText
    have hScanLen := congrArg List.length hText
    rw [List.length_append, prefixed, List.length_cons] at hScanLen
    have hColon : mem[pre.length + kept.length + (cutLast 0x3a scan).1.length]? = some 0x3a := by
      apply @getElem_at _ (pre ++ (kept ++ (cutLast 0x3a scan).1)) (port ++ post)
      · rw [hMem]
        nth_rewrite 1 [← hText]
        simp only [prefixed, List.append_assoc, List.cons_append]
      · rw [List.length_append, List.length_append, Nat.add_assoc]
    rw [hFound]
    dsimp only
    rw [hColon, Option.bind_eq_bind, Option.bind_some, if_pos rfl]
    by_cases hEmpty : port = []
    · subst hEmpty
      rw [List.length_nil] at hScanLen
      rw [if_pos (by omega), if_pos rfl]
    · have hPort : 0 < port.length := List.length_pos_iff.mpr hEmpty
      have hPortLen :
          u16 (stop - (pre.length + kept.length + (cutLast 0x3a scan).1.length + 1 : Nat)) =
            port.length :=
        u16_eq (by omega) (by omega)
      have hHostRest :
          u16 (result.hostLen - (port.length + 1)) = result.hostLen - (port.length + 1) :=
        u16_eq (by omega) (by omega)
      rw [if_neg (by omega), if_neg (fun h => hEmpty (Option.some.inj h)), hPortLen, hHostRest]

----
-- The Authority
----

variable {mem pre s t rest h after auth a post : List UInt8} {c : UInt8}
variable {uri uriEnd p stop host : Nat} {o : Option (List UInt8)}

theorem cut_append_of_some
    (hCut : (cut c s).2 = some t) :
    cut c (s ++ rest) = ((cut c s).1, some (t ++ rest)) := by
  induction s with
  | nil => cases hCut
  | cons b s ih =>
    rw [cut] at hCut ⊢
    rw [List.cons_append, cut]
    by_cases hb : b = c
    · rw [if_pos hb] at hCut ⊢
      rw [if_pos hb, Option.some.inj hCut]
    · rw [if_neg hb] at hCut ⊢
      rw [if_neg hb, ih hCut]

theorem cut_append_of_none
    (hCut : (cut c s).2 = none) :
    cut c (s ++ rest) = (s ++ (cut c rest).1, (cut c rest).2) := by
  induction s with
  | nil => rfl
  | cons b s ih =>
    rw [cut] at hCut
    rw [List.cons_append, cut]
    by_cases hb : b = c
    · rw [if_pos hb] at hCut
      cases hCut
    · rw [if_neg hb] at hCut ⊢
      rw [ih hCut, List.cons_append]

theorem cut_append_cons
    {c : UInt8} {b : List UInt8} (hb : c ∉ b) :
    cut c (b ++ c :: t) = (b, some t) := by
  rw [cut_append_of_none (cut_eq_none_iff.mpr hb), cut, if_pos rfl, List.append_nil]

/- There is no end marker but beyond the authority. -/
def MarkerBeyond
    (h after : List UInt8) : Prop :=
  h.head? = some 0x5b ∧ 0x5d ∉ h ∧ 0x5d ∈ after

/- What the end marker says about the kept part. -/
theorem ipv6Marker_spec
    (hMem : mem = pre ++ (h ++ (after ++ post))) (hHost : host = pre.length)
    (hEnd : uriEnd = host + h.length + after.length)
    (hHead : ∃ c, (h ++ (after ++ post)).head? = some c ∧ (h = [] → c ≠ 0x5b)) :
    ∃ ipv6End, ipv6Marker mem host uriEnd = some ipv6End ∧
        (ipv6End.any (· ≥ host + h.length) = true ↔ MarkerBeyond h after) ∧
        (¬ MarkerBeyond h after → ((keptPart h).1 = [] ∧ ipv6End.getD host = pre.length) ∨
            ∃ b, (keptPart h).1 = b ++ [0x5d] ∧ ipv6End.getD host = pre.length + b.length) := by
  rcases hHead with ⟨c, hc, hEmpty⟩
  have hFirst : mem[host]? = some c := by
    rw [hMem, hHost, List.getElem?_append_right (le_refl _), Nat.sub_self, ← List.head?_eq_getElem?]
    exact hc
  have hBracket : c = 0x5b ↔ h.head? = some 0x5b := by
    cases h with
    | nil => exact iff_of_false (hEmpty rfl) (by simp)
    | cons b h =>
      rw [List.cons_append, List.head?_cons] at hc
      rw [List.head?_cons, hc]
      simp
  have hFind := @strchrb_spec mem _ (h ++ after) _ 0x5d _ uriEnd
      (by rw [hMem, List.append_assoc]) hHost
      (by rw [hEnd, List.length_append, Nat.add_assoc])
  rw [ipv6Marker, hFirst, Option.bind_eq_bind, Option.bind_some, keptPart]
  by_cases hc : c = 0x5b
  · rw [if_pos hc, if_pos (hBracket.mp hc), hFind]
    refine ⟨_, rfl, ?_⟩
    cases hIn : (cut 0x5d h).2 with
    | some t =>
      -- The marker is inside the authority.
      have hText := congrArg List.length
        (cut_text (c := 0x5d) (s := h))
      have hMem : 0x5d ∈ h := by
        by_contra hNot
        rw [cut_eq_none_iff.mpr hNot] at hIn
        cases hIn
      rw [hIn, List.length_append, prefixed, List.length_cons] at hText
      rw [cut_append_of_some hIn, Option.map_some, Option.any_some, Option.getD_some]
      refine ⟨iff_of_false ?_ (fun hBeyond =>
        hBeyond.2.1 hMem), fun _ => .inr ⟨_, rfl, ?_⟩⟩
      · rw [decide_eq_true_eq]
        dsimp only
        omega
      · rw [hHost]
    | none =>
      have hNot := cut_eq_none_iff.mp hIn
      rw [cut_append_of_none hIn]
      cases hOut : (cut 0x5d after).2 with
      | none =>
        have hNotAfter := cut_eq_none_iff.mp hOut
        exact ⟨iff_of_false (by simp) (fun hBeyond =>
          hNotAfter hBeyond.2.2), fun _ =>
            .inl ⟨rfl, hHost⟩⟩
      | some t =>
        have hAfter : 0x5d ∈ after := by
          by_contra hNotAfter
          rw [cut_eq_none_iff.mpr hNotAfter] at hOut
          cases hOut
        have hBeyond : MarkerBeyond h after := ⟨hBracket.mp hc, hNot, hAfter⟩
        refine ⟨iff_of_true ?_ hBeyond, fun hNone =>
          absurd hBeyond hNone⟩
        rw [Option.map_some, Option.any_some, decide_eq_true_eq, List.length_append]
        omega
  · rw [if_neg hc, if_neg (mt hBracket.mpr hc)]
    refine ⟨none, rfl, ?_, fun _ => .inl ⟨rfl, hHost⟩⟩
    exact iff_of_false (by simp) (fun hBeyond =>
      hc (hBracket.mpr hBeyond.1))

/- An authority that the parser accepts. -/
def AuthorityAccepted
    (auth after : List UInt8) : Prop :=
  ¬ MarkerBeyond (hostPart auth) after ∧ (authorityParts auth).port ≠ some [] ∧
    ¬ ((authorityParts auth).host = [] ∧
      ((authorityParts auth).userinfo.isSome ∨ (authorityParts auth).port.isSome))

/- The result with a scheme, and nothing else so far. -/
def UriParserResult.ofScheme
    (o : Option (List UInt8)) : UriParserResult :=
  { UriParserResult.zero with
    scheme := o.map fun _ => 0
    schemeLen := (o.getD []).length }

def UriParserResult.putAuthority
    (result : UriParserResult) (uri : Nat) (A : AuthorityParts) : UriParserResult :=
  { result with
    userinfo := A.userinfo.map fun _ => uri
    userinfoLen := (A.userinfo.getD []).length
    host := some (uri + (suffixed 0x40 A.userinfo).length)
    hostLen := A.host.length
    port :=
      A.port.map fun _ =>
        uri + (suffixed 0x40 A.userinfo).length + A.host.length + 1
    portLen := (A.port.getD []).length }

/- The result with a host that reaches up to the slash. -/
def UriParserResult.putHost
    (result : UriParserResult) (uri : Nat) (auth : List UInt8) : UriParserResult :=
  { result with host := some uri, hostLen := auth.length }

theorem putUserinfo_putHost :
    ((UriParserResult.ofScheme o).putHost uri auth).putUserinfo uri auth =
      { UriParserResult.ofScheme o with
        userinfo := (authorityParts auth).userinfo.map fun _ => uri
        userinfoLen := ((authorityParts auth).userinfo.getD []).length
        host := some (uri + (suffixed 0x40 (authorityParts auth).userinfo).length)
        hostLen := (hostPart auth).length } := by
  rw [UriParserResult.putUserinfo, authorityParts, hostPart]
  cases hCut : (cut 0x40 auth).2 with
  | none => rfl
  | some h =>
    dsimp only [Option.map_some, Option.getD_some, suffixed]
    rw [List.length_append]
    rfl

theorem putPort_putUserinfo :
    (((UriParserResult.ofScheme o).putHost uri auth).putUserinfo uri auth).putPort
        (uri + (suffixed 0x40 (authorityParts auth).userinfo).length +
          (keptPart (hostPart auth)).1.length)
        (keptPart (hostPart auth)).2 =
      (UriParserResult.ofScheme o).putAuthority uri (authorityParts auth) := by
  have hKept := congrArg List.length (keptPart_text (s := hostPart auth))
  have hScan := congrArg List.length
      (cutLast_text (c := 0x3a) (s := (keptPart (hostPart auth)).2))
  rw [List.length_append] at hKept hScan
  have hHost : (authorityParts auth).host.length = (keptPart (hostPart auth)).1.length +
          (cutLast 0x3a (keptPart (hostPart auth)).2).1.length :=
    List.length_append
  have hPort : (authorityParts auth).port = (cutLast 0x3a (keptPart (hostPart auth)).2).2 := rfl
  rw [putUserinfo_putHost, UriParserResult.putPort, UriParserResult.putAuthority, hHost, hPort]
  cases hLast : (cutLast 0x3a (keptPart (hostPart auth)).2).2 with
  | none =>
    rw [hLast, prefixed, List.length_nil] at hScan
    rw [← hKept, ← hScan]
    rfl
  | some port =>
    rw [hLast, prefixed, List.length_cons] at hScan
    dsimp only [Option.map_some, Option.getD_some]
    congr 1
    · congr 1
      omega
    · omega

/- The authority up to the search for the end marker. -/
theorem consumeAuthority_eq
    (hMem : mem = pre ++ (a ++ post)) (hUri : uri = pre.length)
    (hEnd : uriEnd = uri + a.length) (hLen : uriEnd < 2 ^ 16)
    (hAuth : (splitAuthority a).1 = auth) :
    consumeAuthority mem (.ofScheme o) uri uriEnd = (ipv6Marker mem
          (uri + (suffixed 0x40 (authorityParts auth).userinfo).length)
          uriEnd).bind
        fun ipv6End =>
          finishAuthority mem
            (((UriParserResult.ofScheme o).putHost uri auth).putUserinfo uri auth)
            ipv6End (uri + auth.length) := by
  subst hAuth
  have hText := splitAuthority_text (a := a)
  have hALen := congrArg List.length hText
  rw [List.length_append] at hALen
  have hStop : ((cut 0x2f a).2.map (fun _ => uri + (cut 0x2f a).1.length)).getD uriEnd =
        uri + (splitAuthority a).1.length := by
    rw [splitAuthority]
    cases hCut : (cut 0x2f a).2 with
    | none => rw [Option.map_none, Option.getD_none, cut_of_none hCut, hEnd]
    | some t => rfl
  have hUser := @consumeUserinfo_spec mem _ _ ((splitAuthority a).2 ++ post)
      ((UriParserResult.ofScheme o).putHost uri (splitAuthority a).1) _ _
      (by rw [← List.append_assoc _ _ post, hText]; exact hMem)
      hUri rfl
      (by omega) rfl rfl
  have hHostLen :
      u16 ((uri + (splitAuthority a).1.length : Nat) - uri) = (splitAuthority a).1.length :=
    u16_eq (by omega) (by omega)
  have hHost := congrArg UriParserResult.host (@putUserinfo_putHost (splitAuthority a).1 uri o)
  rw [consumeAuthority, strchrb_spec hMem hUri hEnd, Option.bind_eq_bind, Option.bind_some, hStop]
  dsimp only
  rw [hHostLen, ← UriParserResult.putHost.eq_def, hUser, Option.bind_eq_bind, Option.bind_some,
    hHost, Option.bind_eq_bind, Option.bind_some]

/- The host begins where the memory ends. -/
theorem consumeAuthority_eq_none
    (hMem : mem = pre ++ a) (hUri : uri = pre.length)
    (hEnd : uriEnd = uri + a.length) (hLen : uriEnd < 2 ^ 16)
    (hEmpty : hostPart (splitAuthority a).1 ++ (splitAuthority a).2 = []) :
    consumeAuthority mem (.ofScheme o) uri uriEnd = none := by
  rcases List.append_eq_nil_iff.mp hEmpty with ⟨hHost, hAfter⟩
  have hText := splitAuthority_text (a := a)
  have hUserText := @userinfo_text (splitAuthority a).1
  rw [hAfter, List.append_nil] at hText
  rw [hHost, List.append_nil, hText] at hUserText
  rw [consumeAuthority_eq (by rw [List.append_nil]; exact hMem) hUri hEnd hLen rfl, ipv6Marker,
    hText, hUserText, List.getElem?_eq_none]
  · rfl
  · rw [hMem, List.length_append, hUri]

/- The steps over the authority, one after the other. -/
theorem consumeAuthority_spec
    (hMem : mem = pre ++ (a ++ post)) (hUri : uri = pre.length)
    (hEnd : uriEnd = uri + a.length) (hLen : uriEnd < 2 ^ 16)
    (hHead :
      ∃ c, (hostPart (splitAuthority a).1 ++ ((splitAuthority a).2 ++ post)).head? = some c ∧
          (hostPart (splitAuthority a).1 = [] → c ≠ 0x5b)) :
    ∃ result next, consumeAuthority mem (.ofScheme o) uri uriEnd = some (result, next) ∧
        (next.isSome ↔ AuthorityAccepted (splitAuthority a).1 (splitAuthority a).2) ∧
        (∀ p, next = some p → p = uri + (splitAuthority a).1.length ∧ result =
              (UriParserResult.ofScheme o).putAuthority uri
                (authorityParts (splitAuthority a).1)) := by
  have hText := splitAuthority_text (a := a)
  rw [consumeAuthority_eq hMem hUri hEnd hLen rfl]
  generalize (splitAuthority a).1 = auth at *
  generalize (splitAuthority a).2 = after at *
  have hALen := congrArg List.length hText
  rw [List.length_append] at hALen
  have hUserText := @userinfo_text auth
  have hUserLen := congrArg List.length hUserText
  rw [List.length_append] at hUserLen
  have hSplit : mem = (pre ++ suffixed 0x40 (authorityParts auth).userinfo) ++
          (hostPart auth ++ (after ++ post)) := by
    rw [hMem, ← hText]
    nth_rewrite 1 [← hUserText]
    simp only [List.append_assoc]
  rcases @ipv6Marker_spec _ _ _ _ _ uriEnd
    (uri + (suffixed 0x40 (authorityParts auth).userinfo).length)
    hSplit
    (by rw [List.length_append, hUri]) (by omega) hHead with
    ⟨ipv6End, hMarker, hAny, hKept⟩
  have hPut := @putPort_putUserinfo auth uri o
  have hFields := @putUserinfo_putHost auth uri o
  generalize ((UriParserResult.ofScheme o).putHost uri
    auth).putUserinfo uri auth = result at hPut hFields ⊢
  have hHostField := congrArg UriParserResult.host hFields
  have hLenField := congrArg UriParserResult.hostLen hFields
  dsimp only at hHostField hLenField
  rw [hMarker, Option.bind_some, finishAuthority]
  have hStopHost : uri + auth.length =
        uri + (suffixed 0x40 (authorityParts auth).userinfo).length + (hostPart auth).length := by
    omega
  by_cases hBeyond : MarkerBeyond (hostPart auth) after
  · rw [hStopHost, if_pos (hAny.mpr hBeyond)]
    refine ⟨_, none, rfl, iff_of_false (by simp) ?_, ?_⟩
    · intro hAccepted
      exact hAccepted.1 hBeyond
    · intro p hp
      cases hp
  · have hKeptLen := congrArg List.length (keptPart_text (s := hostPart auth))
    rw [List.length_append] at hKeptLen
    have hNotAny := mt hAny.mp hBeyond
    rw [← hStopHost] at hNotAny
    have hPortSpec := @consumePort_spec mem
        (pre ++ suffixed 0x40 (authorityParts auth).userinfo)
        (keptPart (hostPart auth)).2 (after ++ post) _
        (uri + auth.length) _ _ _
        (by
          rw [hSplit]
          nth_rewrite 1 [← keptPart_text (s := hostPart auth)]
          simp only [List.append_assoc])
        (by rw [List.length_append]; omega) (by omega)
        hHostField (by rw [hLenField, hKeptLen])
        (hKept hBeyond)
    have hPortEq : (cutLast 0x3a (keptPart (hostPart auth)).2).2 = (authorityParts auth).port := rfl
    rw [List.length_append, ← hUri, hPut, hPortEq] at hPortSpec
    rw [if_neg hNotAny]
    by_cases hEmpty : (authorityParts auth).port = some []
    · rw [if_pos hEmpty] at hPortSpec
      rw [hPortSpec, Option.bind_eq_bind, Option.bind_some]
      refine ⟨_, none, rfl, iff_of_false (by simp) ?_, ?_⟩
      · intro hAccepted
        exact hAccepted.2.1 hEmpty
      · intro p hp
        cases hp
    · have hCheck : (((UriParserResult.ofScheme o).putAuthority uri
                (authorityParts auth)).hostLen = 0 ∧
              (((UriParserResult.ofScheme o).putAuthority uri
                  (authorityParts auth)).userinfo.isSome ∨
                ((UriParserResult.ofScheme o).putAuthority uri
                  (authorityParts auth)).port.isSome)) ↔ ((authorityParts auth).host = [] ∧
              ((authorityParts auth).userinfo.isSome ∨ (authorityParts auth).port.isSome)) := by
        rw [UriParserResult.putAuthority]
        dsimp only
        rw [Option.isSome_map, Option.isSome_map, List.length_eq_zero_iff]
      rw [if_neg hEmpty] at hPortSpec
      rw [hPortSpec, Option.bind_eq_bind, Option.bind_some]
      dsimp only
      rw [if_neg (by decide)]
      by_cases hHostEmpty : (authorityParts auth).host = [] ∧
            ((authorityParts auth).userinfo.isSome ∨ (authorityParts auth).port.isSome)
      · rw [if_pos (hCheck.mpr hHostEmpty)]
        refine ⟨_, none, rfl, iff_of_false (by simp) ?_, ?_⟩
        · intro hAccepted
          exact hAccepted.2.2 hHostEmpty
        · intro p hp
          cases hp
      · rw [if_neg (mt hCheck.mp hHostEmpty)]
        refine ⟨_, _, rfl, iff_of_true rfl ?_, ?_⟩
        · exact ⟨hBeyond, hEmpty, hHostEmpty⟩
        · intro p hp
          exact ⟨(Option.some.inj hp).symm, rfl⟩

end Riot
