import Riot.Text.UriParsing

/-
  The components of a URI: when the parser stays inside of its
  buffer, that the components make up the string, and which
  hosts in brackets are well formed.
-/

open ByteBuffer

----
-- What Follows the Buffer
----

namespace Riot

variable {c : UInt8} {n start stop uri uriEnd p host : Nat} {result : UriParserResult}

theorem ignoresRest_strchrb :
    IgnoresRest (fun mem => strchrb mem start stop c) := by
  have hLoop (n start : Nat) : IgnoresRest (fun mem => strchrbLoop mem c n start) := by
    induction n generalizing start with
    | zero => exact ignoresRest_const
    | succ n ih =>
      exact ignoresRest_bind ignoresRest_getElem fun b =>
        ignoresRest_ite ignoresRest_const (ih (start + 1))
  exact hLoop (stop - start) start

theorem ignoresRest_isAbsolute :
    IgnoresRest (fun mem => uriParserIsAbsolute mem n) := by
  have hLoop (n i : Nat) : IgnoresRest (fun mem => schemeLoop mem n i) := by
    induction n generalizing i with
    | zero => exact ignoresRest_const
    | succ n ih =>
      exact ignoresRest_bind ignoresRest_getElem fun b =>
        ignoresRest_ite ignoresRest_const (ih (i + 1))
  refine ignoresRest_bind ignoresRest_strchrb fun colon => ?_
  cases colon with
  | none => exact ignoresRest_const
  | some colon =>
    exact ignoresRest_bind ignoresRest_getElem fun b =>
      ignoresRest_ite ignoresRest_const (hLoop colon 0)

theorem ignoresRest_slashesAt :
    IgnoresRest (fun mem => slashesAt mem p) :=
  ignoresRest_bind ignoresRest_getElem fun _ =>
    ignoresRest_ite ignoresRest_const
      (ignoresRest_bind ignoresRest_getElem fun _ =>
        ignoresRest_const)

theorem ignoresRest_consumeScheme :
    IgnoresRest (fun mem => consumeScheme mem result uri uriEnd) :=
  ignoresRest_bind ignoresRest_getElem fun _ =>
    ignoresRest_ite ignoresRest_const
      (ignoresRest_bind ignoresRest_strchrb fun _ =>
        ignoresRest_bind ignoresRest_const fun _ =>
          ignoresRest_bind ignoresRest_slashesAt fun _ =>
            ignoresRest_const)

theorem ignoresRest_consumeUserinfo :
    IgnoresRest (fun mem => consumeUserinfo mem result uri stop) := by
  refine ignoresRest_bind ignoresRest_strchrb fun found => ?_
  cases found with
  | none => exact ignoresRest_const
  | some _ => exact ignoresRest_const

theorem ignoresRest_portBegin :
    IgnoresRest (fun mem => portBegin mem p stop) := by
  have hLoop (n p : Nat) : IgnoresRest (fun mem => portLoop mem stop n p) := by
    induction n generalizing p with
    | zero => exact ignoresRest_const
    | succ n ih =>
      refine ignoresRest_bind ignoresRest_strchrb fun next => ?_
      cases next with
      | none => exact ignoresRest_const
      | some q => exact ih q
  refine ignoresRest_ite ?_ ignoresRest_const
  intro buf rest x hx
  rcases Option.map_eq_some_iff.mp hx with ⟨y, hy, rfl⟩
  exact Option.map_eq_some_iff.mpr ⟨y, hLoop _ p buf rest y hy, rfl⟩

theorem ignoresRest_consumePort
    {ipv6End : Option Nat} :
    IgnoresRest (fun mem => consumePort mem result ipv6End stop) := by
  refine ignoresRest_bind ignoresRest_const fun host =>
    ignoresRest_bind ignoresRest_portBegin fun begin? => ?_
  cases begin? with
  | none => exact ignoresRest_const
  | some b =>
    exact ignoresRest_bind ignoresRest_getElem fun _ =>
      ignoresRest_const

theorem ignoresRest_consumeAuthority :
    IgnoresRest (fun mem => consumeAuthority mem result uri uriEnd) :=
  ignoresRest_bind ignoresRest_strchrb fun _ =>
    ignoresRest_bind ignoresRest_consumeUserinfo fun _ =>
      ignoresRest_bind ignoresRest_const fun _ =>
        ignoresRest_bind
          (ignoresRest_bind ignoresRest_getElem fun _ =>
            ignoresRest_ite ignoresRest_strchrb ignoresRest_const)
          fun _ =>
          ignoresRest_ite ignoresRest_const
            (ignoresRest_bind ignoresRest_consumePort fun _ =>
              ignoresRest_const)

theorem ignoresRest_parseRelative :
    IgnoresRest (fun mem => parseRelative mem result uri uriEnd) := by
  refine ignoresRest_bind
    (ignoresRest_bind ignoresRest_strchrb fun found => ?_)
    fun _ => ignoresRest_const
  cases found with
  | none => exact ignoresRest_const
  | some _ => exact ignoresRest_const

theorem ignoresRest_uriParserProcess :
    IgnoresRest (fun mem => uriParserProcess result mem n) := by
  refine ignoresRest_bind ignoresRest_getElem fun _ =>
    ignoresRest_ite ignoresRest_const
      (ignoresRest_bind ignoresRest_isAbsolute fun _ =>
        ignoresRest_ite
          (ignoresRest_bind ignoresRest_consumeScheme fun found => ?_)
          ignoresRest_parseRelative)
  rcases found with ⟨result, hasAuthority, next⟩
  cases next with
  | none => exact ignoresRest_const
  | some uri =>
    refine ignoresRest_ite
      (ignoresRest_bind ignoresRest_consumeAuthority fun found => ?_) ignoresRest_parseRelative
    rcases found with ⟨result, next⟩
    cases next with
    | none => exact ignoresRest_const
    | some uri => exact ignoresRest_parseRelative

----
-- The Scheme
----

variable {s scheme rest post mem pre a : List UInt8} {result : UriParserResult}

/-
  The bytes behind the colon that are looked at are there: two
  bytes, or one that is NUL, or the string ends with a NUL.
-/
def SlashesReadable
    (rest post : List UInt8) : Prop :=
  2 ≤ rest.length ∨ rest = [0] ∨ post.head? = some 0

theorem slashesAt_spec
    (hRead : SlashesReadable rest post) :
    slashesAt (scheme ++ 0x3a :: (rest ++ post)) scheme.length =
      some (afterSlashes rest).isSome := by
  have hAt (k : Nat) :
      (scheme ++ 0x3a :: (rest ++ post))[scheme.length + k + 1]? = (rest ++ post)[k]? := by
    rw [List.getElem?_append_right (by omega), Nat.add_assoc,
      Nat.add_sub_cancel_left, List.getElem?_cons_succ]
  rw [slashesAt, hAt 0, hAt 1]
  match rest, hRead with
  | [], hRead =>
    rcases hRead with hTwo | hZero | hPost
    · exact absurd hTwo (by decide)
    · cases hZero
    · rw [List.nil_append, ← List.head?_eq_getElem?, hPost]
      rfl
  | [b], hRead =>
    by_cases hb : b = 0
    · rw [hb]
      rfl
    · rcases hRead with hTwo | hZero | hPost
      · exact absurd hTwo (by simp)
      · exact absurd (List.cons.inj hZero).1 hb
      · rw [List.cons_append, List.getElem?_cons_zero, List.getElem?_cons_succ, List.nil_append,
          ← List.head?_eq_getElem?, hPost, Option.bind_eq_bind, Option.bind_some, if_neg hb]
        rfl
  | b₁ :: b₂ :: a, _ =>
    rw [afterSlashes]
    by_cases hSlashes : b₁ = 0x2f ∧ b₂ = 0x2f
    · rw [if_pos hSlashes, hSlashes.1, hSlashes.2]
      rfl
    · rw [if_neg hSlashes]
      by_cases hb : b₁ = 0
      · rw [hb]
        rfl
      · simp [hb]
        exact fun _ h₁ h₂ => hSlashes ⟨h₁, h₂⟩

theorem slashesAt_eq_none
    (hRead : ¬ SlashesReadable rest []) :
    slashesAt (scheme ++ 0x3a :: rest) scheme.length = none := by
  have hAt (k : Nat) : (scheme ++ 0x3a :: rest)[scheme.length + k + 1]? = rest[k]? := by
    rw [List.getElem?_append_right (by omega), Nat.add_assoc,
      Nat.add_sub_cancel_left, List.getElem?_cons_succ]
  rw [slashesAt, hAt 0, hAt 1]
  match rest, hRead with
  | [], _ => rfl
  | [b], hRead =>
    have hb : b ≠ 0 := by
      rintro rfl
      exact hRead (.inr (.inl rfl))
    simp [hb]
  | b₁ :: b₂ :: a, hRead => exact absurd (.inl (by simp)) hRead

theorem consumeScheme_eq
    (hScheme : 0x3a ∉ scheme) (hStart : scheme ≠ [])
    (hLen : scheme.length + 1 + rest.length < 2 ^ 16) :
    consumeScheme (scheme ++ 0x3a :: (rest ++ post)) .zero 0 (scheme.length + 1 + rest.length) =
      (slashesAt (scheme ++ 0x3a :: (rest ++ post)) scheme.length).map (fun hasAuthority =>
          (.ofScheme (some scheme), hasAuthority,
            some (scheme.length + (if hasAuthority then 3 else 1)))) := by
  have hCut := cut_append_cons (t := rest) hScheme
  have hFind := @strchrb_spec (scheme ++ 0x3a :: (rest ++ post)) []
      (scheme ++ 0x3a :: rest) post 0x3a 0
      (scheme.length + 1 + rest.length)
      (by simp) rfl (by simp; omega)
  have hSchemeLen : u16 ((scheme.length : Nat) - (0 : Nat)) = scheme.length :=
    u16_eq (by omega) (by omega)
  cases scheme with
  | nil => exact absurd rfl hStart
  | cons b scheme =>
    have hb : b ≠ 0x3a := by
      rintro rfl
      exact hScheme List.mem_cons_self
    rw [consumeScheme, hFind, hCut, List.cons_append, List.getElem?_cons_zero, Option.bind_eq_bind,
      Option.bind_some, if_neg hb, Option.map_some, Option.bind_eq_bind, Option.bind_some,
      Option.bind_eq_bind, Option.bind_some, Nat.zero_add]
    dsimp only
    rw [hSchemeLen]
    cases slashesAt (b :: (scheme ++ 0x3a :: (rest ++ post))) (b :: scheme).length with
    | none => rfl
    | some hasAuthority =>
      cases hasAuthority with
      | false => rfl
      | true => rfl

/- The test for a scheme comes to an end, inside the string. -/
theorem exists_isAbsolute
    (s : List UInt8) :
    ∃ b, uriParserIsAbsolute s s.length = some b ∧
      (b = true → ∃ c t rest, cut 0x3a s = (c :: t, some rest) ∧ c ≠ 0) := by
  have hLoop (n i : Nat) (hFits : i + n ≤ s.length) : ∃ b, schemeLoop s n i = some b := by
    induction n generalizing i with
    | zero => exact ⟨true, rfl⟩
    | succ n ih =>
      rw [schemeLoop, List.getElem?_eq_getElem (by omega), Option.bind_eq_bind, Option.bind_some]
      split
      · exact ⟨false, rfl⟩
      · exact ih (i + 1) (by omega)
  have hFind := @strchrb_spec s [] s [] 0x3a 0 _ (by simp) rfl (Nat.zero_add _).symm
  have hText := cut_text (c := 0x3a) (s := s)
  have hNot := notMem_cut (c := 0x3a) (s := s)
  rw [uriParserIsAbsolute, hFind, Option.bind_eq_bind, Option.bind_some]
  cases hCut : cut 0x3a s with
  | mk front back =>
    rw [hCut] at hText hNot
    cases back with
    | none => exact ⟨false, rfl, fun h => absurd h (by decide)⟩
    | some rest =>
      dsimp only [Option.map_some]
      rcases hLoop (0 + front.length) 0 (by rw [← hText]; simp) with ⟨b, hb⟩
      cases front with
      | nil =>
        refine ⟨false, ?_, fun h => absurd h (by decide)⟩
        rw [← hText]
        rfl
      | cons c t =>
        have hFirst : s[0]? = some c := by
          rw [← hText]
          rfl
        rw [hFirst, Option.bind_eq_bind, Option.bind_some]
        by_cases hAlpha : isAlpha c = true
        · rw [hAlpha, if_neg (by decide), hb]
          refine ⟨b, rfl, fun _ => ⟨c, t, rest, rfl, ?_⟩⟩
          rintro rfl
          exact absurd hAlpha (by decide)
        · rw [eq_false_of_ne_true hAlpha]
          exact ⟨false, rfl, fun h => absurd h (by decide)⟩

----
-- The Whole String
----

variable {s scheme rest post a : List UInt8} {result : UriParserResult}

/- The parts of a string, by what the parser takes it for. -/
def uriParts
    (absolute : Bool) (s : List UInt8) : UriParts :=
  if absolute then
    absoluteParts (cut 0x3a s).1 ((cut 0x3a s).2.getD [])
  else
    relativeParts s

/- The result that the parts stand for. -/
def UriParts.layout
    (u : UriParts) : UriParserResult :=
  let start := (suffixed 0x3a u.scheme).length
  match u.authority with
  | none => (UriParserResult.ofScheme u.scheme).putPath start u.path u.query
  | some A =>
    ((UriParserResult.ofScheme u.scheme).putAuthority
        (start + 2) A).putPath
      (start + 2 + A.text.length) u.path u.query

/- An authority, if there is one, is accepted. -/
def RestAccepted
    (rest : List UInt8) : Prop :=
  ∀ a, afterSlashes rest = some a → AuthorityAccepted (splitAuthority a).1 (splitAuthority a).2

/- The first byte of the host is there. -/
def HostReadable
    (rest post : List UInt8) : Prop :=
  ∀ a, afterSlashes rest = some a →
    hostPart (splitAuthority a).1 ++ (splitAuthority a).2 ≠ [] ∨ post.head? = some 0

theorem head_of_hostReadable
    (hHost : HostReadable rest post) (hAfter : afterSlashes rest = some a) :
    ∃ c, (hostPart (splitAuthority a).1 ++ ((splitAuthority a).2 ++ post)).head? = some c ∧
        (hostPart (splitAuthority a).1 = [] → c ≠ 0x5b) := by
  have hSlash : (splitAuthority a).2 = [] ∨ ∃ t, (splitAuthority a).2 = 0x2f :: t := by
    rw [splitAuthority]
    cases (cut 0x2f a).2 with
    | none => exact .inl rfl
    | some t => exact .inr ⟨t, rfl⟩
  cases hPart : hostPart (splitAuthority a).1 with
  | cons b h => exact ⟨b, rfl, fun h => absurd h (by simp)⟩
  | nil =>
    rcases hSlash with hEmpty | ⟨t, ht⟩
    · rcases hHost a hAfter with hNot | hPost
      · exact absurd (by rw [hPart, hEmpty]; rfl) hNot
      · rw [hEmpty]
        exact ⟨0, hPost, fun _ => by decide⟩
    · rw [ht]
      exact ⟨0x2f, rfl, fun _ => by decide⟩

theorem parseAbsolute_spec
    (hScheme : 0x3a ∉ scheme) (hStart : scheme ≠ [])
    (hLen : scheme.length + 1 + rest.length < 2 ^ 16)
    (hRead : SlashesReadable rest post) (hHost : HostReadable rest post) :
    ∃ r b, parseAbsolute (scheme ++ 0x3a :: (rest ++ post)) .zero 0
          (scheme.length + 1 + rest.length) = some (r, b) ∧ (b = true ↔ RestAccepted rest) ∧
        (b = true → r = (absoluteParts scheme rest).layout) := by
  rw [parseAbsolute, consumeScheme_eq hScheme hStart hLen, slashesAt_spec hRead, Option.map_some,
    Option.bind_eq_bind, Option.bind_some]
  dsimp only
  rw [RestAccepted, absoluteParts]
  cases hAfter : afterSlashes rest with
  | none =>
    have hPath := @parseRelative_spec (scheme ++ 0x3a :: (rest ++ post))
        (scheme ++ [0x3a]) rest post (.ofScheme (some scheme))
        _ _ (by simp) (by simp) rfl hLen rfl rfl
    rw [Option.isSome_none, if_neg (by decide), if_neg (by decide), hPath]
    refine ⟨_, _, rfl, iff_of_true rfl ?_, fun _ => ?_⟩
    · intro a ha
      cases ha
    · rw [UriParts.layout]
      dsimp only [relativeParts, suffixed]
      rw [List.length_append]
      rfl
  | some a =>
    have hRest := afterSlashes_eq_some hAfter
    have hText := splitAuthority_text (a := a)
    have hALen := congrArg List.length hText
    rw [List.length_append] at hALen
    rw [hRest, List.length_cons, List.length_cons] at hLen
    rcases @consumeAuthority_spec
      (scheme ++ 0x3a :: (rest ++ post))
      (scheme ++ [0x3a, 0x2f, 0x2f]) a _ (scheme.length + 3)
      (scheme.length + 1 + rest.length) (some scheme)
      (by rw [hRest]; simp) (by simp)
      (by rw [hRest, List.length_cons, List.length_cons]; omega)
      (by rw [hRest, List.length_cons, List.length_cons]; omega)
      (head_of_hostReadable hHost hAfter) with
      ⟨r, next, hAuthority, hSome, hNext⟩
    rw [Option.isSome_some, if_pos rfl, if_pos rfl, parseAuthority, hAuthority, Option.bind_eq_bind,
      Option.bind_some]
    cases next with
    | none =>
      refine ⟨_, _, rfl, iff_of_false (by decide) ?_, fun h => absurd h (by decide)⟩
      intro hAccepted
      exact absurd (hSome.mpr (hAccepted a rfl)) (by decide)
    | some uri =>
      rcases hNext uri rfl with ⟨rfl, rfl⟩
      have hPath := @parseRelative_spec
          (scheme ++ 0x3a :: (rest ++ post))
          (scheme ++ 0x3a :: 0x2f :: 0x2f :: (splitAuthority a).1)
          (splitAuthority a).2 post
          ((UriParserResult.ofScheme
            (some scheme)).putAuthority (scheme.length + 3) (authorityParts (splitAuthority a).1))
          (scheme.length + 3 + (splitAuthority a).1.length)
          (scheme.length + 1 + rest.length)
          (by
            rw [hRest]
            nth_rewrite 1 [← hText]
            simp)
          (by simp; omega)
          (by
            rw [hRest, List.length_cons, List.length_cons]
            omega)
          (by
            rw [hRest, List.length_cons, List.length_cons]
            omega) rfl rfl
      dsimp only
      rw [hPath]
      refine ⟨_, _, rfl, iff_of_true rfl ?_, fun _ => ?_⟩
      · intro a' ha'
        cases ha'
        exact hSome.mp rfl
      · rw [UriParts.layout]
        dsimp only [relativeParts, suffixed]
        rw [text_authorityParts, List.length_append]
        rfl

/- The result does not depend on what follows the string. -/
theorem uriParserProcess_spec
    (hs : s.length < 2 ^ 16) (hFirst : ∃ c t, s = c :: t ∧ c ≠ 0)
    (hRead : uriParserIsAbsolute s s.length = some true →
        SlashesReadable ((cut 0x3a s).2.getD []) post ∧
          HostReadable ((cut 0x3a s).2.getD []) post) :
    ∃ r b absolute, uriParserIsAbsolute s s.length = some absolute ∧
        uriParserProcess result (s ++ post) s.length = some (r, b) ∧
        (b = true ↔ (absolute = true → RestAccepted ((cut 0x3a s).2.getD []))) ∧
        (b = true → r = (uriParts absolute s).layout) := by
  rcases hFirst with ⟨c, t, rfl, hc⟩
  rcases exists_isAbsolute (c :: t) with ⟨absolute, hAbsolute, hShape⟩
  have hTest := ignoresRest_isAbsolute (n := (c :: t).length) (c :: t) post absolute hAbsolute
  dsimp only at hTest
  rw [uriParserProcess, List.cons_append, List.getElem?_cons_zero, Option.bind_eq_bind,
    Option.bind_some, if_neg hc, ← List.cons_append, hTest, Option.bind_eq_bind, Option.bind_some]
  cases absolute with
  | false =>
    have hPath := @parseRelative_spec (c :: t ++ post) [] (c :: t) _ .zero
        0 _ rfl rfl
        (Nat.zero_add _).symm hs rfl rfl
    rw [if_neg (by decide), hPath]
    exact ⟨_, _, false, hAbsolute, rfl, iff_of_true rfl (fun h => absurd h (by decide)),
      fun _ => rfl⟩
  | true =>
    rcases hShape rfl with ⟨b, front, rest, hCut, _⟩
    have hText := cut_text (c := 0x3a) (s := c :: t)
    have hNot := notMem_cut (c := 0x3a) (s := c :: t)
    rcases hRead hAbsolute with ⟨hSlashes, hHost⟩
    rw [hCut] at hText hNot hSlashes hHost
    rw [Option.getD_some] at hSlashes hHost
    dsimp only at hText hNot
    have hLen : (c :: t).length = (b :: front).length + 1 + rest.length := by
      rw [← hText, List.length_append, prefixed, List.length_cons, List.length_cons]
      omega
    have hMem : c :: t ++ post = (b :: front) ++ 0x3a :: (rest ++ post) := by
      rw [← hText]
      simp [prefixed]
    rcases parseAbsolute_spec hNot (by simp)
      (by omega) hSlashes hHost with ⟨r, flag, hParse, hAcc, hr⟩
    rw [if_pos rfl, hMem, hLen, hParse]
    refine ⟨r, flag, true, hLen ▸ hAbsolute, rfl, ?_, ?_⟩
    · rw [hAcc, hCut]
      exact ⟨fun h _ => h, fun h => h rfl⟩
    · intro hFlag
      rw [hr hFlag, uriParts, if_pos rfl, hCut]
      rfl

----
-- Where the Components Are
----

variable {s t : List UInt8} {ptr : Option Nat} {len : Nat}
variable {o : Option (List UInt8)} {u : UriParts}

/- The component is a piece of the string. -/
def Located
    (s : List UInt8) (ptr : Option Nat)
    (len : Nat) : Option (List UInt8) → Prop
| none => ptr = none
| some t => ∃ pre post, s = pre ++ (t ++ post) ∧ ptr = some pre.length ∧ len = t.length

/- The bytes of a component. -/
def component
    (mem : List UInt8) (ptr : Option Nat) (len : Nat) : Option (List UInt8) :=
  ptr.map fun p => (mem.drop p).take len

theorem Located.component_eq
    (hLocated : Located s ptr len o) :
    component (s ++ t) ptr len = o := by
  cases o with
  | none =>
    rw [hLocated]
    rfl
  | some b =>
    rcases hLocated with ⟨pre, post, rfl, rfl, rfl⟩
    rw [component, Option.map_some, List.append_assoc,
      List.drop_left, List.append_assoc, List.take_left]

theorem Located.le
    (hLocated : Located s ptr len o) {p : Nat} (hp : ptr = some p) :
    p + len ≤ s.length := by
  cases o with
  | none =>
    rw [hLocated] at hp
    cases hp
  | some b =>
    rcases hLocated with ⟨pre, post, rfl, rfl, rfl⟩
    cases hp
    rw [List.length_append, List.length_append]
    omega

theorem located_scheme :
    Located u.text u.layout.scheme u.layout.schemeLen u.scheme := by
  rcases u with ⟨scheme, authority, path, query⟩
  cases scheme with
  | none => cases authority <;> rfl
  | some scheme =>
    have hText := List.append_assoc scheme [0x3a]
        ((match authority with
          | none => []
          | some A => 0x2f :: 0x2f :: A.text) ++
          (path ++ prefixed 0x3f query))
    cases authority <;> exact ⟨[], _, hText, rfl, rfl⟩

theorem located_userinfo :
    Located u.text u.layout.userinfo u.layout.userinfoLen
      (u.authority.bind AuthorityParts.userinfo) := by
  rcases u with ⟨scheme, authority, path, query⟩
  cases authority with
  | none => rfl
  | some A =>
    rcases A with ⟨userinfo, host, port⟩
    cases userinfo with
    | none => rfl
    | some userinfo =>
      refine ⟨suffixed 0x3a scheme ++ [0x2f, 0x2f],
        0x40 :: (host ++ prefixed 0x3a port ++ (path ++ prefixed 0x3f query)), ?_, ?_, rfl⟩
      · simp [UriParts.text, AuthorityParts.text, suffixed]
      · rw [List.length_append]
        rfl

theorem located_host :
    Located u.text u.layout.host u.layout.hostLen (u.authority.map AuthorityParts.host) := by
  rcases u with ⟨scheme, authority, path, query⟩
  cases authority with
  | none => rfl
  | some A =>
    rcases A with ⟨userinfo, host, port⟩
    refine ⟨suffixed 0x3a scheme ++ [0x2f, 0x2f] ++ suffixed 0x40 userinfo,
      prefixed 0x3a port ++ (path ++ prefixed 0x3f query), ?_, ?_, rfl⟩
    · simp [UriParts.text, AuthorityParts.text]
    · rw [List.length_append, List.length_append]
      rfl

theorem located_port :
    Located u.text u.layout.port u.layout.portLen (u.authority.bind AuthorityParts.port) := by
  rcases u with ⟨scheme, authority, path, query⟩
  cases authority with
  | none => rfl
  | some A =>
    rcases A with ⟨userinfo, host, port⟩
    cases port with
    | none => rfl
    | some port =>
      refine ⟨suffixed 0x3a scheme ++ [0x2f, 0x2f] ++ suffixed 0x40 userinfo ++ host ++ [0x3a],
        path ++ prefixed 0x3f query, ?_, ?_, rfl⟩
      · simp [UriParts.text, AuthorityParts.text, prefixed]
      · rw [List.length_append, List.length_append, List.length_append, List.length_append]
        rfl

/- What stands before the path. -/
def UriParts.front
    (u : UriParts) : List UInt8 :=
  suffixed 0x3a u.scheme ++ (match u.authority with
    | none => []
    | some A => 0x2f :: 0x2f :: A.text)

theorem path_layout :
    u.layout.path = some u.front.length := by
  rcases u with ⟨scheme, authority, path, query⟩
  cases authority with
  | none => simp [UriParts.layout, UriParserResult.putPath, UriParts.front]
  | some A =>
    simp [UriParts.layout, UriParserResult.putPath, UriParts.front]
    omega

theorem query_layout :
    u.layout.query = u.query.map fun _ => u.front.length + u.path.length + 1 := by
  rcases u with ⟨scheme, authority, path, query⟩
  cases authority with
  | none => simp [UriParts.layout, UriParserResult.putPath, UriParts.front]
  | some A =>
    simp [UriParts.layout, UriParserResult.putPath, UriParts.front]
    cases query with
    | none => rfl
    | some query =>
      rw [Option.map_some, Option.map_some, Option.some.injEq]
      omega

theorem text_eq_front :
    u.text = u.front ++ (u.path ++ prefixed 0x3f u.query) := by
  unfold UriParts.text UriParts.front
  exact (List.append_assoc _ _ _).symm

theorem located_path :
    Located u.text u.layout.path u.layout.pathLen (some u.path) := by
  refine ⟨u.front, prefixed 0x3f u.query, text_eq_front, path_layout, ?_⟩
  rw [UriParts.layout]
  cases u.authority <;> rfl

theorem located_query :
    Located u.text u.layout.query u.layout.queryLen u.query := by
  have hQuery := query_layout (u := u)
  cases hOption : u.query with
  | none =>
    rw [hOption] at hQuery
    exact hQuery
  | some query =>
    rw [hOption] at hQuery
    refine ⟨u.front ++ (u.path ++ [0x3f]), [], ?_, ?_, ?_⟩
    · rw [text_eq_front, hOption]
      simp [prefixed]
    · rw [hQuery, List.length_append, List.length_append]
      rfl
    · rw [UriParts.layout]
      cases u.authority <;> simp [UriParserResult.putPath, hOption]

----
-- Inside the Buffer
----

variable {s rest buf : List UInt8} {r : UriParserResult}

/- Every component that is not NULL ends inside the buffer. -/
def InsideBuffer
    (r : UriParserResult) (n : Nat) : Prop :=
  ∀ c ∈
    [(r.scheme, r.schemeLen), (r.userinfo, r.userinfoLen),
      (r.host, r.hostLen), (r.port, r.portLen), (r.path, r.pathLen), (r.query, r.queryLen)],
    ∀ p, c.1 = some p → p + c.2 ≤ n

/-
  Only the buffer is read, what follows makes no difference,
  and the components are inside.
-/
def StaysInside
    (buf : List UInt8) : Prop :=
  ∀ result, ∃ r accepted, uriParserProcess result buf buf.length = some (r, accepted) ∧
      (∀ rest, uriParserProcess result (buf ++ rest) buf.length = some (r, accepted)) ∧
      (accepted = true → InsideBuffer r buf.length)

/-
  The buffer is not empty. When it is a URI with a scheme, then
  two bytes follow the first colon, or only a NUL; and if they
  are "//", then the host or a slash follows them and the '@'.
-/
def PeeksInside
    (buf : List UInt8) : Prop :=
  buf ≠ [] ∧ (uriParserIsAbsolute buf buf.length = some true →
      SlashesReadable ((cut 0x3a buf).2.getD []) [] ∧ HostReadable ((cut 0x3a buf).2.getD []) [])

theorem insideBuffer_layout
    {u : UriParts} :
    InsideBuffer u.layout u.text.length := by
  intro c hc p hp
  simp only [List.mem_cons, List.not_mem_nil, or_false] at hc
  rcases hc with rfl | rfl | rfl | rfl | rfl | rfl
  · exact located_scheme.le hp
  · exact located_userinfo.le hp
  · exact located_host.le hp
  · exact located_port.le hp
  · exact located_path.le hp
  · exact located_query.le hp

theorem text_uriParts
    {absolute : Bool} (hAbsolute : uriParserIsAbsolute s s.length = some absolute) :
    (uriParts absolute s).text = s := by
  rcases exists_isAbsolute s with ⟨b, hb, hShape⟩
  rw [hAbsolute] at hb
  cases hb
  rw [uriParts]
  cases absolute with
  | false => exact text_relativeParts
  | true =>
    rcases hShape rfl with ⟨c, t, rest, hCut, _⟩
    have hText := cut_text (c := 0x3a) (s := s)
    rw [hCut] at hText
    rw [if_pos rfl, hCut, Option.getD_some, text_absoluteParts]
    exact hText

/- Where one of the bytes is missing, it is read nevertheless. -/
theorem parseAbsolute_eq_none
    {scheme : List UInt8} (hScheme : 0x3a ∉ scheme) (hStart : scheme ≠ [])
    (hLen : scheme.length + 1 + rest.length < 2 ^ 16)
    (hRead : ¬ (SlashesReadable rest [] ∧ HostReadable rest [])) :
    parseAbsolute (scheme ++ 0x3a :: rest) .zero 0 (scheme.length + 1 + rest.length) = none := by
  have hConsume := @consumeScheme_eq _ _ [] hScheme hStart hLen
  rw [List.append_nil] at hConsume
  rw [parseAbsolute, hConsume]
  by_cases hSlashes : SlashesReadable rest []
  · have hHost := not_and.mp hRead hSlashes
    have hSlashesAt := @slashesAt_spec scheme _ _ hSlashes
    rw [HostReadable, not_forall] at hHost
    rcases hHost with ⟨a, hHost⟩
    rw [Classical.not_imp, not_or, not_not] at hHost
    rcases hHost with ⟨hAfter, hEmpty, _⟩
    have hRest := afterSlashes_eq_some hAfter
    have hRestLen := congrArg List.length hRest
    rw [List.length_cons, List.length_cons] at hRestLen
    have hNone := @consumeAuthority_eq_none (scheme ++ 0x3a :: rest)
        (scheme ++ [0x3a, 0x2f, 0x2f]) a (scheme.length + 3) _
        (some scheme)
        (by rw [hRest]; simp) (by simp) (by omega) hLen hEmpty
    rw [List.append_nil, hAfter] at hSlashesAt
    rw [hSlashesAt, Option.map_some, Option.bind_eq_bind, Option.bind_some]
    dsimp only
    rw [Option.isSome_some, if_pos rfl, if_pos rfl, parseAuthority, hNone]
    rfl
  · rw [slashesAt_eq_none hSlashes]
    rfl

theorem staysInside_iff
    (hBuf : buf.length < 2 ^ 16) :
    StaysInside buf ↔ PeeksInside buf := by
  constructor
  · intro hInside
    rcases hInside .zero with ⟨r, accepted, hProcess, _⟩
    have hNotNil : buf ≠ [] := by
      rintro rfl
      cases hProcess
    refine ⟨hNotNil, fun hAbsolute => ?_⟩
    by_contra hRead
    rcases exists_isAbsolute buf with ⟨b, hb, hShape⟩
    rw [hAbsolute] at hb
    cases hb
    rcases hShape rfl with ⟨c, t, rest, hCut, hc⟩
    have hText := cut_text (c := 0x3a) (s := buf)
    have hNot := notMem_cut (c := 0x3a) (s := buf)
    rw [hCut] at hText hNot hRead
    rw [Option.getD_some] at hRead
    dsimp only at hText hNot
    rw [prefixed] at hText
    have hLen : buf.length = (c :: t).length + 1 + rest.length := by
      rw [← hText]
      simp only [List.length_append, List.length_cons]
      omega
    have hNone := parseAbsolute_eq_none hNot (by simp) (by omega) hRead
    rw [hText, ← hLen] at hNone
    have hFirst : buf[0]? = some c := by
      rw [← hText]
      rfl
    rw [uriParserProcess, hFirst, Option.bind_eq_bind, Option.bind_some, if_neg hc, hAbsolute,
      Option.bind_eq_bind, Option.bind_some, if_pos rfl, hNone]
      at hProcess
    cases hProcess
  · rintro ⟨hNotNil, hRead⟩ result
    have hOne :
        ∃ r accepted, uriParserProcess result buf buf.length = some (r, accepted) ∧
          (accepted = true → InsideBuffer r buf.length) := by
      cases buf with
      | nil => exact absurd rfl hNotNil
      | cons c t =>
        by_cases hc : c = 0
        · rw [hc]
          exact ⟨result, false, rfl, fun h => absurd h (by decide)⟩
        · rcases uriParserProcess_spec
            hBuf ⟨c, t, rfl, hc⟩ hRead with
            ⟨r, accepted, absolute, hAbsolute, hProcess, _, hr⟩
          rw [List.append_nil] at hProcess
          refine ⟨r, accepted, hProcess, fun h => ?_⟩
          have hInside := insideBuffer_layout (u := uriParts absolute (c :: t))
          rw [text_uriParts hAbsolute] at hInside
          rw [hr h]
          exact hInside
    rcases hOne with ⟨r, accepted, hProcess, hInside⟩
    exact ⟨r, accepted, hProcess,
      fun rest =>
        ignoresRest_uriParserProcess buf rest _ hProcess, hInside⟩

/- The string "a:b" and its first two bytes. -/
theorem staysInside_iff_sample :
    StaysInside [0x61, 0x3a, 0x62, 0x63] ∧ ¬ StaysInside [0x61, 0x3a, 0x62] := by
  constructor
  · refine (staysInside_iff (by decide)).mpr ⟨by decide, fun _ => ⟨.inl (by decide), ?_⟩⟩
    intro a ha
    cases ha
  · intro hInside
    have hPeeks := (staysInside_iff (by decide)).mp hInside
    rcases (hPeeks.2 (by decide)).1 with h | h | h
    · exact absurd h (by decide)
    · exact absurd h (by decide)
    · cases h

/- Behind "a:b" one more byte is read. -/
theorem not_staysInside :
    ¬ StaysInside [0x61, 0x3a, 0x62] := by
  intro hInside
  rcases hInside .zero with ⟨r, accepted, hProcess, _⟩
  cases hProcess

----
-- Strings
----

variable {s tail mem : List UInt8} {r result : UriParserResult}

/- The components put back together, with their delimiters. -/
def recompose
    (mem : List UInt8) (r : UriParserResult) : List UInt8 :=
  let part := component mem
  suffixed 0x3a (part r.scheme r.schemeLen) ++
    ((if r.host.isSome then
        0x2f :: 0x2f :: (suffixed 0x40 (part r.userinfo r.userinfoLen) ++
            ((part r.host r.hostLen).getD [] ++ prefixed 0x3a (part r.port r.portLen)))
      else []) ++ ((part r.path r.pathLen).getD [] ++ prefixed 0x3f (part r.query r.queryLen)))

theorem recompose_layout
    {u : UriParts} :
    recompose (u.text ++ tail) u.layout = u.text := by
  have hHost : u.layout.host.isSome = u.authority.isSome := by
    rw [UriParts.layout]
    cases u.authority <;> rfl
  rw [recompose, located_scheme.component_eq, located_userinfo.component_eq,
    located_host.component_eq, located_port.component_eq, located_path.component_eq,
    located_query.component_eq, hHost]
  rcases u with ⟨scheme, authority, path, query⟩
  cases authority <;> rfl

/- A string that was accepted, by its parts. -/
theorem uriParserProcessString_spec
    (hs : s.length < 2 ^ 16) (hText : 0 ∉ s) (hNotNil : s ≠ []) :
    ∃ r accepted absolute, uriParserIsAbsolute s s.length = some absolute ∧
        uriParserProcessString result (s ++ 0 :: tail) = some (r, accepted) ∧
        (accepted = true ↔ (absolute = true → RestAccepted ((cut 0x3a s).2.getD []))) ∧
        (accepted = true → r = (uriParts absolute s).layout) := by
  rw [uriParserProcessString, strlen_append hText, Option.bind_eq_bind, Option.bind_some]
  cases s with
  | nil => exact absurd rfl hNotNil
  | cons c t =>
    have hc : c ≠ 0 := by
      rintro rfl
      exact hText List.mem_cons_self
    exact uriParserProcess_spec hs ⟨c, t, rfl, hc⟩ fun _ =>
      ⟨.inr (.inr rfl), fun _ _ => .inr rfl⟩

theorem ne_nil_of_accepted
    (hProcess : uriParserProcessString result (s ++ 0 :: tail) = some (r, true)) :
    s ≠ [] := by
  rintro rfl
  cases hProcess

/- Nothing of the string is lost, and nothing is there twice. -/
theorem recompose_eq
    (hs : s.length < 2 ^ 16) (hText : 0 ∉ s)
    (hProcess : uriParserProcessString result (s ++ 0 :: tail) = some (r, true)) :
    recompose (s ++ 0 :: tail) r = s := by
  rcases uriParserProcessString_spec
    hs hText (ne_nil_of_accepted hProcess) with
    ⟨r', accepted, absolute, hAbsolute, hSpec, _, hr⟩
  rw [hProcess] at hSpec
  cases hSpec
  have hParts := @recompose_layout (0 :: tail) (uriParts absolute s)
  rw [text_uriParts hAbsolute] at hParts
  rw [hr rfl]
  exact hParts

/- The string "a://u@b:1/c?d". -/
theorem recompose_eq_sample :
    recompose
        [0x61, 0x3a, 0x2f, 0x2f, 0x75, 0x40, 0x62, 0x3a, 0x31, 0x2f, 0x63, 0x3f, 0x64, 0]
        ⟨some 0, some 4, some 6, some 8, some 9, some 12, 1, 1, 1, 1, 2, 1⟩ =
      [0x61, 0x3a, 0x2f, 0x2f, 0x75, 0x40, 0x62, 0x3a, 0x31, 0x2f, 0x63, 0x3f, 0x64] :=
  @recompose_eq
    [0x61, 0x3a, 0x2f, 0x2f, 0x75, 0x40, 0x62, 0x3a, 0x31, 0x2f, 0x63, 0x3f, 0x64]
    [] _ .zero
    (by decide) (by decide) (by decide)

----
-- Hosts in Brackets
----

variable {s t h auth after tail : List UInt8}

/-
  A host that begins with '[' has a ']', and the colon before
  the port stands directly behind the first one.
-/
def HostClosed
    (mem : List UInt8) (r : UriParserResult) : Prop :=
  ∀ p host, r.host = some p → component mem r.host r.hostLen = some host →
    host.head? = some 0x5b → ∃ b t, host = b ++ 0x5d :: t ∧ 0x5d ∉ b ∧
          ∀ port, r.port = some port → port = p + b.length + 2 ∧ mem[p + b.length + 1]? = some 0x3a

/- So it is with every result for the string. -/
def HostBracketed
    (s : List UInt8) : Prop :=
  ∀ result tail r,
    uriParserProcessString result (s ++ 0 :: tail) = some (r, true) → HostClosed (s ++ 0 :: tail) r

/-
  A host part that begins with '[' ends with a colon, or there
  is a ']' in it or behind it, and what is behind the first ']'
  in it has no colon but at its very start.
-/
def BracketsClosed
    (h after : List UInt8) : Prop :=
  h.head? = some 0x5b →
    h.getLast? = some 0x3a ∨ (0x5d ∈ h ++ after ∧ ∀ t, (cut 0x5d h).2 = some t → 0x3a ∉ t.tail)

/- The host part of a URI with an authority is so. -/
def UriBracketsClosed
    (s : List UInt8) : Prop :=
  uriParserIsAbsolute s s.length = some true → ∀ rest a, (cut 0x3a s).2 = some rest →
      afterSlashes rest = some a →
        BracketsClosed (hostPart (splitAuthority a).1) (splitAuthority a).2

theorem cutLast_append_singleton
    (c : UInt8) (f : List UInt8) :
    cutLast c (f ++ [c]) = (f, some []) := by
  induction f with
  | nil => rw [List.nil_append, cutLast, if_neg (by simp [cutLast]), if_pos rfl]
  | cons b f ih =>
    rw [List.cons_append, cutLast, ih]
    rfl

/- Nothing is before the last `c`, unless it is not the first. -/
theorem cutLast_fst_eq_nil_iff
    {c : UInt8} :
    ((cutLast c s).2.isSome → (cutLast c s).1 = []) ↔ c ∉ s.tail := by
  cases s with
  | nil => simp [cutLast]
  | cons b s =>
    have hNone := cutLast_eq_none_iff (c := c) (s := s)
    rw [cutLast, List.tail_cons, ← hNone]
    cases hLast : (cutLast c s).2 with
    | some t => simp
    | none => by_cases hb : b = c <;> simp [hb]

/- An empty port is a colon at the end. -/
theorem cutLast_eq_some_nil_iff :
    (cutLast 0x3a s).2 = some [] ↔ s.getLast? = some 0x3a := by
  constructor
  · intro hLast
    have hText := cutLast_text (c := 0x3a) (s := s)
    rw [hLast, prefixed] at hText
    rw [← hText, List.getLast?_concat]
  · intro hLast
    rcases List.getLast?_eq_some_iff.mp hLast with ⟨f, rfl⟩
    rw [cutLast_append_singleton]

/- What is said of the host, for the parts of an authority. -/
def AuthorityParts.HostClosed
    (A : AuthorityParts) : Prop :=
  A.host.head? = some 0x5b → ∃ b t, A.host = b ++ 0x5d :: t ∧ 0x5d ∉ b ∧ (A.port.isSome → t = [])

/- The host begins as the host part does. -/
theorem head_host_iff :
    (authorityParts auth).host.head? = some 0x5b ↔ (hostPart auth).head? = some 0x5b := by
  have hHost :
      (authorityParts auth).host ++ prefixed 0x3a (authorityParts auth).port = hostPart auth :=
    hostPart_text
  rw [← hHost]
  cases (authorityParts auth).host with
  | nil => cases (authorityParts auth).port <;> simp [prefixed]
  | cons b h => rfl

theorem bracketsClosed_iff :
    BracketsClosed (hostPart auth) after ↔
      (AuthorityAccepted auth after → (authorityParts auth).HostClosed) := by
  rw [AuthorityParts.HostClosed, head_host_iff]
  by_cases hHead : (hostPart auth).head? = some 0x5b
  · have hNotNil : (authorityParts auth).host ≠ [] := by
      intro hNil
      have hHost := @head_host_iff auth
      rw [hNil] at hHost
      exact absurd (hHost.mpr hHead) (by simp)
    have hAccepted : AuthorityAccepted auth after ↔
          ¬ MarkerBeyond (hostPart auth) after ∧ (authorityParts auth).port ≠ some [] :=
      ⟨fun h => ⟨h.1, h.2.1⟩, fun h => ⟨h.1, h.2, fun h => hNotNil h.1⟩⟩
    have hPortText := @hostPart_text auth
    have hPort : (authorityParts auth).port = (cutLast 0x3a (keptPart (hostPart auth)).2).2 := rfl
    have hHost : (authorityParts auth).host =
          (keptPart (hostPart auth)).1 ++ (cutLast 0x3a (keptPart (hostPart auth)).2).1 := rfl
    rw [hAccepted, BracketsClosed]
    generalize authorityParts auth = A at *
    generalize hostPart auth = h at *
    rw [keptPart, if_pos hHead] at hPort hHost
    cases hCut : (cut 0x5d h).2 with
    | none =>
      -- No host that is cut off has a marker either.
      have hNot := cut_eq_none_iff.mp hCut
      rw [hCut] at hPort hHost
      dsimp only at hPort
      have hNone : ¬ ∃ b t, A.host = b ++ 0x5d :: t ∧ 0x5d ∉ b ∧ (A.port.isSome → t = []) := by
        rintro ⟨b, t, hb, _⟩
        rw [← hPortText, hb] at hNot
        exact hNot (by simp)
      rw [hPort, ne_eq, cutLast_eq_some_nil_iff]
      constructor
      · rintro hClosed ⟨hBeyond, hPortNot⟩ _
        rcases hClosed hHead with hLast | ⟨hMem, _⟩
        · exact absurd hLast hPortNot
        · have hAfter := (List.mem_append.mp hMem).resolve_left hNot
          exact absurd ⟨hHead, hNot, hAfter⟩ hBeyond
      · intro hOk _
        by_contra hOpen
        rw [not_or] at hOpen
        refine hNone (hPort ▸ hOk ⟨fun hBeyond => ?_, hOpen.1⟩ hHead)
        exact hOpen.2 ⟨List.mem_append_right h hBeyond.2.2, fun t ht => by
            cases ht⟩
    | some t =>
      have hText := cut_text (c := 0x5d) (s := h)
      have hNot := notMem_cut (c := 0x5d) (s := h)
      rw [hCut] at hPort hHost hText
      generalize (cut 0x5d h).1 = b at *
      dsimp only at hPort hHost hText
      rw [prefixed] at hText
      rw [List.append_assoc] at hHost
      have hMem : 0x5d ∈ h := by
        rw [← hText]
        simp
      have hLast : A.port = some [] ↔ h.getLast? = some 0x3a := by
        rw [hPort, cutLast_eq_some_nil_iff, ← hText]
        cases t <;> simp
      have hOk : (∃ b t, A.host = b ++ 0x5d :: t ∧ 0x5d ∉ b ∧ (A.port.isSome → t = [])) ↔
            0x3a ∉ t.tail := by
        rw [← cutLast_fst_eq_nil_iff, ← hPort]
        constructor
        · rintro ⟨b', t', hb', hNot', hEmpty⟩
          have hSame := cut_append_cons (t := (cutLast 0x3a t).1) hNot
          have hHost' : b ++ 0x5d :: (cutLast 0x3a t).1 = b' ++ 0x5d :: t' := by
            rw [← hb', hHost]
            rfl
          rw [hHost', cut_append_cons hNot', Prod.mk.injEq, Option.some.injEq] at hSame
          rwa [hSame.2] at hEmpty
        · intro hEmpty
          exact ⟨b, _, hHost, hNot, hEmpty⟩
      rw [ne_eq, hLast, hOk]
      constructor
      · rintro hClosed ⟨_, hPortNot⟩ _
        rcases hClosed hHead with hLast | ⟨_, hTail⟩
        · exact absurd hLast hPortNot
        · exact hTail t rfl
      · intro hAll _
        by_cases hEnd : h.getLast? = some 0x3a
        · exact .inl hEnd
        · refine .inr ⟨List.mem_append_left after hMem, ?_⟩
          intro t' ht'
          cases ht'
          exact hAll ⟨fun hBeyond => hBeyond.2.1 hMem, hEnd⟩ hHead
  · exact iff_of_true (fun h => absurd h hHead) (fun _ h => absurd h hHead)

theorem hostClosed_layout
    {u : UriParts} {A : AuthorityParts} (hA : u.authority = some A) :
    HostClosed (u.text ++ tail) u.layout ↔ A.HostClosed := by
  have hComponent := (located_host (u := u)).component_eq (t := tail)
  rw [hA, Option.map_some] at hComponent
  obtain ⟨p, hHost, hPort, hColon⟩ : ∃ p, u.layout.host = some p ∧
          u.layout.port = (A.port.map fun _ => p + A.host.length + 1) ∧
          (A.port.isSome → (u.text ++ tail)[p + A.host.length]? = some 0x3a) := by
    refine ⟨(suffixed 0x3a u.scheme).length + 2 + (suffixed 0x40 A.userinfo).length, ?_, ?_, ?_⟩
    · rw [UriParts.layout, hA]
      rfl
    · rw [UriParts.layout, hA]
      rfl
    · intro hSome
      rcases Option.isSome_iff_exists.mp hSome with ⟨port, hp⟩
      apply @getElem_at _
        (suffixed 0x3a u.scheme ++ 0x2f :: 0x2f :: (suffixed 0x40 A.userinfo ++ A.host))
        (port ++ (u.path ++ prefixed 0x3f u.query) ++ tail)
      · rw [UriParts.text, hA]
        simp [AuthorityParts.text, hp, prefixed]
      · simp only [List.length_append, List.length_cons]
        omega
  rw [hHost] at hComponent
  constructor
  · intro hClosed hHead
    rcases hClosed p A.host hHost (hHost ▸ hComponent) hHead with ⟨b, t, hText, hNot, hAll⟩
    refine ⟨b, t, hText, hNot, fun hSome => ?_⟩
    rcases Option.isSome_iff_exists.mp hSome with ⟨port, hp⟩
    rw [hp, Option.map_some] at hPort
    have hLen := (hAll _ hPort).1
    rw [hText, List.length_append, List.length_cons] at hLen
    exact List.length_eq_zero_iff.mp (by omega)
  · intro hClosed p' host hp' hHost' hHead
    rw [hHost] at hp'
    cases hp'
    rw [hHost, hComponent] at hHost'
    cases hHost'
    rcases hClosed hHead with ⟨b, t, hText, hNot, hEmpty⟩
    refine ⟨b, t, hText, hNot, fun port hPort' => ?_⟩
    rw [hPort] at hPort'
    rcases Option.map_eq_some_iff.mp hPort' with ⟨q, hq, rfl⟩
    have hSome : A.port.isSome = true := by
      rw [hq]
      rfl
    have hLen : A.host.length = b.length + 1 := by
      rw [hText, hEmpty hSome, List.length_append]
      rfl
    rw [hLen] at hColon ⊢
    exact ⟨rfl, hColon hSome⟩

end Riot
