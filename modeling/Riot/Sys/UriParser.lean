import Riot.Lib.ByteBuffer

/-
  The parser for URIs.

  The memory that the string is in begins with the string, and
  a pointer is an index of it; NULL is `none`. The result
  `none` says that a byte behind the memory is read. The
  caller passes a pointer that is not NULL.
-/

open ByteBuffer

----
-- Searching
----

namespace Riot

/- The loop of _strchrb, with the number of bytes left. -/
def strchrbLoop
    (mem : List UInt8) (c : UInt8) : Nat → Nat → Option (Option Nat)
| 0, _ => some none
| n + 1, start => do
    let b ← mem[start]?
    if b = c then some (some start)
    else strchrbLoop mem c n (start + 1)

def strchrb
    (mem : List UInt8) (start stop : Nat) (c : UInt8) : Option (Option Nat) :=
  strchrbLoop mem c (stop - start) start

def isAlpha
    (c : UInt8) : Bool :=
  (c ≥ 0x41 ∧ c ≤ 0x5a) ∨ (c ≥ 0x61 ∧ c ≤ 0x7a)

def isSchemeChar
    (c : UInt8) : Bool :=
  isAlpha c ∨ (c ≥ 0x30 ∧ c ≤ 0x39) ∨ c = 0x2b ∨ c = 0x2d ∨ c = 0x2e

/- The loop over the characters before the colon. -/
def schemeLoop
    (mem : List UInt8) : Nat → Nat → Option Bool
| 0, _ => some true
| n + 1, i => do
    let c ← mem[i]?
    if !isSchemeChar c then some false
    else schemeLoop mem n (i + 1)

def uriParserIsAbsolute
    (mem : List UInt8)
    (uriLen : Nat) : Option Bool := do
  let colon ← strchrb mem 0 uriLen 0x3a
  match colon with
  | none => some false
  | some colon => do
      let first ← mem[0]?
      if !isAlpha first then some false
      else schemeLoop mem colon 0

----
-- Components
----

structure UriParserResult where
  scheme : Option Nat
  userinfo : Option Nat
  host : Option Nat
  port : Option Nat
  path : Option Nat
  query : Option Nat
  schemeLen : Nat
  userinfoLen : Nat
  hostLen : Nat
  portLen : Nat
  pathLen : Nat
  queryLen : Nat
deriving DecidableEq, Repr

/- What memset leaves. -/
def UriParserResult.zero : UriParserResult :=
  ⟨none, none, none, none, none, none, 0, 0, 0, 0, 0, 0⟩

/- A value stored in 16 bits. -/
def u16
    (x : Int) : Nat :=
  (x % 2 ^ 16).toNat

/- The test for "//", which stops at the first NUL. -/
def slashesAt
    (mem : List UInt8)
    (p : Nat) : Option Bool := do
  let b₁ ← mem[p + 1]?
  if b₁ = 0 then some false
  else do
    let b₂ ← mem[p + 2]?
    some (b₂ ≠ 0 ∧ b₁ = 0x2f ∧ b₂ = 0x2f)

/- The flag says whether there is an authority. -/
def consumeScheme
    (mem : List UInt8) (result : UriParserResult) (uri uriEnd : Nat) :
    Option (UriParserResult × Bool × Option Nat) := do
  let first ← mem[uri]?
  if first = 0x3a then some (result, false, none)
  else do
    -- The colon was found before.
    let found ← strchrb mem uri uriEnd 0x3a
    let p ← found
    let result :=
      { result with scheme := some uri, schemeLen := u16 (p - uri) }
    let hasAuthority ← slashesAt mem p
    some (result, hasAuthority, some (if hasAuthority then p + 3 else p + 1))

def consumeUserinfo
    (mem : List UInt8) (result : UriParserResult)
    (uri authorityEnd : Nat) : Option UriParserResult := do
  let userinfoEnd ← strchrb mem uri authorityEnd 0x40
  match userinfoEnd with
  | none => some result
  | some userinfoEnd =>
    let userinfoLen := u16 (userinfoEnd - uri)
    some
      { result with
        userinfo := some uri
        userinfoLen := userinfoLen
        host := result.host.map (· + (userinfoLen + 1))
        hostLen := u16 (result.hostLen - (userinfoLen + 1)) }

/- The loop of _consume_port, from a position in the authority. -/
def portLoop
    (mem : List UInt8)
    (authorityEnd : Nat) : Nat → Nat → Option Nat
| 0, _ => none
| n + 1, p => do
    let next ← strchrb mem (p + 1) authorityEnd 0x3a
    match next with
    | none => some p
    | some p => portLoop mem authorityEnd n p

def portBegin
    (mem : List UInt8) (p authorityEnd : Nat) : Option (Option Nat) :=
  if p < authorityEnd then
    (portLoop mem authorityEnd (authorityEnd - p) p).map some
  else
    some none

/- The flag says whether the port was accepted. -/
def consumePort
    (mem : List UInt8) (result : UriParserResult) (ipv6End : Option Nat)
    (authorityEnd : Nat) : Option (UriParserResult × Bool) := do
  let host ← result.host
  let begin? ← portBegin mem (ipv6End.getD host) authorityEnd
  match begin? with
  | none => some (result, true)
  | some b => do
      let first ← mem[b]?
      if first = 0x3a then
        if b + 1 = authorityEnd then some (result, false)
        else
          let portLen := u16 (authorityEnd - (b + 1 : Nat))
          some
            ({ result with
                port := some (b + 1)
                portLen := portLen
                hostLen := u16 (result.hostLen - (portLen + 1)) }, true)
      else
        some (result, true)

/- The end marker of an IPv6 address, if there is one. -/
def ipv6Marker
    (mem : List UInt8) (host uriEnd : Nat) : Option (Option Nat) := do
  let first ← mem[host]?
  if first = 0x5b then strchrb mem host uriEnd 0x5d
  else some none

/-
  What follows the search for the end marker. The comparison
  of pointers is false for NULL.
-/
def finishAuthority
    (mem : List UInt8) (result : UriParserResult) (ipv6End : Option Nat) (authorityEnd : Nat) :
    Option (UriParserResult × Option Nat) :=
  if ipv6End.any (· ≥ authorityEnd) then some (result, none)
  else do
    let (result, accepted) ← consumePort mem result ipv6End authorityEnd
    if !accepted then some (result, none)
    else if result.hostLen = 0 ∧
        (result.userinfo.isSome ∨ result.port.isSome) then
      some (result, none)
    else
      some (result, some authorityEnd)

def consumeAuthority
    (mem : List UInt8) (result : UriParserResult) (uri uriEnd : Nat) :
    Option (UriParserResult × Option Nat) := do
  let slash ← strchrb mem uri uriEnd 0x2f
  let authorityEnd := slash.getD uriEnd
  let result :=
    { result with host := some uri, hostLen := u16 (authorityEnd - uri) }
  let result ← consumeUserinfo mem result uri authorityEnd
  let host ← result.host
  let ipv6End ← ipv6Marker mem host uriEnd
  finishAuthority mem result ipv6End authorityEnd

def consumePath
    (mem : List UInt8) (result : UriParserResult)
    (uri uriEnd : Nat) : Option (UriParserResult × Nat) := do
  let result :=
    { result with path := some uri, pathLen := u16 (uriEnd - uri) }
  let pathEnd ← strchrb mem uri uriEnd 0x3f
  match pathEnd with
  | none => some (result, uri + result.pathLen)
  | some pathEnd =>
    let queryLen := u16 (result.pathLen - (pathEnd - uri : Int) - 1)
    some
      ({ result with
          query := some (pathEnd + 1)
          queryLen := queryLen
          pathLen := u16 (result.pathLen - (queryLen + 1)) }, pathEnd + 1 + queryLen)

----
-- Parsing
----

/- The flag says whether the string was accepted. -/
def parseRelative
    (mem : List UInt8) (result : UriParserResult)
    (uri uriEnd : Nat) : Option (UriParserResult × Bool) := do
  let (result, uri) ← consumePath mem result uri uriEnd
  some (result, uri = uriEnd)

def parseAuthority
    (mem : List UInt8) (result : UriParserResult)
    (uri uriEnd : Nat) : Option (UriParserResult × Bool) := do
  let (result, next) ← consumeAuthority mem result uri uriEnd
  match next with
  | none => some (result, false)
  | some uri => parseRelative mem result uri uriEnd

def parseAbsolute
    (mem : List UInt8) (result : UriParserResult)
    (uri uriEnd : Nat) : Option (UriParserResult × Bool) := do
  let (result, hasAuthority, next) ← consumeScheme mem result uri uriEnd
  match next with
  | none => some (result, false)
  | some uri =>
    if hasAuthority then
      parseAuthority mem result uri uriEnd
    else
      parseRelative mem result uri uriEnd

def uriParserProcess
    (result : UriParserResult) (mem : List UInt8)
    (uriLen : Nat) : Option (UriParserResult × Bool) := do
  let first ← mem[0]?
  if first = 0 then some (result, false)
  else do
    let absolute ← uriParserIsAbsolute mem uriLen
    if absolute then parseAbsolute mem .zero 0 uriLen
    else parseRelative mem .zero 0 uriLen

def uriParserProcessString
    (result : UriParserResult) (mem : List UInt8) : Option (UriParserResult × Bool) := do
  let uriLen ← strlen mem
  uriParserProcess result mem uriLen

end Riot
