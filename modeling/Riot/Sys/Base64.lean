import Riot.Lib.ByteBuffer

/-
  The functions of the base64 module.

  A pointer is `none` when it is NULL, and else the bytes that
  it points to. The sizes of objects in memory are far below
  the limit of size_t, so the estimates do not wrap around.
  The result `none` says that a byte outside of a buffer is
  written.
-/

open ByteBuffer

----
-- Encoding
----

namespace Riot

inductive Base64Ret
| success
| errorBufferOut
| errorBufferOutSize
| errorDataIn
| errorDataInSize
deriving DecidableEq, Repr

/- The return value, the output buffer and its size. -/
structure Base64Result where
  ret : Base64Ret
  out : Option (List UInt8)
  outSize : Nat
deriving DecidableEq, Repr

def base64EstimateDecodeSize
    (base64InSize : Nat) : Nat :=
  (base64InSize + 3) / 4 * 3

def base64EstimateEncodeSize
    (dataInSize : Nat) : Nat :=
  4 * ((dataInSize + 2) / 3)

/- The flag says whether MODULE_BASE64URL is active. -/
def getsymbol
    (base64url : Bool) (code : UInt8) (urlsafe : Bool) : UInt8 :=
  let urlsafe := if !base64url then false else urlsafe
  if urlsafe ∧ code = 63 then 0x5f
  else if urlsafe ∧ code = 62 then 0x2d
  else if !urlsafe ∧ code = 63 then 0x2f
  else if !urlsafe ∧ code = 62 then 0x2b
  else if code ≤ 25 then code + 0x41
  else if code ≤ 51 then code + (0x7a - 51)
  else if code ≤ 61 then code + (0x39 - 61)
  else 0xff

/- The four codes of three bytes. -/
def threeByteCodes
    (b₁ b₂ b₃ : UInt8) : List UInt8 :=
  [b₁ >>> 2, ((b₁ &&& 0x03) <<< 4) ||| (b₂ >>> 4),
    ((b₂ &&& 0x0f) <<< 2) ||| (b₃ >>> 6), b₃ &&& 0x3f]

def encodeThreeBytes
    (base64url : Bool) (b₁ b₂ b₃ : UInt8) (urlsafe : Bool) : List UInt8 :=
  (threeByteCodes b₁ b₂ b₃).map (fun code => getsymbol base64url code urlsafe)

/- The loop of base64_encode_base and what comes after it. -/
def encodeLoop
    (base64url urlsafe : Bool) :
    List UInt8 → List UInt8 → Nat → Option (List UInt8)
| b₁ :: b₂ :: b₃ :: bs, buf, out => do
    let buf ← writeBytes buf out (encodeThreeBytes base64url b₁ b₂ b₃ urlsafe)
    encodeLoop base64url urlsafe bs buf (out + 4)
| [], buf, _ => some buf
| [b₁], buf, out => do
    let buf ← writeBytes buf out (encodeThreeBytes base64url b₁ 0 0 urlsafe)
    writeBytes buf (out + 2) [0x3d, 0x3d]
| [b₁, b₂], buf, out => do
    let buf ← writeBytes buf out (encodeThreeBytes base64url b₁ b₂ 0 urlsafe)
    writeBytes buf (out + 3) [0x3d]

def base64EncodeBase
    (base64url : Bool) (dataIn : Option (List UInt8)) (base64Out : Option (List UInt8))
    (base64OutSize : Nat) (urlsafe : Bool) : Option Base64Result :=
  match dataIn with
  | none => some ⟨.errorDataIn, base64Out, base64OutSize⟩
  | some data =>
    let requiredSize := base64EstimateEncodeSize data.length
    if data.length = 0 then
      some ⟨.success, base64Out, 0⟩
    else if base64OutSize < requiredSize then
      some ⟨.errorBufferOutSize, base64Out, requiredSize⟩
    else
      match base64Out with
      | none => some ⟨.errorBufferOut, none, base64OutSize⟩
      | some buf => do
          let buf ← encodeLoop base64url urlsafe data buf 0
          some ⟨.success, some buf, requiredSize⟩

def base64Encode
    (base64url : Bool) (dataIn : Option (List UInt8)) (base64Out : Option (List UInt8))
    (base64OutSize : Nat) : Option Base64Result :=
  base64EncodeBase base64url dataIn base64Out base64OutSize false

/- Only with MODULE_BASE64URL. -/
def base64urlEncode
    (dataIn : Option (List UInt8)) (base64Out : Option (List UInt8))
    (base64OutSize : Nat) : Option Base64Result :=
  base64EncodeBase true dataIn base64Out base64OutSize true

----
-- Decoding
----

/-
  A char from 128 on is negative or more than 'z', as the
  compiler has it, and no symbol in both cases.
-/
def getcode
    (symbol : UInt8) : UInt8 :=
  if symbol = 0x2f then 63
  else if symbol = 0x5f then 63
  else if symbol = 0x2b then 62
  else if symbol = 0x2d then 62
  else if symbol = 0x3d then 0xfe
  else if symbol < 0x30 then 0xff
  else if symbol ≤ 0x39 ∧ symbol ≥ 0x30 then
    symbol + (61 - 0x39)
  else if symbol ≤ 0x5a ∧ symbol ≥ 0x41 then symbol - 0x41
  else if symbol ≤ 0x7a ∧ symbol ≥ 0x61 then
    symbol + (51 - 0x7a)
  else 0xff

def decodeFourCodes
    (src : List UInt8) : List UInt8 :=
  [(src.getD 0 0 <<< 2) ||| (src.getD 1 0 >>> 4), (src.getD 1 0 <<< 4) ||| (src.getD 2 0 >>> 2),
    (src.getD 2 0 <<< 6) ||| src.getD 3 0]

/- The cases at the end of the input, by the fill level. -/
def decodeEnd
    (codes buf : List UInt8) (out : Nat) : Option (Base64Ret × List UInt8 × Nat) :=
  if codes.length = 0 then
    some (.success, buf, out)
  else if codes.length = 1 then
    some (.errorDataInSize, buf, out)
  else if codes.length = 2 then do
    let buf ← writeBytes buf out (decodeFourCodes (codes ++ [0, 0]))
    some (.success, buf, out + 1)
  else do
    let buf ← writeBytes buf out (decodeFourCodes (codes ++ [0]))
    some (.success, buf, out + 2)

/-
  The loops of base64_decode, with the codes that were loaded
  into the decode buffer. The result has the end of the output.
-/
def decodeLoop :
    List UInt8 → List UInt8 → List UInt8 → Nat → Option (Base64Ret × List UInt8 × Nat)
| [], codes, buf, out => decodeEnd codes buf out
| c :: inp, codes, buf, out =>
  let code := getcode c
  if code = 0xff ∨ code = 0xfe then
    decodeLoop inp codes buf out
  else
    let codes := codes ++ [code]
    if codes.length < 4 then
      decodeLoop inp codes buf out
    else do
      let buf ← writeBytes buf out (decodeFourCodes codes)
      decodeLoop inp [] buf (out + 3)

def base64Decode
    (base64In : Option (List UInt8)) (dataOut : Option (List UInt8))
    (dataOutSize : Nat) : Option Base64Result :=
  match base64In with
  | none => some ⟨.errorDataIn, dataOut, dataOutSize⟩
  | some text =>
    let requiredSize := base64EstimateDecodeSize text.length
    if dataOutSize < requiredSize then
      some ⟨.errorBufferOutSize, dataOut, requiredSize⟩
    else
      match dataOut with
      | none => some ⟨.errorBufferOut, none, dataOutSize⟩
      | some buf => do
          let (ret, buf, out) ← decodeLoop text [] buf 0
          let outSize :=
            if ret = .success then out else dataOutSize
          some ⟨ret, some buf, outSize⟩

end Riot
