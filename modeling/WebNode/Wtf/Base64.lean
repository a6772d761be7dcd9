import WebNode.Lib.BigEndian

/-!
# `wtf/text/Base64.cpp`

Characters are numbers of 8 or 16 bits and `char` is a byte. The memory of a grown vector is
whatever was there.
-/

namespace WebNode.Wtf.Base64

/-! ### Alphabets -/

/-- The `char` -1. -/
def nonAlphabet : UInt8 := 0xFF

def base64EncMap : List UInt8 := [
  0x41, 0x42, 0x43, 0x44, 0x45, 0x46, 0x47, 0x48,
  0x49, 0x4A, 0x4B, 0x4C, 0x4D, 0x4E, 0x4F, 0x50,
  0x51, 0x52, 0x53, 0x54, 0x55, 0x56, 0x57, 0x58,
  0x59, 0x5A, 0x61, 0x62, 0x63, 0x64, 0x65, 0x66,
  0x67, 0x68, 0x69, 0x6A, 0x6B, 0x6C, 0x6D, 0x6E,
  0x6F, 0x70, 0x71, 0x72, 0x73, 0x74, 0x75, 0x76,
  0x77, 0x78, 0x79, 0x7A, 0x30, 0x31, 0x32, 0x33,
  0x34, 0x35, 0x36, 0x37, 0x38, 0x39, 0x2B, 0x2F]

def base64DecMap : List UInt8 := [
  nonAlphabet, nonAlphabet, nonAlphabet, nonAlphabet, nonAlphabet, nonAlphabet, nonAlphabet, nonAlphabet,
  nonAlphabet, nonAlphabet, nonAlphabet, nonAlphabet, nonAlphabet, nonAlphabet, nonAlphabet, nonAlphabet,
  nonAlphabet, nonAlphabet, nonAlphabet, nonAlphabet, nonAlphabet, nonAlphabet, nonAlphabet, nonAlphabet,
  nonAlphabet, nonAlphabet, nonAlphabet, nonAlphabet, nonAlphabet, nonAlphabet, nonAlphabet, nonAlphabet,
  nonAlphabet, nonAlphabet, nonAlphabet, nonAlphabet, nonAlphabet, nonAlphabet, nonAlphabet, nonAlphabet,
  nonAlphabet, nonAlphabet, nonAlphabet, 0x3E, nonAlphabet, nonAlphabet, nonAlphabet, 0x3F,
  0x34, 0x35, 0x36, 0x37, 0x38, 0x39, 0x3A, 0x3B,
  0x3C, 0x3D, nonAlphabet, nonAlphabet, nonAlphabet, nonAlphabet, nonAlphabet, nonAlphabet,
  nonAlphabet, 0x00, 0x01, 0x02, 0x03, 0x04, 0x05, 0x06,
  0x07, 0x08, 0x09, 0x0A, 0x0B, 0x0C, 0x0D, 0x0E,
  0x0F, 0x10, 0x11, 0x12, 0x13, 0x14, 0x15, 0x16,
  0x17, 0x18, 0x19, nonAlphabet, nonAlphabet, nonAlphabet, nonAlphabet, nonAlphabet,
  nonAlphabet, 0x1A, 0x1B, 0x1C, 0x1D, 0x1E, 0x1F, 0x20,
  0x21, 0x22, 0x23, 0x24, 0x25, 0x26, 0x27, 0x28,
  0x29, 0x2A, 0x2B, 0x2C, 0x2D, 0x2E, 0x2F, 0x30,
  0x31, 0x32, 0x33, nonAlphabet, nonAlphabet, nonAlphabet, nonAlphabet, nonAlphabet]

def base64URLEncMap : List UInt8 := [
  0x41, 0x42, 0x43, 0x44, 0x45, 0x46, 0x47, 0x48,
  0x49, 0x4A, 0x4B, 0x4C, 0x4D, 0x4E, 0x4F, 0x50,
  0x51, 0x52, 0x53, 0x54, 0x55, 0x56, 0x57, 0x58,
  0x59, 0x5A, 0x61, 0x62, 0x63, 0x64, 0x65, 0x66,
  0x67, 0x68, 0x69, 0x6A, 0x6B, 0x6C, 0x6D, 0x6E,
  0x6F, 0x70, 0x71, 0x72, 0x73, 0x74, 0x75, 0x76,
  0x77, 0x78, 0x79, 0x7A, 0x30, 0x31, 0x32, 0x33,
  0x34, 0x35, 0x36, 0x37, 0x38, 0x39, 0x2D, 0x5F]

def base64URLDecMap : List UInt8 := [
  nonAlphabet, nonAlphabet, nonAlphabet, nonAlphabet, nonAlphabet, nonAlphabet, nonAlphabet, nonAlphabet,
  nonAlphabet, nonAlphabet, nonAlphabet, nonAlphabet, nonAlphabet, nonAlphabet, nonAlphabet, nonAlphabet,
  nonAlphabet, nonAlphabet, nonAlphabet, nonAlphabet, nonAlphabet, nonAlphabet, nonAlphabet, nonAlphabet,
  nonAlphabet, nonAlphabet, nonAlphabet, nonAlphabet, nonAlphabet, nonAlphabet, nonAlphabet, nonAlphabet,
  nonAlphabet, nonAlphabet, nonAlphabet, nonAlphabet, nonAlphabet, nonAlphabet, nonAlphabet, nonAlphabet,
  nonAlphabet, nonAlphabet, nonAlphabet, nonAlphabet, nonAlphabet, 0x3E, nonAlphabet, nonAlphabet,
  0x34, 0x35, 0x36, 0x37, 0x38, 0x39, 0x3A, 0x3B,
  0x3C, 0x3D, nonAlphabet, nonAlphabet, nonAlphabet, nonAlphabet, nonAlphabet, nonAlphabet,
  nonAlphabet, 0x00, 0x01, 0x02, 0x03, 0x04, 0x05, 0x06,
  0x07, 0x08, 0x09, 0x0A, 0x0B, 0x0C, 0x0D, 0x0E,
  0x0F, 0x10, 0x11, 0x12, 0x13, 0x14, 0x15, 0x16,
  0x17, 0x18, 0x19, nonAlphabet, nonAlphabet, nonAlphabet, nonAlphabet, 0x3F,
  nonAlphabet, 0x1A, 0x1B, 0x1C, 0x1D, 0x1E, 0x1F, 0x20,
  0x21, 0x22, 0x23, 0x24, 0x25, 0x26, 0x27, 0x28,
  0x29, 0x2A, 0x2B, 0x2C, 0x2D, 0x2E, 0x2F, 0x30,
  0x31, 0x32, 0x33, nonAlphabet, nonAlphabet, nonAlphabet, nonAlphabet, nonAlphabet]

inductive Alphabet where
  | base64
  | base64URL
  deriving DecidableEq, Repr

def Alphabet.encodeMap : Alphabet → List UInt8
  | base64 => base64EncMap
  | base64URL => base64URLEncMap

def Alphabet.decodeMap : Alphabet → List UInt8
  | base64 => base64DecMap
  | base64URL => base64URLDecMap

/-! ### Encoding -/

inductive Base64EncodePolicy where
  | doNotInsertLFs
  | insertLFs
  | urlPolicy
  deriving DecidableEq, Repr

/-- `encodeMap[index]` -/
def encodeCharacter (alphabet : Alphabet) (index : Nat) : UInt8 := alphabet.encodeMap.getD index 0

/-- `UINT_MAX / 77 * 76 / 4 * 3 - 2` -/
def maxInputBufferSize : Nat := (2 ^ 32 - 1) / 77 * 76 / 4 * 3 - 2

def insertsLFs (policy : Base64EncodePolicy) (len : Nat) : Bool :=
  policy == .insertLFs && (len + 2) / 3 * 4 > 76

def outLength (policy : Base64EncodePolicy) (len : Nat) : Nat :=
  if insertsLFs policy len then (len + 2) / 3 * 4 + ((len + 2) / 3 * 4 - 1) / 76 else (len + 2) / 3 * 4

/-- A line feed, or nothing. -/
def lineFeed (inserted : Bool) : List UInt8 := if inserted then [10] else []

/-- The loop over groups of three bytes and the characters for the bytes behind them. `count` is
an `int` that wraps around. -/
def encodeGroups (alphabet : Alphabet) (insertLFs : Bool) : BitVec 32 → List UInt8 → List UInt8
  | count, a :: b :: c :: rest =>
    lineFeed (insertLFs && count != 0 && count.toInt.tmod 76 == 0) ++
      ([encodeCharacter alphabet (a.toNat >>> 2 &&& 0o77),
        encodeCharacter alphabet (b.toNat >>> 4 &&& 0o17 ||| a.toNat <<< 4 &&& 0o77),
        encodeCharacter alphabet (c.toNat >>> 6 &&& 0o3 ||| b.toNat <<< 2 &&& 0o77),
        encodeCharacter alphabet (c.toNat &&& 0o77)] ++
        encodeGroups alphabet insertLFs (if insertLFs then count + 4 else count) rest)
  | count, [a, b] =>
    lineFeed (insertLFs && count.toInt > 0 && count.toInt.tmod 76 == 0) ++
      [encodeCharacter alphabet (a.toNat >>> 2 &&& 0o77),
        encodeCharacter alphabet (b.toNat >>> 4 &&& 0o17 ||| a.toNat <<< 4 &&& 0o77),
        encodeCharacter alphabet (b.toNat <<< 2 &&& 0o77)]
  | count, [a] =>
    lineFeed (insertLFs && count.toInt > 0 && count.toInt.tmod 76 == 0) ++
      [encodeCharacter alphabet (a.toNat >>> 2 &&& 0o77), encodeCharacter alphabet (a.toNat <<< 4 &&& 0o77)]
  | _, [] => []

/-- `base64EncodeInternal`. Without a result, a character is written behind the end of `out`. -/
def base64EncodeInternal (alphabet : Alphabet) (policy : Base64EncodePolicy) (data : List UInt8) :
    Option (List UInt8) :=
  if data.length = 0 then some []
  else if data.length > maxInputBufferSize then some []
  else
    let written := encodeGroups alphabet (insertsLFs policy data.length) 0 data
    if written.length > outLength policy data.length then none
    else if policy = .urlPolicy then some written
    else some (written ++ List.replicate (outLength policy data.length - written.length) 61)

/-! ### Decoding -/

inductive Base64DecodePolicy where
  | failOnInvalidCharacterOrExcessPadding
  | failOnInvalidCharacter
  | ignoreWhitespace
  | ignoreInvalidCharacters
  deriving DecidableEq, Repr

/-- `isSpaceOrNewline`, with the characters beyond ASCII that Unicode calls white space. -/
def isSpaceOrNewline (isWhiteSpaceNeutral : Nat → Bool) (ch : Nat) : Bool :=
  if ch ≤ 0x7F then ch == 32 || (ch ≤ 0xD && ch ≥ 0x9) else isWhiteSpaceNeutral ch

def decodeCharacter (alphabet : Alphabet) (ch : Nat) : UInt8 :=
  if ch < 128 then alphabet.decodeMap.getD ch nonAlphabet else nonAlphabet

/-- `out` with its first `outLength` characters, and `equalsSignCount`. -/
structure Scanned where
  out : List UInt8
  outLength : Nat
  equalsSignCount : Nat

/-- The character makes decoding fail that is not in the alphabet. -/
def refuses (policy : Base64DecodePolicy) (isWhiteSpaceNeutral : Nat → Bool) (ch : Nat) : Bool :=
  policy == .failOnInvalidCharacterOrExcessPadding || policy == .failOnInvalidCharacter ||
    (policy == .ignoreWhitespace && !isSpaceOrNewline isWhiteSpaceNeutral ch)

/-- The loop over the characters, which may return false. -/
def scan (alphabet : Alphabet) (policy : Base64DecodePolicy) (isWhiteSpaceNeutral : Nat → Bool) (length : Nat) :
    List Nat → Scanned → Option Scanned
  | [], scanned => some scanned
  | ch :: rest, scanned =>
    if ch = 61 then
      if policy = .failOnInvalidCharacterOrExcessPadding ∧ (length % 4 ≠ 0 ∨ scanned.equalsSignCount + 1 > 2) then none
      else scan alphabet policy isWhiteSpaceNeutral length rest
        { scanned with equalsSignCount := scanned.equalsSignCount + 1 }
    else if decodeCharacter alphabet ch ≠ nonAlphabet then
      if scanned.equalsSignCount ≠ 0 then none
      else scan alphabet policy isWhiteSpaceNeutral length rest
        { scanned with
          out := scanned.out.set scanned.outLength (decodeCharacter alphabet ch), outLength := scanned.outLength + 1 }
    else if refuses policy isWhiteSpaceNeutral ch then none
    else scan alphabet policy isWhiteSpaceNeutral length rest scanned

/-- The first byte of a group. -/
def firstByte (out : List UInt8) (sidx : Nat) : UInt8 :=
  .ofNat ((out.getD sidx 0).toNat <<< 2 &&& 255 ||| (out.getD (sidx + 1) 0).toNat >>> 4 &&& 0o3)

/-- The second byte of a group. -/
def secondByte (out : List UInt8) (sidx : Nat) : UInt8 :=
  .ofNat ((out.getD (sidx + 1) 0).toNat <<< 4 &&& 255 ||| (out.getD (sidx + 2) 0).toNat >>> 2 &&& 0o17)

/-- The third byte of a group. -/
def thirdByte (out : List UInt8) (sidx : Nat) : UInt8 :=
  .ofNat ((out.getD (sidx + 2) 0).toNat <<< 6 &&& 255 ||| (out.getD (sidx + 3) 0).toNat &&& 0o77)

/-- One turn of the loop over groups of four characters, which writes one byte after the other. -/
def convertGroup (out : List UInt8) (sidx didx : Nat) : List UInt8 :=
  let out := out.set didx (firstByte out sidx)
  let out := out.set (didx + 1) (secondByte out sidx)
  out.set (didx + 2) (thirdByte out sidx)

/-- The loop over groups of four characters, and the bytes behind them. -/
def convert (outLength : Nat) : Nat → List UInt8 → Nat → Nat → List UInt8
  | fuel + 1, out, sidx, didx =>
    if outLength > 1 ∧ didx < outLength - 2 then convert outLength fuel (convertGroup out sidx didx) (sidx + 4)
    (didx + 3)
    else
      let out := if didx < outLength then out.set didx (firstByte out sidx) else out
      if didx + 1 < outLength then out.set (didx + 1) (secondByte out sidx) else out
  | 0, out, _, _ => out

/-- `base64DecodeInternal`: the output, if it returns true. -/
def base64DecodeInternal (alphabet : Alphabet) (policy : Base64DecodePolicy) (isWhiteSpaceNeutral : Nat → Bool)
    (memory : Nat → UInt8) (data : List Nat) : Option (List UInt8) := do
  if data.length = 0 then return []
  let scanned ← scan alphabet policy isWhiteSpaceNeutral data.length data ⟨(List.range data.length).map memory, 0, 0⟩
  if scanned.outLength = 0 then
    if scanned.equalsSignCount = 0 then return scanned.out else none
  else if scanned.outLength % 4 = 1 then none
  else
    let outLength := scanned.outLength - (scanned.outLength + 3) / 4
    if outLength = 0 then none
    else return (convert outLength (outLength + 1) scanned.out 0 0).take outLength

end WebNode.Wtf.Base64
