import WebNode.Wtf.Text

/-!
# Reading UTF-8, after `UTF8.cpp`

The three decoders share the length that a first byte announces, the check of a sequence and the
arithmetic that turns a sequence into a character.
-/

namespace WebNode.Wtf

/-! ### Sequences -/

def inlineUTF8SequenceLengthNonASCII (b0 : UInt8) : Nat :=
  if b0 &&& 0xC0 ≠ 0xC0 then 0
  else if b0 &&& 0xE0 = 0xC0 then 2
  else if b0 &&& 0xF0 = 0xE0 then 3
  else if b0 &&& 0xF8 = 0xF0 then 4
  else 0

def inlineUTF8SequenceLength (b0 : UInt8) : Nat := if b0 < 0x80 then 1 else inlineUTF8SequenceLengthNonASCII b0

/-- `source[i]` -/
def byteAt (source : List UInt8) (i : Nat) : UInt8 := source.getD i 0

/-- The cases of the outer switch for the third and the fourth byte. -/
def isTrailingByte (a : UInt8) : Bool := !(a < 0x80 || a > 0xBF)

/-- `case 2`. Only the default case of the inner switch checks that the byte is at least 0x80. -/
def isSecondByte (source : List UInt8) : Bool :=
  let a := byteAt source 1
  !(a > 0xBF) &&
    if byteAt source 0 = 0xE0 then !(a < 0xA0)
    else if byteAt source 0 = 0xED then !(a > 0x9F)
    else if byteAt source 0 = 0xF0 then !(a < 0x90)
    else if byteAt source 0 = 0xF4 then !(a > 0x8F)
    else !(a < 0x80)

/-- `case 1` and the check behind the switch. -/
def isFirstByte (source : List UInt8) : Bool :=
  !(byteAt source 0 ≥ 0x80 && byteAt source 0 < 0xC2) && !(byteAt source 0 > 0xF4)

def isLegalUTF8 (source : List UInt8) : Nat → Bool
  | 4 =>
    isTrailingByte (byteAt source 3) && isTrailingByte (byteAt source 2) && isSecondByte source && isFirstByte source
  | 3 => isTrailingByte (byteAt source 2) && isSecondByte source && isFirstByte source
  | 2 => isSecondByte source && isFirstByte source
  | 1 => isFirstByte source
  | _ => false

/-- The entries for sequences of up to four bytes. -/
def offsetsFromUTF8 : Nat → Int
  | 2 => 0x3080
  | 3 => 0xE2080
  | 4 => 0x3C82080
  | _ => 0

def readUTF8Sequence (sequence : List UInt8) (length : Nat) : Int :=
  (sequence.take length).foldl (fun character byte => character * 64 + Int.ofNat byte.toNat) 0 - offsetsFromUTF8 length

/-! ### Characters -/

/-- `U_IS_BMP` -/
def isBMP (character : Int) : Bool := 0 ≤ character && character ≤ 0xFFFF

/-- `U_IS_SURROGATE` -/
def isSurrogate (character : Int) : Bool := 0xD800 ≤ character && character ≤ 0xDFFF

/-- `U_IS_SUPPLEMENTARY` -/
def isSupplementary (character : Int) : Bool := 0x10000 ≤ character && character ≤ 0x10FFFF

def unitOf (character : Int) : UChar := UInt16.ofNat character.toNat

/-- `U16_LEAD` -/
def leadUnit (character : Int) : UChar := UInt16.ofNat ((character.toNat >>> 10) + 0xD7C0)

/-- `U16_TRAIL` -/
def trailUnit (character : Int) : UChar := UInt16.ofNat ((character.toNat &&& 0x3FF) ||| 0xDC00)

/-! ### Conversion -/

/-- How a conversion stopped, the source that is left, the units written and their disjunction. -/
structure Decoding where
  result : ConversionResult
  source : List UInt8
  target : List UChar
  orAllData : UChar
  deriving DecidableEq

namespace Decoding

def stop (result : ConversionResult) (source : List UInt8) : Decoding := ⟨result, source, [], 0⟩

/-- Units that are written before the rest of the source is read. -/
def put (units : List UChar) (mark : UChar) (later : Decoding) : Decoding :=
  { later with target := units ++ later.target, orAllData := mark ||| later.orAllData }

end Decoding

/-- The loop of `convertUTF8ToUTF16`; no round is left when the source is read. -/
def convertUTF8ToUTF16Loop (strict : Bool) : Nat → List UInt8 → Nat → Decoding
  | 0, source, _ => .stop .conversionOK source
  | _ + 1, [], _ => .stop .conversionOK []
  | rounds + 1, byte :: rest, room =>
    let source := byte :: rest
    let utf8SequenceLength := inlineUTF8SequenceLength byte
    if source.length < utf8SequenceLength then .stop .sourceExhausted source
    else if !isLegalUTF8 source utf8SequenceLength then .stop .sourceIllegal source
    else
      let character := readUTF8Sequence source utf8SequenceLength
      let later := source.drop utf8SequenceLength
      if room = 0 then .stop .targetExhausted source
      else if isBMP character then
        if isSurrogate character then
          if strict then .stop .sourceIllegal source
          else .put [0xFFFD] 0xFFFD (convertUTF8ToUTF16Loop strict rounds later (room - 1))
        else .put [unitOf character] (unitOf character) (convertUTF8ToUTF16Loop strict rounds later (room - 1))
      else if isSupplementary character then
        if room < 2 then .stop .targetExhausted source
        else .put [leadUnit character, trailUnit character] 0xFFFF
          (convertUTF8ToUTF16Loop strict rounds later (room - 2))
      else if strict then .stop .sourceIllegal source
      else .put [0xFFFD] 0xFFFD (convertUTF8ToUTF16Loop strict rounds later (room - 1))

def convertUTF8ToUTF16 (strict : Bool) (source : List UInt8) (room : Nat) : Decoding :=
  convertUTF8ToUTF16Loop strict source.length source room

/-! ### Hashing -/

/-- `StringHasher`; a pending character is one that still waits for the second of its pair. -/
structure StringHasher where
  hash : UInt32
  pendingCharacter : Option UChar

namespace StringHasher

def start : StringHasher := ⟨0x9E3779B9, none⟩

/-- `addCharactersAssumingAligned`: the new `m_hash`. -/
def mix (hash : UInt32) (a b : UChar) : UInt32 :=
  let hash := hash + a.toUInt32
  let hash := (hash <<< 16) ^^^ ((b.toUInt32 <<< 11) ^^^ hash)
  hash + (hash >>> 11)

def addCharacter (hasher : StringHasher) (character : UChar) : StringHasher :=
  match hasher.pendingCharacter with
  | some pending => ⟨mix hasher.hash pending character, none⟩
  | none => ⟨hasher.hash, some character⟩

def addCharacters (hasher : StringHasher) (a b : UChar) : StringHasher :=
  match hasher.pendingCharacter with
  | some pending => ⟨mix hasher.hash pending a, some b⟩
  | none => ⟨mix hasher.hash a b, none⟩

/-- `addCharactersAssumingAligned` of a string: its characters two by two. -/
def addString (hasher : StringHasher) : List UChar → StringHasher
  | [] => hasher
  | [character] => hasher.addCharacter character
  | a :: b :: rest => addString ⟨mix hasher.hash a b, none⟩ rest

def avalancheBits (hasher : StringHasher) : UInt32 :=
  let result : UInt32 :=
    match hasher.pendingCharacter with
    | some pending =>
      let result := hasher.hash + pending.toUInt32
      let result := result ^^^ (result <<< 11)
      result + (result >>> 17)
    | none => hasher.hash
  let result := result ^^^ (result <<< 3)
  let result := result + (result >>> 5)
  let result := result ^^^ (result <<< 2)
  let result := result + (result >>> 15)
  result ^^^ (result <<< 10)

def hashWithTop8BitsMasked (hasher : StringHasher) : UInt32 :=
  let result := hasher.avalancheBits &&& 0xFFFFFF
  if result = 0 then 0x800000 else result

/-- The hash of a string. -/
def computeHashAndMaskTop8Bits (units : List UChar) : UInt32 := (start.addString units).hashWithTop8BitsMasked

end StringHasher

/-- The variables of the hashing loop. -/
structure Hashing where
  hasher : StringHasher
  dataLength : UInt32
  utf16Length : UInt32

/-- The data ends at the given end, or at a zero byte. -/
def atEnd (hasEnd : Bool) (data : List UInt8) : Bool := if hasEnd then data.isEmpty else byteAt data 0 == 0

/-- The end comes before the sequence is complete. -/
def isCutOff (hasEnd : Bool) (data : List UInt8) (utf8SequenceLength : Nat) : Bool :=
  if hasEnd then data.length < utf8SequenceLength
  else (List.range utf8SequenceLength).any fun i => 1 ≤ i && byteAt data i == 0

/-- The loop for a given end, or up to a zero byte. It has no hash for data that is not legal. -/
def hashLoop (hasEnd : Bool) : Nat → List UInt8 → Hashing → Option Hashing
  | 0, _, state => some state
  | rounds + 1, data, state =>
    if atEnd hasEnd data then some state
    else if byteAt data 0 < 0x80 then
      hashLoop hasEnd rounds (data.drop 1)
        ⟨state.hasher.addCharacter (byteAt data 0).toUInt16, state.dataLength + 1, state.utf16Length + 1⟩
    else
      let utf8SequenceLength := inlineUTF8SequenceLengthNonASCII (byteAt data 0)
      let dataLength := state.dataLength + UInt32.ofNat utf8SequenceLength
      if isCutOff hasEnd data utf8SequenceLength then none
      else if !isLegalUTF8 data utf8SequenceLength then none
      else
        let character := readUTF8Sequence data utf8SequenceLength
        let later := data.drop utf8SequenceLength
        if isBMP character then
          if isSurrogate character then none
          else hashLoop hasEnd rounds later
            ⟨state.hasher.addCharacter (unitOf character), dataLength, state.utf16Length + 1⟩
        else if isSupplementary character then
          hashLoop hasEnd rounds later
            ⟨state.hasher.addCharacters (leadUnit character) (trailUnit character), dataLength, state.utf16Length + 2⟩
        else none

/-- The value returned, with the lengths if it is a hash. Zero is returned for a null pointer and for data
that is not legal. -/
def calculateStringHashAndLengthFromUTF8MaskingTop8Bits (hasEnd : Bool) (data : Option (List UInt8)) :
    UInt32 × Option (UInt32 × UInt32) :=
  match data with
  | none => (0, none)
  | some data =>
    match hashLoop hasEnd data.length data ⟨.start, 0, 0⟩ with
    | none => (0, none)
    | some state => (state.hasher.hashWithTop8BitsMasked, some (state.dataLength, state.utf16Length))

/-! ### Comparison -/

/-- The loop of `equalUTF16WithUTF8`. There is no result if the string in UTF-16 is read beyond its end. -/
def equalUTF16WithUTF8Loop : Nat → List UChar → List UInt8 → Option Bool
  | 0, _, _ => some true
  | _ + 1, _, [] => some true
  | rounds + 1, units, byte :: rest => do
    let unit ← units.head?
    let b := byte :: rest
    if unit < 0x80 ∨ byte < 0x80 then
      if unit ≠ byte.toUInt16 then return false
      equalUTF16WithUTF8Loop rounds units.tail rest
    else
      let utf8SequenceLength := inlineUTF8SequenceLengthNonASCII byte
      if b.length < utf8SequenceLength then return false
      if !isLegalUTF8 b utf8SequenceLength then return false
      let character := readUTF8Sequence b utf8SequenceLength
      let later := b.drop utf8SequenceLength
      if isBMP character then
        if isSurrogate character then return false
        if unit ≠ unitOf character then return false
        equalUTF16WithUTF8Loop rounds units.tail later
      else if isSupplementary character then
        if unit ≠ leadUnit character then return false
        let next ← units.tail.head?
        if next ≠ trailUnit character then return false
        equalUTF16WithUTF8Loop rounds units.tail.tail later
      else return false

def equalUTF16WithUTF8 (a : List UChar) (b : List UInt8) : Option Bool := equalUTF16WithUTF8Loop b.length a b

/-- The loop of `equalLatin1WithUTF8`. A character of two bytes is cut to eight bits. -/
def equalLatin1WithUTF8Loop : Nat → List UInt8 → List UInt8 → Option Bool
  | 0, _, _ => some true
  | _ + 1, _, [] => some true
  | rounds + 1, latin1, byte :: rest => do
    let unit ← latin1.head?
    if unit < 0x80 ∨ byte < 0x80 then
      if unit ≠ byte then return false
      equalLatin1WithUTF8Loop rounds latin1.tail rest
    else
      match rest with
      | [] =>
        return false
      | second :: later =>
        if byte &&& 0xE0 ≠ 0xC0 ∨ second &&& 0xC0 ≠ 0x80 then return false
        let character := ((byte &&& 0x1F) <<< 6) ||| (second &&& 0x3F)
        if unit ≠ character then return false
        equalLatin1WithUTF8Loop rounds latin1.tail later

def equalLatin1WithUTF8 (a b : List UInt8) : Option Bool := equalLatin1WithUTF8Loop b.length a b

end WebNode.Wtf
