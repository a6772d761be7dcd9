import Mathlib.Data.List.Basic
import Mathlib.Tactic.Common

/-! Strings of the web engine and their conversions to bytes, after `UTF8.cpp`,
`StringImpl.cpp` and `WTFString.cpp`. -/
namespace WebNode.Wtf

abbrev UChar := UInt16

inductive ConversionResult where
  | conversionOK
  | sourceExhausted
  | targetExhausted
  | sourceIllegal
  deriving DecidableEq, Repr

/-- How a conversion stopped, the source that is left and the bytes written. -/
structure Conversion where
  result : ConversionResult
  source : List UChar
  target : List UInt8
  deriving DecidableEq, Repr

def firstByteMark : Nat → Nat
  | 2 => 0xC0
  | 3 => 0xE0
  | 4 => 0xF0
  | _ => 0x00

/-- The switch that writes a character backwards from its last byte; every case
falls through to the one below. -/
def putBytes (bytesToWrite : Nat) : Nat → Nat → List UInt8 → List UInt8
  | 0, _, written => written
  | 1, ch, written => UInt8.ofNat (ch ||| firstByteMark bytesToWrite) :: written
  | remaining + 2, ch, written =>
    putBytes bytesToWrite (remaining + 1) (ch >>> 6) (UInt8.ofNat ((ch ||| 0x80) &&& 0xBF) :: written)

def replacementCharacter : Nat := 0xFFFD

def encodeUTF8 (ch : Nat) : List UInt8 :=
  if ch < 0x80 then putBytes 1 1 ch []
  else if ch < 0x800 then putBytes 2 2 ch []
  else if ch < 0x10000 then putBytes 3 3 ch []
  else if ch < 0x110000 then putBytes 4 4 ch []
  else putBytes 3 3 replacementCharacter []

/-- One round of a conversion loop: the bytes of a character if there is room for
them, and then the rounds for the rest of the source. -/
def Conversion.write (source : List UChar) (bytes : List UInt8) (room : Nat)
    (rest : Nat → Conversion) : Conversion :=
  if room < bytes.length then ⟨.targetExhausted, source, []⟩
  else
    let later := rest (room - bytes.length)
    { later with target := bytes ++ later.target }

def isHighSurrogate (unit : UChar) : Bool := 0xD800 ≤ unit && unit ≤ 0xDBFF

def isLowSurrogate (unit : UChar) : Bool := 0xDC00 ≤ unit && unit ≤ 0xDFFF

def combineSurrogates (high low : UChar) : Nat :=
  ((high.toNat - 0xD800) <<< 10) + (low.toNat - 0xDC00) + 0x10000

def convertUTF16ToUTF8 (strict : Bool) : List UChar → Nat → Conversion
  | [], _ => ⟨.conversionOK, [], []⟩
  | unit :: rest, room =>
    if isHighSurrogate unit then
      match rest with
      | [] => ⟨.sourceExhausted, [unit], []⟩
      | next :: later =>
        if isLowSurrogate next then
          Conversion.write (unit :: next :: later) (encodeUTF8 (combineSurrogates unit next)) room
            (convertUTF16ToUTF8 strict later)
        else if strict then ⟨.sourceIllegal, unit :: next :: later, []⟩
        else
          Conversion.write (unit :: next :: later) (encodeUTF8 unit.toNat) room
            (convertUTF16ToUTF8 strict (next :: later))
    else if strict && isLowSurrogate unit then ⟨.sourceIllegal, unit :: rest, []⟩
    else
      Conversion.write (unit :: rest) (encodeUTF8 unit.toNat) room (convertUTF16ToUTF8 strict rest)

def convertLatin1ToUTF8 : List UChar → Nat → Conversion
  | [], _ => ⟨.conversionOK, [], []⟩
  | unit :: rest, room =>
    let bytes := if unit.toNat < 0x80 then putBytes 1 1 unit.toNat [] else putBytes 2 2 unit.toNat []
    Conversion.write (unit :: rest) bytes room (convertLatin1ToUTF8 rest)

/-- A string implementation; the units of an 8-bit one are bytes. -/
structure StringImpl where
  units : List UChar
  is8Bit : Bool
  narrow : is8Bit = true → ∀ unit ∈ units, unit.toNat < 256

/-- A counted byte string, or the null one. -/
abbrev CString := Option (List UInt8)

/-- `CString::data` read as a C string: the bytes up to the first zero. -/
def CString.data (bytes : CString) : Option (List UInt8) := bytes.map (·.takeWhile (· != 0))

/-- An unpaired high surrogate left at the end is encoded like any other unit. -/
def Conversion.finish (conversion : Conversion) : List UInt8 :=
  match conversion.result, conversion.source with
  | .sourceExhausted, unit :: _ => conversion.target ++ putBytes 3 3 unit.toNat []
  | _, _ => conversion.target

/-- `utf8Impl` in the lenient mode that `utf8` takes by default. -/
def utf8Impl (units : List UChar) (room : Nat) : List UInt8 :=
  (convertUTF16ToUTF8 false units room).finish

namespace StringImpl

def utf8 (string : StringImpl) : CString :=
  if string.units.length = 0 then some []
  else if string.units.length > 4294967295 / 3 then none
  else if string.is8Bit then
    some (convertLatin1ToUTF8 string.units (string.units.length * 3)).target
  else some (utf8Impl string.units (string.units.length * 3))

def ascii (string : StringImpl) : CString :=
  some (string.units.map fun ch =>
    if ch ≠ 0 ∧ (ch < 0x20 ∨ ch > 0x7f) then 0x3F else UInt8.ofNat ch.toNat)

def startsWith (string : StringImpl) (ch : UChar) : Bool := string.units.head? == some ch

end StringImpl

end WebNode.Wtf
