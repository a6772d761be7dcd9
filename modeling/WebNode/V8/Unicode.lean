import Mathlib.Data.List.Basic
import Mathlib.Tactic.Common

/-! The decoder that `String::NewFromUtf8` of V8 runs on a script, after
`unicode.cc` and `unicode-inl.h`. -/
namespace WebNode.V8

def kBadChar : Nat := 0xFFFD

/-- `Utf8::CalculateValue`: the character that starts at a non-ASCII byte, and the
number of bytes it takes. -/
def calculateValue (first : Nat) : List UInt8 → Nat × Nat
  | [] => (kBadChar, 1)
  | byte1 :: rest =>
    let second := byte1.toNat ^^^ 0x80
    if second &&& 0xC0 ≠ 0 then (kBadChar, 1)
    else if first < 0xE0 then
      if first < 0xC0 then (kBadChar, 1)
      else
        let codePoint := ((first <<< 6) ||| second) &&& 0x7ff
        if codePoint ≤ 0x7f then (kBadChar, 1) else (codePoint, 2)
    else
      match rest with
      | [] => (kBadChar, 1)
      | byte2 :: rest =>
        let third := byte2.toNat ^^^ 0x80
        if third &&& 0xC0 ≠ 0 then (kBadChar, 1)
        else if first < 0xF0 then
          let codePoint := ((((first <<< 6) ||| second) <<< 6) ||| third) &&& 0xffff
          if codePoint ≤ 0x7ff then (kBadChar, 1) else (codePoint, 3)
        else
          match rest with
          | [] => (kBadChar, 1)
          | byte3 :: _ =>
            let fourth := byte3.toNat ^^^ 0x80
            if fourth &&& 0xC0 ≠ 0 then (kBadChar, 1)
            else if first < 0xF8 then
              let codePoint :=
                ((((((first <<< 6) ||| second) <<< 6) ||| third) <<< 6) ||| fourth) &&& 0x1fffff
              if codePoint ≤ 0xffff then (kBadChar, 1) else (codePoint, 4)
            else (kBadChar, 1)

def valueOf (first : UInt8) (rest : List UInt8) : Nat × Nat :=
  if first.toNat ≤ 0x7f then (first.toNat, 1) else calculateValue first.toNat rest

def leadSurrogate (charCode : Nat) : UInt16 :=
  UInt16.ofNat (0xd800 + (((charCode - 0x10000) >>> 10) &&& 0x3ff))

def trailSurrogate (charCode : Nat) : UInt16 := UInt16.ofNat (0xdc00 + (charCode &&& 0x3ff))

/-- The UTF-16 units that the decoder writes for a character. -/
def utf16Units (character : Nat) : List UInt16 :=
  if character > 0xffff then [leadSurrogate character, trailSurrogate character]
  else [UInt16.ofNat character]

/-- `Utf8DecoderBase`: the units of a whole byte stream. -/
def decode : List UInt8 → List UInt16
  | [] => []
  | first :: rest =>
    let value := valueOf first rest
    utf16Units value.1 ++ decode (rest.drop (value.2 - 1))
termination_by stream => stream.length
decreasing_by simp only [List.length_drop, List.length_cons]; omega

end WebNode.V8
