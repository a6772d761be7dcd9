import Mathlib.Data.List.Basic
import Mathlib.Tactic.Common

/-! String tokens of V8's scanner, after `scanner.cc`. -/
namespace WebNode.V8

def isLineTerminator (unit : UInt16) : Bool :=
  unit == 0x000A || unit == 0x000D || unit == 0x2028 || unit == 0x2029

def hexValue (unit : UInt16) : Option Nat :=
  if 0x30 ≤ unit ∧ unit ≤ 0x39 then some (unit.toNat - 0x30)
  else if 0x41 ≤ unit ∧ unit ≤ 0x46 then some (unit.toNat - 0x41 + 10)
  else if 0x61 ≤ unit ∧ unit ≤ 0x66 then some (unit.toNat - 0x61 + 10)
  else none

def scanHexNumber : Nat → List UInt16 → Nat → Option Nat
  | 0, _, x => some x
  | _ + 1, [], _ => none
  | expected + 1, unit :: rest, x =>
    match hexValue unit with
    | none => none
    | some digit => scanHexNumber expected rest (x * 16 + digit)

/-- The value of an octal escape and how many digits it takes after the first. -/
def scanOctalEscape : Nat → List UInt16 → Nat → Nat × Nat
  | 0, _, x => (x, 0)
  | _ + 1, [], x => (x, 0)
  | length + 1, unit :: rest, x =>
    if 0x30 ≤ unit ∧ unit ≤ 0x37 then
      let next := x * 8 + (unit.toNat - 0x30)
      if next ≥ 256 then (x, 0)
      else
        let (value, digits) := scanOctalEscape length rest next
        (value, digits + 1)
    else (x, 0)

/-- `ScanEscape` after its first unit: the unit it adds to the literal, if any, and
how many further units it takes. A bad hex number makes the token illegal. -/
def scanEscape (c : UInt16) (rest : List UInt16) : Option (Option UInt16 × Nat) :=
  if isLineTerminator c then
    if c = 0x0D ∧ rest.head? = some 0x0A then some (none, 1)
    else if c = 0x0A ∧ rest.head? = some 0x0D then some (none, 1)
    else some (none, 0)
  else if c = 0x62 then some (some 0x08, 0)
  else if c = 0x66 then some (some 0x0C, 0)
  else if c = 0x6E then some (some 0x0A, 0)
  else if c = 0x72 then some (some 0x0D, 0)
  else if c = 0x74 then some (some 0x09, 0)
  else if c = 0x75 then (scanHexNumber 4 rest 0).map fun x => (some (UInt16.ofNat x), 4)
  else if c = 0x76 then some (some 0x0B, 0)
  else if c = 0x78 then (scanHexNumber 2 rest 0).map fun x => (some (UInt16.ofNat x), 2)
  else if 0x30 ≤ c ∧ c ≤ 0x37 then
    let (value, digits) := scanOctalEscape 2 rest (c.toNat - 0x30)
    some (some (UInt16.ofNat value), digits)
  else some (some c, 0)

/-- One round of the loop of `ScanString`: the unit added to the literal, if any,
and how many units are taken beyond the first. -/
def scanUnit (c : UInt16) (rest : List UInt16) : Option (Option UInt16 × Nat) :=
  if c = 0x5C then
    match rest with
    | [] => none
    | escaped :: rest => (scanEscape escaped rest).map fun scanned => (scanned.1, scanned.2 + 1)
  else some (some c, 0)

/-- The loop of `ScanString` behind the opening quote: the literal and what follows
its closing quote, or no token. -/
def scanLiteral (quote : UInt16) : List UInt16 → Option (List UInt16 × List UInt16)
  | [] => none
  | c :: rest =>
    if c = quote then some ([], rest)
    else if isLineTerminator c then none
    else
      match scanUnit c rest with
      | none => none
      | some (added, taken) =>
        (scanLiteral quote (rest.drop taken)).map fun token => (added.toList ++ token.1, token.2)
termination_by source => source.length
decreasing_by simp only [List.length_drop, List.length_cons]; omega

/-- A string token at the start of the source, with either kind of quotes. -/
def scanString : List UInt16 → Option (List UInt16 × List UInt16)
  | [] => none
  | quote :: rest => if quote = 0x22 ∨ quote = 0x27 then scanLiteral quote rest else none

end WebNode.V8
