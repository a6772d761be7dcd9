import WebNode.NodeProxy.Script
import WebNode.NodeProxy.Transport
import WebNode.V8.Scanner
import Mathlib.Data.List.TakeWhile

/-! What V8 makes of the quoted strings in the scripts of `NodeProxy`: when the
text between the quotes is one string literal with the value of the string. -/
namespace WebNode.NodeProxy

open Wtf V8

/-- A unit that stands for itself in a literal with the given quotes. -/
def Plain (quote unit : UInt16) : Prop :=
  unit ≠ quote ∧ unit ≠ 0x5C ∧ isLineTerminator unit = false

theorem scanUnit_self {c : UInt16} {rest : List UInt16} (notEscape : c ≠ 0x5C) :
    scanUnit c rest = some (some c, 0) := by
  unfold scanUnit
  rw [if_neg notEscape]

theorem scanLiteral_plain {quote : UInt16} {text : List UInt16}
    (plain : ∀ unit ∈ text, Plain quote unit) (rest : List UInt16) :
    scanLiteral quote (text ++ quote :: rest) = some (text, rest) := by
  induction text with
  | nil => rw [List.nil_append, scanLiteral, if_pos rfl]
  | cons unit later ih =>
    obtain ⟨notQuote, notEscape, notEnd⟩ := plain unit (by simp)
    rw [List.cons_append, scanLiteral, if_neg notQuote, if_neg (by simp [notEnd]),
      scanUnit_self notEscape]
    simp [ih fun next member => plain next (by simp [member])]

/-- A round adds one unit for the one it takes, or takes more than it adds. -/
theorem scanUnit_cases {c : UInt16} {rest : List UInt16} {added : Option UInt16} {taken : Nat}
    (scanned : scanUnit c rest = some (added, taken)) :
    (c ≠ 0x5C ∧ added = some c ∧ taken = 0) ∨ (0 < rest.length ∧ 0 < taken) := by
  unfold scanUnit at scanned
  split at scanned
  · cases rest with
    | nil => cases scanned
    | cons escaped rest =>
      obtain ⟨⟨_, extra⟩, _, same⟩ := Option.map_eq_some_iff.mp scanned
      have positive : extra + 1 = taken := congrArg Prod.snd same
      exact .inr ⟨by simp, by omega⟩
  · rename_i notEscape
    obtain ⟨rfl, rfl⟩ : some c = added ∧ 0 = taken := by simpa using scanned
    exact .inl ⟨notEscape, rfl, rfl⟩

/-- Scanning adds at most one unit to the literal for each one it takes, and adds
as many only if each stands for itself. -/
theorem scanLiteral_length {quote : UInt16} {source value rest : List UInt16}
    (scanned : scanLiteral quote source = some (value, rest)) :
    value.length + rest.length + 1 ≤ source.length ∧
      (value.length + rest.length + 1 = source.length →
        source = value ++ quote :: rest ∧ ∀ unit ∈ value, Plain quote unit) := by
  fun_induction scanLiteral quote source generalizing value rest with
  | case1 => cases scanned
  | case2 later =>
    obtain ⟨rfl, rfl⟩ : [] = value ∧ later = rest := by simpa using scanned
    simp
  | case3 => cases scanned
  | case4 => cases scanned
  | case5 c later notQuote notEnd added taken found ih =>
    obtain ⟨⟨value', rest'⟩, inner, same⟩ := Option.map_eq_some_iff.mp scanned
    obtain ⟨rfl, rfl⟩ : added.toList ++ value' = value ∧ rest' = rest := by simpa using same
    obtain ⟨bounded, tight⟩ := ih inner
    rw [List.length_drop] at bounded tight
    rcases scanUnit_cases found with ⟨notEscape, rfl, rfl⟩ | ⟨nonempty, positive⟩
    · refine ⟨by simp; omega, fun equal => ?_⟩
      obtain ⟨split, plain⟩ := tight (by simp at equal; omega)
      rw [List.drop_zero] at split
      simpa [split, Plain, notQuote, notEscape, notEnd] using plain
    · have short : added.toList.length ≤ 1 := by cases added <;> simp
      refine ⟨by simp; omega, fun equal => ?_⟩
      simp at equal
      omega

/-- A quoted text is a literal with a value at least as long only if it is that
value, each unit standing for itself. -/
theorem scanString_quoted {text value : List UInt16} (long : text.length ≤ value.length)
    (rest : List UInt16) :
    scanString (0x27 :: text ++ 0x27 :: rest) = some (value, rest) ↔
      text = value ∧ ∀ unit ∈ value, Plain 0x27 unit := by
  rw [List.cons_append, scanString, if_pos (by decide)]
  constructor
  · intro scanned
    obtain ⟨bounded, tight⟩ := scanLiteral_length scanned
    simp only [List.length_append, List.length_cons] at bounded tight
    obtain ⟨same, plain⟩ := tight (by omega)
    exact ⟨List.append_cancel_right same, plain⟩
  · rintro ⟨rfl, plain⟩
    exact scanLiteral_plain plain rest

section Quoted

/-- What stands in a script for a string with the given data. -/
def quoted (data : Option (List UInt8)) : List UInt8 :=
  match data with
  | none => [0x27]
  | some bytes => 0x27 :: bytes ++ [0x27]

/-- The text of a property value. -/
def propertyText (string : StringImpl) : List UInt8 := quoted string.utf8.data

/-- The text of a call argument. -/
def argumentText (string : StringImpl) : List UInt8 := quoted string.ascii.data

theorem OStream.put_putData_put {ostr : OStream} (good : ostr.bad = false) (data : Option (List UInt8)) :
    (((ostr.put [0x27]).putData data).put [0x27]).text = ostr.text ++ quoted data := by
  cases data with
  | none => simp [OStream.put, OStream.putData, good, quoted]
  | some bytes => simp [OStream.put, OStream.putData, good, quoted]

theorem setProperty_string (moduleName prop : List UInt8) (string : StringImpl) :
    (setProperty moduleName prop (.string string)).text =
      moduleName ++ bytesOf "." ++ prop ++ bytesOf "=" ++ propertyText string := by
  unfold setProperty
  exact OStream.put_putData_put rfl _

theorem convert_string (arguments : Arguments) (string : StringImpl) :
    arguments.convert (.string string) =
      some { arguments with
        ostr := arguments.ostr.put (arguments.separator ++ argumentText string)
        pa := true } := by
  have quote : bytesOf "'" = [0x27] := by decide
  cases bad : arguments.ostr.bad with
  | true => simp [Arguments.convert, OStream.put, OStream.putData, StringImpl.ascii, CString.data, bad]
  | false =>
    simp [Arguments.convert, OStream.put, OStream.putData, StringImpl.ascii, CString.data, bad, quote,
      argumentText, quoted]

end Quoted

section Decoding

@[simp] theorem decode_nil : decode [] = [] := by rw [decode]

theorem decode_ascii {byte : UInt8} (ascii : byte.toNat ≤ 0x7f) (rest : List UInt8) :
    decode (byte :: rest) = UInt16.ofNat byte.toNat :: decode rest := by
  rw [decode]
  simp [valueOf, ascii, utf16Units, show ¬ byte.toNat > 0xffff by omega]

theorem decode_quote (rest : List UInt8) : decode (0x27 :: rest) = 0x27 :: decode rest :=
  decode_ascii (by decide) rest

/-- No character reaches over an ASCII byte. -/
theorem valueOf_append_ascii {byte : UInt8} (ascii : byte.toNat ≤ 0x7f) (first : UInt8)
    (rest tail : List UInt8) :
    valueOf first (rest ++ byte :: tail) = valueOf first rest ∧ (valueOf first rest).2 - 1 ≤ rest.length := by
  have stops : (byte.toNat ^^^ 0x80) &&& 0xC0 ≠ 0 := by
    have every : ∀ value ≤ 0x7f, (value ^^^ 0x80) &&& 0xC0 ≠ 0 := by decide
    exact every byte.toNat ascii
  unfold valueOf
  split
  · simp
  · match rest with
    | [] => simp [calculateValue, stops]
    | [byte1] =>
      simp only [calculateValue, List.cons_append, List.nil_append, if_pos stops]
      refine ⟨trivial, ?_⟩
      repeat' split
      all_goals simp
    | [byte1, byte2] =>
      simp only [calculateValue, List.cons_append, List.nil_append, if_pos stops]
      refine ⟨trivial, ?_⟩
      repeat' split
      all_goals simp
    | byte1 :: byte2 :: byte3 :: rest =>
      simp only [calculateValue, List.cons_append]
      refine ⟨trivial, ?_⟩
      repeat' split
      all_goals simp

/-- A script is decoded piece by piece where a piece starts with an ASCII byte. -/
theorem decode_append_ascii {byte : UInt8} (ascii : byte.toNat ≤ 0x7f) (before after : List UInt8) :
    decode (before ++ byte :: after) = decode before ++ decode (byte :: after) := by
  fun_induction decode before with
  | case1 => rfl
  | case2 first rest value ih =>
    obtain ⟨same, within⟩ := valueOf_append_ascii ascii first rest after
    rw [List.cons_append, decode, same, List.drop_append_of_le_length within]
    simp only [value] at ih ⊢
    rw [ih, List.append_assoc]

/-- Wherever the text stands in a script, V8 reads at its place one string token
with the given value, and goes on with what follows. -/
def LiteralOf (text : List UInt8) (value : List UInt16) : Prop :=
  ∀ before after, ∃ rest, decode (before ++ text ++ after) = decode before ++ rest ∧
    scanString rest = some (value, decode after)

/-- The literal of data that V8 decodes to a text no longer than the value. -/
theorem literalOf_quoted {data : List UInt8} {text value : List UInt16} (long : text.length ≤ value.length)
    (decoded : ∀ tail, decode (data ++ tail) = text ++ decode tail) :
    LiteralOf (quoted (some data)) value ↔ text = value ∧ ∀ unit ∈ value, Plain 0x27 unit := by
  have reading (before after : List UInt8) : decode (before ++ quoted (some data) ++ after) =
      decode before ++ (0x27 :: text ++ 0x27 :: decode after) := by
    rw [quoted, List.append_assoc, List.cons_append, List.cons_append, List.append_assoc,
      decode_append_ascii (by decide), decode_quote, decoded, List.singleton_append, decode_quote]
    rfl
  constructor
  · intro literal
    obtain ⟨rest, same, scanned⟩ := literal [] []
    rw [reading, List.append_right_inj] at same
    rw [← same] at scanned
    exact (scanString_quoted long _).mp scanned
  · intro plain before after
    exact ⟨_, reading before after, (scanString_quoted long _).mpr plain⟩

theorem not_literalOf_null (value : List UInt16) : ¬ LiteralOf (quoted none) value := by
  intro literal
  obtain ⟨rest, same, scanned⟩ := literal [] []
  rw [quoted, List.nil_append, List.append_nil, decode_quote, decode_nil, List.nil_append] at same
  rw [← same] at scanned
  simp [scanString, scanLiteral] at scanned

end Decoding

section Property

/-- A string that `setProperty` passes unchanged. -/
def PropertySafe (string : StringImpl) : Prop :=
  string.units.length ≤ 1431655765 ∧ ∀ unit ∈ string.units, unit ≠ 0 ∧ Plain 0x27 unit

theorem takeWhile_eq_self_iff {units : List UChar} :
    units.takeWhile (· != 0) = units ↔ ∀ unit ∈ units, unit ≠ 0 := by
  rw [List.takeWhile_eq_self_iff]
  simp

theorem propertyText_literal (string : StringImpl) :
    LiteralOf (propertyText string) string.units ↔ PropertySafe string := by
  rw [propertyText, utf8_eq, PropertySafe]
  rcases Nat.lt_or_ge 1431655765 string.units.length with long | short
  · rw [if_pos long]
    constructor
    · intro literal
      exact (not_literalOf_null _ literal).elim
    · rintro ⟨short, _⟩
      omega
  · rw [if_neg (by omega), CString.data, Option.map_some, takeWhile_encodeUnits,
      literalOf_quoted (List.takeWhile_prefix _).length_le (decode_encodeUnits _), takeWhile_eq_self_iff]
    constructor
    · rintro ⟨nonzero, plain⟩
      exact ⟨short, fun unit member => ⟨nonzero unit member, plain unit member⟩⟩
    · rintro ⟨_, safe⟩
      exact ⟨fun unit member => (safe unit member).1, fun unit member => (safe unit member).2⟩

end Property

section Argument

/-- The unit that V8 reads for a unit in `ascii()`. -/
def asciiUnit (unit : UChar) : UChar := if unit ≠ 0 ∧ (unit < 0x20 ∨ unit > 0x7f) then 0x3F else unit

/-- A string that `convertJscArgs2String` passes unchanged. -/
def ArgumentSafe (string : StringImpl) : Prop :=
  ∀ unit ∈ string.units, (0x20 ≤ unit ∧ unit ≤ 0x7f) ∧ Plain 0x27 unit

theorem asciiUnit_le (unit : UChar) : (asciiUnit unit).toNat ≤ 0x7f := by
  unfold asciiUnit
  split
  · decide
  · rename_i kept
    by_cases zero : unit = 0
    · simp [zero]
    · have range : ¬ unit > 0x7f := fun above => kept ⟨zero, .inr above⟩
      rw [gt_iff_lt, UInt16.lt_iff_toNat_lt] at range
      simpa using range

theorem asciiUnit_eq_zero (unit : UChar) : asciiUnit unit = 0 ↔ unit = 0 := by
  unfold asciiUnit
  split
  · rename_i replaced
    simp [replaced.1]
  · rfl

theorem ascii_eq (string : StringImpl) :
    string.ascii = some (string.units.map fun unit => UInt8.ofNat (asciiUnit unit).toNat) := by
  unfold StringImpl.ascii asciiUnit
  congr 2
  funext unit
  split <;> rfl

theorem decode_map_ascii {units : List UChar} (small : ∀ unit ∈ units, unit.toNat ≤ 0x7f)
    (tail : List UInt8) :
    decode (units.map (fun unit => UInt8.ofNat unit.toNat) ++ tail) = units ++ decode tail := by
  induction units with
  | nil => rfl
  | cons unit rest ih =>
    have bounded := small unit (by simp)
    have same : (UInt8.ofNat unit.toNat).toNat = unit.toNat := by
      simp
      omega
    rw [List.map_cons, List.cons_append, decode_ascii (by omega), same, UInt16.ofNat_toNat,
      ih fun later member => small later (by simp [member]), List.cons_append]

/-- Kept as it is: printable, and no question mark put in its place. -/
theorem asciiUnit_eq_self_iff {unit : UChar} (nonzero : unit ≠ 0) :
    asciiUnit unit = unit ↔ 0x20 ≤ unit ∧ unit ≤ 0x7f := by
  unfold asciiUnit
  split
  · rename_i replaced
    constructor
    · rintro rfl
      decide
    · rintro ⟨lower, upper⟩
      rcases replaced.2 with below | above
      · exact absurd lower (UInt16.not_le.mpr below)
      · exact absurd upper (UInt16.not_le.mpr above)
  · rename_i kept
    simp only [true_iff]
    refine ⟨UInt16.not_lt.mp fun below => kept ⟨nonzero, .inl below⟩, ?_⟩
    exact UInt16.not_lt.mp fun above => kept ⟨nonzero, .inr above⟩

theorem ascii_data (string : StringImpl) : string.ascii.data =
    some (((string.units.takeWhile (· != 0)).map asciiUnit).map fun unit => UInt8.ofNat unit.toNat) := by
  have stop : ((· != 0) ∘ fun unit => UInt8.ofNat (asciiUnit unit).toNat) = (· != (0 : UChar)) := by
    funext unit
    have bounded := asciiUnit_le unit
    have zero : UInt8.ofNat (asciiUnit unit).toNat = 0 ↔ unit = 0 := by
      rw [← asciiUnit_eq_zero, ← UInt8.toNat_inj, ← UInt16.toNat_inj]
      simp
      omega
    simpa [bne] using zero
  rw [ascii_eq, CString.data, Option.map_some, List.takeWhile_map, stop, List.map_map]
  rfl

theorem argumentText_literal (string : StringImpl) :
    LiteralOf (argumentText string) string.units ↔ ArgumentSafe string := by
  have small : ∀ unit ∈ (string.units.takeWhile (· != 0)).map asciiUnit, unit.toNat ≤ 0x7f := by
    intro unit member
    obtain ⟨source, _, rfl⟩ := List.mem_map.mp member
    exact asciiUnit_le source
  have fixed : string.units.map asciiUnit = string.units ↔
      ∀ unit ∈ string.units, asciiUnit unit = unit := by
    simpa using List.map_inj_left (l := string.units) (f := asciiUnit) (g := id)
  have prefixed := List.takeWhile_prefix (l := string.units) (· != 0)
  rw [argumentText, ascii_data,
    literalOf_quoted (by simpa using prefixed.length_le) (decode_map_ascii small), ArgumentSafe]
  constructor
  · rintro ⟨same, plain⟩
    have whole : string.units.takeWhile (· != 0) = string.units :=
      prefixed.eq_of_length (by simpa using congrArg List.length same)
    rw [whole] at same
    intro unit member
    have nonzero := takeWhile_eq_self_iff.mp whole unit member
    have kept : asciiUnit unit = unit := fixed.mp same unit member
    exact ⟨(asciiUnit_eq_self_iff nonzero).mp kept, plain unit member⟩
  · intro safe
    have nonzero : ∀ unit ∈ string.units, unit ≠ 0 := by
      rintro unit member rfl
      exact absurd (safe 0 member).1.1 (by decide)
    rw [takeWhile_eq_self_iff.mpr nonzero]
    refine ⟨fixed.mpr fun unit member => ?_, fun unit member => (safe unit member).2⟩
    exact (asciiUnit_eq_self_iff (nonzero unit member)).mpr (safe unit member).1

end Argument

/-- A string reaches V8 as one literal of its value exactly when it has none of the
characters that need an escape, and as an argument only if it is printable ASCII:
neither `setProperty` nor `convertJscArgs2String` escapes anything. -/
theorem stringText_literal_iff (moduleName prop : List UInt8) (arguments : Arguments)
    (string : StringImpl) :
    (∃ text, (setProperty moduleName prop (.string string)).text =
        moduleName ++ bytesOf "." ++ prop ++ bytesOf "=" ++ text ∧
      (LiteralOf text string.units ↔ PropertySafe string)) ∧
    (∃ text, arguments.convert (.string string) =
        some { arguments with ostr := arguments.ostr.put (arguments.separator ++ text), pa := true } ∧
      (LiteralOf text string.units ↔ ArgumentSafe string)) :=
  ⟨⟨_, setProperty_string moduleName prop string, propertyText_literal string⟩,
    ⟨_, convert_string arguments string, argumentText_literal string⟩⟩

/-- The string `';x='`. -/
def breakout : StringImpl := ⟨[0x27, 0x3B, 0x78, 0x3D, 0x27], true, by simp⟩

/-- As a property value and as an argument `';x='` ends its literal at once: what V8
reads next is the assignment that it spells. -/
theorem breakout_runs :
    (setProperty (bytesOf "fs") (bytesOf "a") (.string breakout)).text = bytesOf "fs.a='';x=''" ∧
      ((⟨OStream.empty, false, none⟩ : Arguments).convert (.string breakout)).map (·.ostr.text) =
        some (bytesOf "'';x=''") ∧
      scanString (decode (bytesOf "'';x=''")) = some ([], [0x3B, 0x78, 0x3D, 0x27, 0x27]) := by
  decide +kernel

end WebNode.NodeProxy
