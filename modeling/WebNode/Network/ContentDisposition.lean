import WebNode.Lib.Unsigned
import WebNode.Wtf.Base64RoundTrip
import WebNode.Wtf.Text

/-!
# `filenameFromHTTPContentDisposition`

The header is split into pairs, the first pair with the key `filename` gives the value, and a value
that is an encoded word is decoded. The charset of the word is looked for in the wrong string.
-/

namespace WebNode.Network

open Wtf Wtf.Base64 Lib

/-- The code unit of an ASCII character. -/
def ascii (character : Char) : UChar := UInt16.ofNat character.toNat

/-- The decoders of `TextEncoding` by the names it is made of. An encoding without a name decodes
to the null string; a name has at most `maxEncodingNameLength` characters, none of them a semicolon. -/
structure TextEncodings where
  knows : List UChar → Bool
  decode : List UChar → List UInt8 → Option (List UChar)
  plain : ∀ name, knows name = true → ascii ';' ∉ name

/-- What the function takes from outside: the decoders, the characters beyond ASCII that count as
white space, and what uninitialized memory holds. -/
structure FilenameContext where
  encodings : TextEncodings
  isWhiteSpaceNeutral : Nat → Bool
  memory : Nat → UInt8

/-! ### Operations of `String` -/

def asciiText (text : String) : List UChar := text.toList.map ascii

/-- `String::split` without empty entries. -/
def split (separator : UChar) (text : List UChar) : List (List UChar) := (text.splitOn separator).filter (· ≠ [])

/-- `String::substring`, which cuts the length down to what there is. -/
def substring (text : List UChar) (start length : Nat) : List UChar := (text.drop start).take length

/-- `String::find` of a pattern, from the start and with regard to case. -/
def find (pattern : List UChar) : List UChar → Option Nat
  | [] => if pattern.isEmpty then some 0 else none
  | character :: rest =>
    if pattern.isPrefixOf (character :: rest) then some 0 else (find pattern rest).map (· + 1)

section Function

variable (context : FilenameContext)

def stripWhiteSpace (text : List UChar) : List UChar :=
  let isSpace (character : UChar) : Bool := isSpaceOrNewline context.isWhiteSpaceNeutral character.toNat
  ((text.dropWhile isSpace).reverse.dropWhile isSpace).reverse

/-- The output of the loop over the characters where it returns false, or where it ends. -/
def scannedOut : List Nat → Scanned → List UInt8
  | [], scanned => scanned.out
  | ch :: rest, scanned =>
    match scan .base64 .ignoreWhitespace context.isWhiteSpaceNeutral 0 [ch] scanned with
    | some later => scannedOut rest later
    | none => scanned.out

/-- What `base64Decode` leaves in its output, whatever it returns. -/
def base64Output (text : List UChar) : List UInt8 :=
  let data := text.map UInt16.toNat
  match base64DecodeInternal .base64 .ignoreWhitespace context.isWhiteSpaceNeutral context.memory data with
  | some out => out
  | none => scannedOut context data ⟨(List.range data.length).map context.memory, 0, 0⟩

/-- Remove quotes if there are any: the last character goes without being looked at. -/
def removeQuotes (value : List UChar) : List UChar :=
  if value.headD 0 = ascii '"' then substring value 1 (unsignedSub value.length 2) else value

/-- The text behind the first `B?` of an encoded word, up to the last two characters. -/
def encodedText (value : List UChar) (prefixPosition : Nat) : List UChar :=
  substring value (prefixPosition + 2) (unsignedSub (unsignedSub value.length (prefixPosition + 2)) 2)

/-- The value of the pair: the charset of an encoded word is cut out of the base64 text, by which the
value was overwritten before. -/
def filenameFromValue (value : List UChar) : Option (List UChar) :=
  if (asciiText "=?").isPrefixOf value && (asciiText "?=").isSuffixOf value then
    match find (asciiText "B?") value with
    | none => none
    | some prefixPosition =>
      let value := encodedText value prefixPosition
      let suggestedNameAsUTF8 := base64Output context value
      let codeset := substring value 2 (unsignedSub prefixPosition 3)
      context.encodings.decode codeset suggestedNameAsUTF8
  else some value

/-- The key of a pair, if there is an equals sign. -/
def keyOf (pair : List UChar) : Option (List UChar) :=
  (pair.findIdx? (· = ascii '=')).map fun valueStartPos => stripWhiteSpace context (pair.take valueStartPos)

def filenameFromPairs : List (List UChar) → Option (List UChar)
  | [] => none
  | pair :: rest =>
    match pair.findIdx? (· = ascii '=') with
    | none => filenameFromPairs rest
    | some valueStartPos =>
      let key := stripWhiteSpace context (pair.take valueStartPos)
      if key = [] ∨ key ≠ asciiText "filename" then filenameFromPairs rest
      else filenameFromValue context (removeQuotes (stripWhiteSpace context (pair.drop (valueStartPos + 1))))

/-- The file name a header suggests, with nothing for the null string. -/
def filenameFromHTTPContentDisposition (value : List UChar) : Option (List UChar) :=
  filenameFromPairs context (split (ascii ';') value)

end Function

/-! ### Headers of the forms in question -/

/-- The base64 text of bytes, in one line and with padding. -/
def base64Text (bytes : List UInt8) : List UChar :=
  (encodeGroups .base64 false 0 bytes ++ List.replicate ((3 - bytes.length % 3) % 3) 61).map UInt8.toUInt16

def headerOf (parameters value : List UChar) : List UChar := parameters ++ asciiText "; filename=" ++ value

def quoted (value : List UChar) : List UChar := ascii '"' :: value ++ [ascii '"']

def encodedWord (charset : List UChar) (bytes : List UInt8) : List UChar :=
  asciiText "=?" ++ charset ++ asciiText "?B?" ++ base64Text bytes ++ asciiText "?="

/-- No pair of the parameters has the key `filename`. -/
def WithoutFilename (context : FilenameContext) (parameters : List UChar) : Prop :=
  ∀ pair ∈ split (ascii ';') parameters, keyOf context pair ≠ some (asciiText "filename")

instance (context : FilenameContext) (parameters : List UChar) : Decidable (WithoutFilename context parameters) :=
  inferInstanceAs (Decidable (∀ pair ∈ split (ascii ';') parameters, keyOf context pair ≠ some (asciiText "filename")))

/-- The piece of the base64 text that is taken for the name of the charset decodes the bytes as the
charset does. If the charset ends in `B`, its end is taken for the encoding, and the base64 text is
read from there on up to the question mark. -/
def WordIsRead (context : FilenameContext) (charset : List UChar) (bytes : List UInt8) : Prop :=
  let text := base64Text bytes
  let decode := context.encodings.decode
  if charset.getLast? = some (ascii 'B') then
    decode (text.take (unsignedSub (charset.length + 1) 3))
      (1 :: (List.range (text.length + 1)).map fun index => context.memory (index + 1)) = decode charset bytes
  else decode (substring text 2 charset.length) bytes = decode charset bytes

variable {context : FilenameContext}

/-! ### White space, quotes and pairs -/

theorem stripWhiteSpace_of_ends {first last : UChar} {middle : List UChar}
    (firstSolid : isSpaceOrNewline context.isWhiteSpaceNeutral first.toNat = false)
    (lastSolid : isSpaceOrNewline context.isWhiteSpaceNeutral last.toNat = false) :
    stripWhiteSpace context (first :: middle ++ [last]) = first :: middle ++ [last] := by
  simp only [stripWhiteSpace, List.cons_append, List.dropWhile_cons, firstSolid, Bool.false_eq_true, if_false,
    List.reverse_cons, List.reverse_append, List.reverse_nil, List.nil_append, lastSolid,
    List.reverse_reverse]

theorem stripWhiteSpace_quoted (value : List UChar) : stripWhiteSpace context (quoted value) = quoted value :=
  stripWhiteSpace_of_ends rfl rfl

theorem stripWhiteSpace_key : stripWhiteSpace context (asciiText " filename") = asciiText "filename" := rfl

theorem filenameFromPairs_append {first second : List (List UChar)}
    (without : ∀ pair ∈ first, keyOf context pair ≠ some (asciiText "filename")) :
    filenameFromPairs context (first ++ second) = filenameFromPairs context second := by
  induction first with
  | nil => rfl
  | cons pair rest ih =>
    obtain ⟨here, others⟩ := List.forall_mem_cons.mp without
    rw [List.cons_append, filenameFromPairs]
    rw [keyOf] at here
    cases found : pair.findIdx? (· = ascii '=') with
    | none => exact ih others
    | some position =>
      rw [found, Option.map_some, ne_eq, Option.some.injEq] at here
      simp only [here, not_false_eq_true, ne_eq, or_true, if_true]
      exact ih others

/-- The value of the last pair is what counts, if no pair before it has the key. -/
theorem filename_headerOf {parameters value : List UChar} (without : WithoutFilename context parameters)
    (plain : ascii ';' ∉ value) :
    filenameFromHTTPContentDisposition context (headerOf parameters value) =
      filenameFromValue context (removeQuotes (stripWhiteSpace context value)) := by
  have pieces : split (ascii ';') (headerOf parameters value) =
      split (ascii ';') parameters ++ [asciiText " filename=" ++ value] := by
    have last : ascii ';' ∉ asciiText " filename=" ++ value := by
      rw [List.mem_append, not_or]
      exact ⟨by decide, plain⟩
    have same : headerOf parameters value = parameters ++ ascii ';' :: (asciiText " filename=" ++ value) := by
      rw [headerOf, List.append_assoc]
      rfl
    rw [split, same, List.splitOn_append_cons_self, List.splitOn_eq_singleton last, List.filter_append]
    rfl
  rw [filenameFromHTTPContentDisposition, pieces, filenameFromPairs_append without]
  have position : (asciiText " filename=" ++ value).findIdx? (· = ascii '=') = some 9 := rfl
  simp only [filenameFromPairs, position]
  rw [show (asciiText " filename=" ++ value).take 9 = asciiText " filename" from rfl,
    show (asciiText " filename=" ++ value).drop (9 + 1) = value from rfl, stripWhiteSpace_key, if_neg (by decide)]

theorem removeQuotes_quoted {value : List UChar} (small : value.length + 2 < 2 ^ 32) :
    removeQuotes (quoted value) = value := by
  have length : (quoted value).length = value.length + 2 := by simp [quoted]
  rw [removeQuotes,
    if_pos (by rfl), length, unsignedSub_of_le (Nat.le_add_left 2 _) small, Nat.add_sub_cancel, substring]
  simp [quoted]

theorem removeQuotes_plain {value : List UChar} (plain : ascii '"' ∉ value) : removeQuotes value = value := by
  rw [removeQuotes, if_neg]
  cases value with
  | nil => decide
  | cons first rest => exact fun same => plain (same ▸ List.mem_cons_self)

theorem filenameFromValue_plain {value : List UChar} (plain : ¬asciiText "=?" <+: value) :
    filenameFromValue context value = some value := by
  have other : (asciiText "=?").isPrefixOf value = false := by
    rw [← Bool.not_eq_true, List.isPrefixOf_iff_prefix]
    exact plain
  simp only [filenameFromValue, other, Bool.false_and, Bool.false_eq_true, if_false]

/-! ### Encoded words -/

theorem find_charset {charset rest : List UChar} (plain : ascii '?' ∉ charset) :
    find (asciiText "B?") (charset ++ ascii '?' :: rest) =
      if charset.getLast? = some (ascii 'B') then some (charset.length - 1)
      else (find (asciiText "B?") (ascii '?' :: rest)).map (· + charset.length) := by
  induction charset with
  | nil => simp
  | cons first others ih =>
    obtain ⟨_, plainOthers⟩ := not_or.mp (mt List.mem_cons.mpr plain)
    rw [List.cons_append, find]
    cases others with
    | nil =>
      have here : (asciiText "B?").isPrefixOf (first :: ([] ++ ascii '?' :: rest)) = decide (first = ascii 'B') := by
        show (ascii 'B' == first && (ascii '?' == ascii '?' && true)) = _
        by_cases same : first = ascii 'B'
        · subst same; rfl
        · simp [same, Ne.symm same]
      rw [here, List.getLast?_singleton]
      simp only [decide_eq_true_eq, Option.some.injEq]
      rfl
    | cons second others =>
      have notHere : (asciiText "B?").isPrefixOf (first :: (second :: others ++ ascii '?' :: rest)) = false := by
        have other : ascii '?' ≠ second := fun same => plainOthers (same ▸ List.mem_cons_self)
        show (ascii 'B' == first && (ascii '?' == second && true)) = false
        simp [other]
      rw [notHere, if_neg Bool.false_ne_true, ih plainOthers, List.getLast?_cons_cons]
      split
      · simp
      · simp [Function.comp_def, Nat.add_assoc]

/-- Where the first `B?` of an encoded word stands. -/
theorem find_encodedWord {charset : List UChar} {bytes : List UInt8} (plain : ascii '?' ∉ charset) :
    find (asciiText "B?") (encodedWord charset bytes) =
      some (if charset.getLast? = some (ascii 'B') then charset.length + 1 else charset.length + 3) := by
  have shape : encodedWord charset bytes = ascii '=' :: ascii '?' ::
      (charset ++ ascii '?' :: (ascii 'B' :: ascii '?' :: base64Text bytes ++ asciiText "?=")) := by
    simp [encodedWord, asciiText]
  have tail (rest : List UChar) :
      find (asciiText "B?") (ascii '?' :: ascii 'B' :: ascii '?' :: rest) = some 1 := rfl
  have front (rest : List UChar) :
      find (asciiText "B?") (ascii '=' :: ascii '?' :: rest) = (find (asciiText "B?") (ascii '?' :: rest)).map
        (· + 1) := rfl
  have next (rest : List UChar) (other : (asciiText "B?").isPrefixOf (ascii '?' :: rest) = false) :
      find (asciiText "B?") (ascii '?' :: rest) = (find (asciiText "B?") rest).map (· + 1) := by
    rw [find, if_neg (by rw [other]; exact Bool.false_ne_true)]
  rw [shape, front, next _ rfl, find_charset plain, List.cons_append, List.cons_append, tail]
  split
  · next ends =>
    have positive : charset.length ≠ 0 := fun none => by
      rw [List.length_eq_zero_iff.mp none] at ends
      cases ends
    simp only [Option.map_some, Option.some.injEq]
    omega
  · simp only [Option.map_some, Option.some.injEq]
    omega

theorem length_encodedWord (charset : List UChar) (bytes : List UInt8) :
    (encodedWord charset bytes).length = charset.length + (base64Text bytes).length + 7 := by
  simp only [encodedWord, List.length_append]
  show 2 + charset.length + 3 + (base64Text bytes).length + 2 = _
  omega

theorem encodedText_append {front text : List UChar} {position : Nat} (start : front.length = position + 2)
    (small : front.length + text.length + 2 < 2 ^ 32) :
    encodedText (front ++ text ++ asciiText "?=") position = text := by
  have length : (front ++ text ++ asciiText "?=").length = position + 2 + text.length + 2 := by
    rw [List.length_append, List.length_append, start]
    rfl
  have first : unsignedSub (position + 2 + text.length + 2) (position + 2) = text.length + 2 := by
    rw [unsignedSub_of_le] <;> omega
  have second : unsignedSub (text.length + 2) 2 = text.length := by
    rw [unsignedSub_of_le] <;> omega
  rw [encodedText, length, first, second, substring, List.append_assoc,
    List.drop_append_of_le_length (Nat.le_of_eq start.symm), List.drop_of_length_le (Nat.le_of_eq start),
      List.nil_append, List.take_left]

/-- The text that is decoded: all of the base64 text, with `B?` before it if the charset ends in `B`. -/
theorem encodedText_encodedWord {charset : List UChar} {bytes : List UInt8}
    (small : (encodedWord charset bytes).length < 2 ^ 32) :
    encodedText (encodedWord charset bytes) (charset.length + 3) = base64Text bytes ∧
      encodedText (encodedWord charset bytes) (charset.length + 1) = asciiText "B?" ++ base64Text bytes := by
  rw [length_encodedWord] at small
  have long : (asciiText "=?" ++ charset ++ asciiText "?B?").length = charset.length + 3 + 2 := by
    simp only [List.length_append]
    show 2 + charset.length + 3 = _
    omega
  have short : (asciiText "=?" ++ charset ++ asciiText "?").length = charset.length + 1 + 2 := by
    simp only [List.length_append]
    show 2 + charset.length + 1 = _
    omega
  have same : encodedWord charset bytes =
      asciiText "=?" ++ charset ++ asciiText "?" ++ (asciiText "B?" ++ base64Text bytes) ++ asciiText "?=" := by
    simp [encodedWord, asciiText]
  constructor
  · exact encodedText_append long (by omega)
  · rw [same]
    refine encodedText_append short ?_
    rw [short, List.length_append]
    show charset.length + 1 + 2 + (2 + (base64Text bytes).length) + 2 < 2 ^ 32
    omega

/-! ### The decoded bytes -/

theorem map_toNat_base64Text (bytes : List UInt8) :
    (base64Text bytes).map UInt16.toNat =
      (encodeGroups .base64 false 0 bytes ++ List.replicate ((3 - bytes.length % 3) % 3) 61).map UInt8.toNat := by
  rw [base64Text, List.map_map]
  exact List.map_congr_left fun character _ => UInt8.toNat_toUInt16 character

theorem base64Output_base64Text (bytes : List UInt8) : base64Output context (base64Text bytes) = bytes := by
  rcases eq_or_ne bytes [] with rfl | nonempty
  · rfl
  · have decoded :=
      @decode_text .base64 .doNotInsertLFs .ignoreWhitespace context.isWhiteSpaceNeutral context.memory bytes
      nofun nonempty false 0 ((3 - bytes.length % 3) % 3) nofun nofun
    rw [← map_toNat_base64Text] at decoded
    simp only [base64Output, decoded]

theorem scan_question (length : Nat) (rest : List Nat) (scanned : Scanned) :
    scan .base64 .ignoreWhitespace context.isWhiteSpaceNeutral length (63 :: rest) scanned = none := by
  have refused : refuses .ignoreWhitespace context.isWhiteSpaceNeutral 63 = true := rfl
  have outside : decodeCharacter .base64 63 = nonAlphabet := by decide
  rw [scan, if_neg (by decide), if_neg (not_not.mpr outside), if_pos refused]

theorem scan_B (length : Nat) (rest : List Nat) (out : List UInt8) :
    scan .base64 .ignoreWhitespace context.isWhiteSpaceNeutral length (66 :: rest) ⟨out, 0, 0⟩ =
      scan .base64 .ignoreWhitespace context.isWhiteSpaceNeutral length rest ⟨out.set 0 1, 1, 0⟩ := by
  have sextet : decodeCharacter .base64 66 = 1 := by decide
  rw [scan, if_neg (by decide), sextet, if_pos (by decide), if_neg (by simp)]

/-- The question mark stops the decoder behind the first sextet. -/
theorem base64Output_behind_B (text : List UChar) :
    base64Output context (asciiText "B?" ++ text) =
      1 :: (List.range (text.length + 1)).map fun index => context.memory (index + 1) := by
  have data : (asciiText "B?" ++ text).map UInt16.toNat = 66 :: 63 :: text.map UInt16.toNat := rfl
  have fails : base64DecodeInternal .base64 .ignoreWhitespace context.isWhiteSpaceNeutral context.memory
      (66 :: 63 :: text.map UInt16.toNat) = none := by
    rw [base64DecodeInternal, if_neg (by simp), scan_B, scan_question]
    rfl
  simp only [base64Output, data, fails, scannedOut, scan_B, scan_question]
  rw [scan, List.length_cons, List.length_cons, List.length_map, List.range_succ_eq_map]
  simp

/-! ### The theorem -/

theorem filenameFromValue_encodedWord {charset : List UChar} {bytes : List UInt8} (plain : ascii '?' ∉ charset)
    (small : (encodedWord charset bytes).length < 2 ^ 32) :
    filenameFromValue context (encodedWord charset bytes) = context.encodings.decode charset bytes ↔
      WordIsRead context charset bytes := by
  have start : (asciiText "=?").isPrefixOf (encodedWord charset bytes) = true := by
    rw [List.isPrefixOf_iff_prefix, encodedWord]
    simp only [List.append_assoc]
    exact List.prefix_append _ _
  have stop : (asciiText "?=").isSuffixOf (encodedWord charset bytes) = true := by
    rw [List.isSuffixOf_iff_suffix]
    exact List.suffix_append _ _
  obtain ⟨whole, behind⟩ := encodedText_encodedWord small
  simp only [filenameFromValue, start, stop, Bool.and_self, if_true, find_encodedWord plain, WordIsRead]
  split
  · rw [behind, base64Output_behind_B]
    rfl
  · rw [whole, base64Output_base64Text]
    have cut : unsignedSub (charset.length + 3) 3 = charset.length := by
      rw [length_encodedWord] at small
      rw [unsignedSub_of_le] <;> omega
    rw [cut]

theorem semicolon_not_mem_base64Text (bytes : List UInt8) : ascii ';' ∉ base64Text bytes := by
  intro present
  obtain ⟨character, there, same⟩ := List.mem_map.mp present
  have code : character = 59 := UInt8.toNat_inj.mp (by rw [← UInt8.toNat_toUInt16, same]; rfl)
  rcases List.mem_append.mp there with written | padding
  · rcases written_encodeGroups .base64 false 0 bytes character written with ⟨index, found⟩ | ⟨inserted, _⟩
    · have outside : sextetOf .base64 59 = none := by decide
      rw [code] at found
      exact nomatch outside.symm.trans found
    · cases inserted
  · rw [List.eq_of_mem_replicate padding] at code
    exact absurd code (by decide)

theorem semicolon_not_mem_quoted {value : List UChar} (plain : ascii ';' ∉ value) : ascii ';' ∉ quoted value := by
  simp only [quoted, List.cons_append, List.mem_cons, List.mem_append, List.not_mem_nil, or_false, not_or]
  exact ⟨by decide, plain, by decide⟩

theorem semicolon_not_mem_encodedWord {charset : List UChar} (plain : ascii ';' ∉ charset) (bytes : List UInt8) :
    ascii ';' ∉ encodedWord charset bytes := by
  simp only [encodedWord, List.mem_append, not_or]
  exact ⟨⟨⟨⟨by decide, plain⟩, by decide⟩, semicolon_not_mem_base64Text bytes⟩, by decide⟩

theorem length_headerOf_quoted (parameters value : List UChar) :
    value.length + 2 ≤ (headerOf parameters (quoted value)).length := by
  simp only [headerOf, quoted, List.length_append, List.length_cons, List.length_nil]
  omega

/-- An encoded word is decoded in its own charset exactly if the wrong piece of text does not matter;
every other value is returned as it was written. -/
theorem filename_eq_iff (context : FilenameContext) (parameters : List UChar)
    (without : WithoutFilename context parameters) :
    (∀ charset bytes, context.encodings.knows charset = true → ascii '?' ∉ charset →
      (headerOf parameters (quoted (encodedWord charset bytes))).length < 2 ^ 32 →
      (filenameFromHTTPContentDisposition context (headerOf parameters (quoted (encodedWord charset bytes))) =
        context.encodings.decode charset bytes ↔ WordIsRead context charset bytes)) ∧
    ∀ value, ascii ';' ∉ value → ascii '"' ∉ value → ¬asciiText "=?" <+: value →
      (headerOf parameters (quoted value)).length < 2 ^ 32 →
      filenameFromHTTPContentDisposition context (headerOf parameters (quoted value)) = some value ∧
        (stripWhiteSpace context value = value →
          filenameFromHTTPContentDisposition context (headerOf parameters value) = some value) := by
  refine ⟨fun charset bytes known plain small => ?_,
    fun value noSemicolon noQuote plain small => ⟨?_, fun stripped => ?_⟩⟩
  · have shorter := length_headerOf_quoted parameters (encodedWord charset bytes)
    rw [filename_headerOf without
        (semicolon_not_mem_quoted (semicolon_not_mem_encodedWord (context.encodings.plain charset known) bytes)),
      stripWhiteSpace_quoted, removeQuotes_quoted (by omega)]
    exact filenameFromValue_encodedWord plain (by omega)
  · have shorter := length_headerOf_quoted parameters value
    rw [filename_headerOf without (semicolon_not_mem_quoted noSemicolon), stripWhiteSpace_quoted,
      removeQuotes_quoted (by omega), filenameFromValue_plain plain]
  · rw [filename_headerOf without noSemicolon, stripped, removeQuotes_plain noQuote, filenameFromValue_plain plain]

/-- A registry that knows UTF-8 only, and decodes ASCII. -/
def asciiOnly : FilenameContext where
  encodings :=
    { knows := fun name => name == asciiText "utf-8"
      decode := fun name bytes => if name = asciiText "utf-8" then some (bytes.map UInt8.toUInt16) else none
      plain := fun name known => by rw [beq_iff_eq.mp known]; decide }
  isWhiteSpaceNeutral _ := false
  memory _ := 170

theorem filename_report :
    filenameFromHTTPContentDisposition asciiOnly (headerOf (asciiText "attachment") (quoted (asciiText "a b.txt"))) =
      some (asciiText "a b.txt") :=
  ((filename_eq_iff asciiOnly (asciiText "attachment") (by decide)).2 (asciiText "a b.txt") (by decide) (by decide)
    (by decide) (by decide)).1

/-- The name `abc` encoded as UTF-8 is lost. -/
theorem filename_loses_abc :
    asciiOnly.encodings.decode (asciiText "utf-8") [97, 98, 99] = some (asciiText "abc") ∧
      encodedWord (asciiText "utf-8") [97, 98, 99] = asciiText "=?utf-8?B?YWJj?=" ∧
      filenameFromHTTPContentDisposition asciiOnly
        (headerOf (asciiText "attachment") (quoted (encodedWord (asciiText "utf-8") [97, 98, 99]))) = none := by
  decide +kernel

end WebNode.Network
