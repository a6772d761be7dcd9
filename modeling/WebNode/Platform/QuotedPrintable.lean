import Mathlib.Data.List.Basic

/-!
# Quoted-printable text

`QuotedPrintable.cpp` writes line endings as CRLF, escapes bytes as `=XX` and breaks long lines with `=`
at their ends. The loops run over what is left of the input; the encoder jumps over the second byte of a CRLF.
-/

namespace WebNode.Platform.QuotedPrintable

def maximumLineLength : Nat := 76

def crlfLineEnding : List UInt8 := [0x0D, 0x0A]

def isASCIIDigit (c : UInt8) : Bool :=
  0x30 ≤ c && c ≤ 0x39

def isASCIIHexDigit (c : UInt8) : Bool :=
  isASCIIDigit c || (0x61 ≤ c ||| 0x20 && c ||| 0x20 ≤ 0x66)

def isASCIIPrintable (c : UInt8) : Bool :=
  0x20 ≤ c && c ≤ 0x7E

def nibbleToASCIIHexDigit (nibble : UInt8) : UInt8 :=
  if nibble < 10 then 0x30 + nibble else 0x41 + nibble - 10

def lowerNibbleToASCIIHexDigit (c : UInt8) : UInt8 :=
  nibbleToASCIIHexDigit (c &&& 0xF)

def upperNibbleToASCIIHexDigit (c : UInt8) : UInt8 :=
  nibbleToASCIIHexDigit ((c >>> 4) &&& 0xF)

def digitValue (c : UInt8) : UInt8 :=
  if c < 0x41 then c - 0x30 else (c - 0x41 + 10) &&& 0xF

def toASCIIHexValue (upperValue lowerValue : UInt8) : UInt8 :=
  ((digitValue upperValue <<< 4) &&& 0xF0) ||| digitValue lowerValue

/-- The length of the line ending that the text starts with; 0 for none, or for no text. -/
def lengthOfLineEndingAtIndex : List UInt8 → Nat
  | [] => 0
  | c :: rest => if c = 0x0A then 1 else if c = 0x0D then (if rest.head? = some 0x0A then 2 else 1) else 0

def requiresEncoding (currentCharacter : UInt8) (rest : List UInt8) : Bool :=
  ((currentCharacter < 0x20 || currentCharacter > 0x7E || currentCharacter = 0x3D) && currentCharacter ≠ 0x09) ||
    ((currentCharacter = 0x09 || currentCharacter = 0x20) && (rest.isEmpty || lengthOfLineEndingAtIndex rest ≠ 0))

/-- The room that a character needs; before another one, also for the `=` of a soft line break. -/
def lengthOfEncodedCharacter (currentCharacter : UInt8) (rest : List UInt8) : Nat :=
  1 + (if requiresEncoding currentCharacter rest then 2 else 0) + (if rest.isEmpty then 0 else 1)

/-- What is written for one character that is no line ending. -/
def encodedCharacter (currentCharacter : UInt8) (rest : List UInt8) : List UInt8 :=
  if requiresEncoding currentCharacter rest then
    [0x3D, upperNibbleToASCIIHexDigit currentCharacter, lowerNibbleToASCIIHexDigit currentCharacter]
  else [currentCharacter]

/-- The loop of the encoder, with the characters it still jumps over and the length of the current line. -/
def encodeFrom : List UInt8 → Nat → Nat → List UInt8
  | [], _, _ => []
  | _ :: rest, skipped + 1, currentLineLength => encodeFrom rest skipped currentLineLength
  | currentCharacter :: rest, 0, currentLineLength =>
    let lengthOfLineEnding := lengthOfLineEndingAtIndex (currentCharacter :: rest)
    if !rest.isEmpty && lengthOfLineEnding ≠ 0 then crlfLineEnding ++ encodeFrom rest (lengthOfLineEnding - 1) 0
    else
      let encoded := encodedCharacter currentCharacter rest
      if currentLineLength + lengthOfEncodedCharacter currentCharacter rest > maximumLineLength then
        0x3D :: crlfLineEnding ++ encoded ++ encodeFrom rest 0 encoded.length
      else encoded ++ encodeFrom rest 0 (currentLineLength + encoded.length)

def quotedPrintableEncode (input : List UInt8) : List UInt8 :=
  encodeFrom input 0 0

def quotedPrintableDecode : List UInt8 → List UInt8
  | currentCharacter :: upperCharacter :: lowerCharacter :: behind =>
    if currentCharacter ≠ 0x3D then
      currentCharacter :: quotedPrintableDecode (upperCharacter :: lowerCharacter :: behind)
    else if upperCharacter = 0x0D ∧ lowerCharacter = 0x0A then quotedPrintableDecode behind
    else if !isASCIIHexDigit upperCharacter || !isASCIIHexDigit lowerCharacter then
      0x3D :: upperCharacter :: lowerCharacter :: quotedPrintableDecode behind
    else toASCIIHexValue upperCharacter lowerCharacter :: quotedPrintableDecode behind
  -- A character other than `=`, or an unfinished sequence.
  | currentCharacter :: rest => currentCharacter :: quotedPrintableDecode rest
  | [] => []

/-! ### The purpose -/

/-- Every line ending made CRLF, but for a single CR or LF at the end. -/
def normalised : List UInt8 → List UInt8
  | [] => []
  | [last] => [last]
  | 0x0D :: 0x0A :: rest => crlfLineEnding ++ normalised rest
  | c :: next :: rest => (if c = 0x0D ∨ c = 0x0A then crlfLineEnding else [c]) ++ normalised (next :: rest)

/-- A line of the encoding, of which `used` characters have been written. -/
structure IsLineFrom (used : Nat) (line : List UInt8) : Prop where
  fits : used + line.length ≤ maximumLineLength
  printable : ∀ c ∈ line, isASCIIPrintable c ∨ c = 0x09
  notBlank : ∀ c ∈ line.getLast?, c ≠ 0x20 ∧ c ≠ 0x09

/-! ### Characters -/

theorem forall_byte {property : UInt8 → Prop} (every : ∀ n : Fin 256, property (UInt8.ofFin n)) (c : UInt8) :
    property c :=
  every c.toFin

/-- The two digits of a byte, and what a digit is: printable, no blank, and not the end of a line. -/
theorem hexDigit_facts : ∀ c,
    (isASCIIHexDigit (upperNibbleToASCIIHexDigit c) = true ∧ isASCIIHexDigit (lowerNibbleToASCIIHexDigit c) = true ∧
      toASCIIHexValue (upperNibbleToASCIIHexDigit c) (lowerNibbleToASCIIHexDigit c) = c) ∧
    (isASCIIHexDigit c = true → isASCIIPrintable c = true ∧ c ≠ 0x20 ∧ c ≠ 0x09 ∧ c ≠ 0x0D) :=
  forall_byte (by decide +kernel)

theorem upperNibble_hex (c : UInt8) : isASCIIHexDigit (upperNibbleToASCIIHexDigit c) = true :=
  (hexDigit_facts c).1.1

theorem lowerNibble_hex (c : UInt8) : isASCIIHexDigit (lowerNibbleToASCIIHexDigit c) = true :=
  (hexDigit_facts c).1.2.1

theorem toASCIIHexValue_nibbles (c : UInt8) :
    toASCIIHexValue (upperNibbleToASCIIHexDigit c) (lowerNibbleToASCIIHexDigit c) = c :=
  (hexDigit_facts c).1.2.2

theorem hexDigit_plain (c : UInt8) (isDigit : isASCIIHexDigit c = true) :
    isASCIIPrintable c = true ∧ c ≠ 0x20 ∧ c ≠ 0x09 ∧ c ≠ 0x0D :=
  (hexDigit_facts c).2 isDigit

theorem plain_of_not_requiresEncoding {c : UInt8} {rest : List UInt8} (plain : requiresEncoding c rest = false) :
    (isASCIIPrintable c ∨ c = 0x09) ∧ c ≠ 0x3D ∧
      (c = 0x20 ∨ c = 0x09 → rest ≠ [] ∧ lengthOfLineEndingAtIndex rest = 0) := by
  simp only [requiresEncoding, Bool.or_eq_false_iff, Bool.and_eq_false_iff, decide_eq_false_iff_not, Decidable.not_not,
    List.isEmpty_eq_false_iff] at plain
  obtain ⟨ordinary, blank⟩ := plain
  refine ⟨?_, ?_, fun isBlank => ?_⟩
  · rcases ordinary with ⟨⟨low, high⟩, _⟩ | tab
    · exact .inl (by simpa [isASCIIPrintable] using ⟨UInt8.not_lt.1 low, UInt8.not_lt.1 high⟩)
    · exact .inr tab
  · rintro rfl
    simp at ordinary
  · rcases blank with neither | follows
    · exact absurd isBlank.symm (by simpa using neither)
    · simpa using follows

theorem encodedCharacter_length (c : UInt8) (rest : List UInt8) :
    lengthOfEncodedCharacter c rest = (encodedCharacter c rest).length + (if rest.isEmpty then 0 else 1) ∧
      0 < (encodedCharacter c rest).length ∧ (encodedCharacter c rest).length ≤ 3 := by
  rw [lengthOfEncodedCharacter, encodedCharacter]
  cases requiresEncoding c rest with
  | false => exact ⟨rfl, Nat.one_pos, Nat.le_add_left 1 2⟩
  | true => exact ⟨rfl, Nat.succ_pos 2, Nat.le_refl 3⟩

theorem lengthOfEncodedCharacter_le (c : UInt8) (rest : List UInt8) : lengthOfEncodedCharacter c rest ≤ 4 := by
  obtain ⟨same, _, small⟩ := encodedCharacter_length c rest
  rw [same]
  split
  · exact Nat.le_succ_of_le small
  · exact Nat.succ_le_succ small

/-! ### A round of the encoder -/

theorem encodeFrom_lineEnding {c : UInt8} {rest : List UInt8} (more : rest ≠ [])
    (ending : lengthOfLineEndingAtIndex (c :: rest) ≠ 0) (used : Nat) :
    encodeFrom (c :: rest) 0 used =
      crlfLineEnding ++ encodeFrom rest (lengthOfLineEndingAtIndex (c :: rest) - 1) 0 := by
  have taken : (!rest.isEmpty && decide (lengthOfLineEndingAtIndex (c :: rest) ≠ 0)) = true := by simp [more, ending]
  rw [encodeFrom, if_pos taken]

theorem encodeFrom_other {c : UInt8} {rest : List UInt8} (other : rest = [] ∨ lengthOfLineEndingAtIndex (c :: rest) = 0)
    (used : Nat) :
    encodeFrom (c :: rest) 0 used =
      if used + lengthOfEncodedCharacter c rest > maximumLineLength then
        0x3D :: crlfLineEnding ++ encodedCharacter c rest ++ encodeFrom rest 0 (encodedCharacter c rest).length
      else encodedCharacter c rest ++ encodeFrom rest 0 (used + (encodedCharacter c rest).length) := by
  have notTaken : ¬ (!rest.isEmpty && decide (lengthOfLineEndingAtIndex (c :: rest) ≠ 0)) = true := by
    rcases other with nothing | none
    · simp [nothing]
    · simp [none]
  rw [encodeFrom, if_neg notTaken]

theorem lineEnding_or_other (c : UInt8) (rest : List UInt8) :
    (rest ≠ [] ∧ lengthOfLineEndingAtIndex (c :: rest) ≠ 0) ∨ rest = [] ∨
      lengthOfLineEndingAtIndex (c :: rest) = 0 := by
  by_cases nothing : rest = []
  · exact .inr (.inl nothing)
  · by_cases none : lengthOfLineEndingAtIndex (c :: rest) = 0
    · exact .inr (.inr none)
    · exact .inl ⟨nothing, none⟩

/-! ### Decoding -/

theorem decode_plain {c : UInt8} (plain : c ≠ 0x3D) (rest : List UInt8) :
    quotedPrintableDecode (c :: rest) = c :: quotedPrintableDecode rest := by
  match rest with
  | [] => rfl
  | [_] => rfl
  | _ :: _ :: _ => rw [quotedPrintableDecode, if_pos plain]

theorem decode_softBreak (rest : List UInt8) :
    quotedPrintableDecode (0x3D :: crlfLineEnding ++ rest) = quotedPrintableDecode rest := by
  simp [crlfLineEnding, quotedPrintableDecode]

theorem decode_crlf (rest : List UInt8) :
    quotedPrintableDecode (crlfLineEnding ++ rest) = crlfLineEnding ++ quotedPrintableDecode rest := by
  simp [crlfLineEnding, decode_plain]

theorem decode_encodedCharacter (c : UInt8) (following rest : List UInt8) :
    quotedPrintableDecode (encodedCharacter c following ++ rest) = c :: quotedPrintableDecode rest := by
  rw [encodedCharacter]
  cases encoding : requiresEncoding c following with
  | false => exact decode_plain (plain_of_not_requiresEncoding encoding).2.1 rest
  | true =>
    have noReturn := (hexDigit_plain _ (upperNibble_hex c)).2.2.2
    simp [quotedPrintableDecode, upperNibble_hex, lowerNibble_hex, toASCIIHexValue_nibbles, noReturn]

theorem normalised_lineEnding {c : UInt8} {rest : List UInt8} (more : rest ≠ [])
    (ending : lengthOfLineEndingAtIndex (c :: rest) ≠ 0) :
    normalised (c :: rest) =
      crlfLineEnding ++ normalised (rest.drop (lengthOfLineEndingAtIndex (c :: rest) - 1)) := by
  obtain ⟨next, rest, rfl⟩ := List.exists_cons_of_ne_nil more
  rw [lengthOfLineEndingAtIndex] at ending ⊢
  by_cases feed : c = 0x0A
  · subst feed
    simp [normalised]
  · by_cases isReturn : c = 0x0D
    · subst isReturn
      by_cases follows : next = 0x0A
      · subst follows
        simp [normalised]
      · simp [normalised, follows]
    · simp [feed, isReturn] at ending

theorem normalised_other {c : UInt8} {rest : List UInt8}
    (other : rest = [] ∨ lengthOfLineEndingAtIndex (c :: rest) = 0) :
    normalised (c :: rest) = c :: normalised rest := by
  cases rest with
  | nil => rfl
  | cons next rest =>
    have none : c ≠ 0x0A ∧ c ≠ 0x0D := by
      have zero := other.resolve_left (List.cons_ne_nil next rest)
      rw [lengthOfLineEndingAtIndex] at zero
      split at zero
      · exact absurd zero (by decide)
      · next notFeed =>
        refine ⟨notFeed, fun isReturn => ?_⟩
        rw [if_pos isReturn] at zero
        split at zero <;> exact absurd zero (by decide)
    simp [normalised, none]

theorem decode_encodeFrom (input : List UInt8) (skipped currentLineLength : Nat) :
    quotedPrintableDecode (encodeFrom input skipped currentLineLength) = normalised (input.drop skipped) := by
  induction input generalizing skipped currentLineLength with
  | nil => simp [encodeFrom, quotedPrintableDecode, normalised]
  | cons c rest ih =>
    cases skipped with
    | succ skipped => exact ih ..
    | zero =>
      rw [List.drop_zero]
      rcases lineEnding_or_other c rest with ⟨more, ending⟩ | other
      · rw [encodeFrom_lineEnding more ending, decode_crlf, ih, normalised_lineEnding more ending]
      · rw [encodeFrom_other other, normalised_other other]
        split
        · rw [List.append_assoc, decode_softBreak, decode_encodedCharacter, ih, List.drop_zero]
        · rw [decode_encodedCharacter, ih, List.drop_zero]

/-! ### Lines -/

theorem intercalate_append_left {α : Type} (separator front first : List α) (rest : List (List α)) :
    front ++ List.intercalate separator (first :: rest) = List.intercalate separator ((front ++ first) :: rest) := by
  cases rest with
  | nil => simp [List.intercalate]
  | cons second rest => simp only [List.intercalate_cons_cons, List.append_assoc]

theorem mem_intercalate {α : Type} {x : α} {separator : List α} {lines : List (List α)}
    (member : x ∈ List.intercalate separator lines) : x ∈ separator ∨ ∃ line ∈ lines, x ∈ line := by
  induction lines with
  | nil => simp [List.intercalate] at member
  | cons first rest ih =>
    cases rest with
    | nil => exact .inr ⟨first, List.mem_cons_self, by simpa [List.intercalate] using member⟩
    | cons second rest =>
      rw [List.intercalate_cons_cons, List.mem_append, List.mem_append] at member
      rcases member with (inFirst | inSeparator) | inRest
      · exact .inr ⟨first, List.mem_cons_self, inFirst⟩
      · exact .inl inSeparator
      · exact (ih inRest).imp_right fun ⟨line, isLine, inLine⟩ => ⟨line, List.mem_cons_of_mem _ isLine, inLine⟩

/-- A character at the front of a line: a blank stands only before something else. -/
theorem IsLineFrom.encodedCharacter {c : UInt8} {rest line : List UInt8} {used : Nat}
    (isLine : IsLineFrom (used + (encodedCharacter c rest).length) line)
    (continues : line = [] → rest = [] ∨ lengthOfLineEndingAtIndex rest ≠ 0) :
    IsLineFrom used (QuotedPrintable.encodedCharacter c rest ++ line) where
  fits := by
    rw [List.length_append, ← Nat.add_assoc]
    exact isLine.fits
  printable x member := by
    rw [QuotedPrintable.encodedCharacter] at member
    cases encoding : requiresEncoding c rest with
    | false =>
      rw [encoding, if_neg Bool.false_ne_true, List.singleton_append, List.mem_cons] at member
      rcases member with rfl | member
      · exact (plain_of_not_requiresEncoding encoding).1
      · exact isLine.printable x member
    | true =>
      simp only [encoding, if_true, List.cons_append, List.nil_append, List.mem_cons] at member
      rcases member with rfl | rfl | rfl | member
      · exact .inl rfl
      · exact .inl (hexDigit_plain _ (upperNibble_hex c)).1
      · exact .inl (hexDigit_plain _ (lowerNibble_hex c)).1
      · exact isLine.printable x member
  notBlank x last := by
    rw [List.getLast?_append] at last
    cases line with
    | cons first line =>
      refine isLine.notBlank x ?_
      simpa [List.getLast?_cons] using last
    | nil =>
      rw [QuotedPrintable.encodedCharacter] at last
      cases encoding : requiresEncoding c rest with
      | false =>
        obtain rfl : c = x := by simpa [encoding] using last
        have follows := (plain_of_not_requiresEncoding encoding).2.2
        rcases continues rfl with nothing | ending
        · exact not_or.1 fun blank => (follows blank).1 nothing
        · exact not_or.1 fun blank => ending (follows blank).2
      | true =>
        obtain rfl : lowerNibbleToASCIIHexDigit c = x := by simpa [encoding] using last
        obtain ⟨_, notSpace, notTab, _⟩ := hexDigit_plain _ (lowerNibble_hex c)
        exact ⟨notSpace, notTab⟩

/-- From the middle of a line on, the encoding finishes that line and writes further ones. The line is finished at once
only where the text ends or the source has a line ending. -/
theorem encodeFrom_lines (input : List UInt8) (skipped : Nat) {used : Nat}
    (fits : used < maximumLineLength ∨ input.drop skipped = [] ∧ used = maximumLineLength) :
    ∃ line lines, encodeFrom input skipped used = List.intercalate crlfLineEnding (line :: lines) ∧
      IsLineFrom used line ∧ (∀ other ∈ lines, IsLineFrom 0 other) ∧
      (line = [] → input.drop skipped = [] ∨ lengthOfLineEndingAtIndex (input.drop skipped) ≠ 0) := by
  induction input generalizing skipped used with
  | nil =>
    refine ⟨[], [], by simp [encodeFrom], ⟨?_, by simp, by simp⟩, by simp, fun _ => .inl List.drop_nil⟩
    rcases fits with below | ⟨_, full⟩
    · exact Nat.le_of_lt below
    · exact Nat.le_of_eq full
  | cons c rest ih =>
    cases skipped with
    | succ skipped => exact ih skipped fits
    | zero =>
      rw [List.drop_zero] at fits ⊢
      have below : used < maximumLineLength := fits.resolve_right fun empty => List.cons_ne_nil _ _ empty.1
      rcases lineEnding_or_other c rest with ⟨more, ending⟩ | other
      · obtain ⟨line, lines, written, isLine, areLines, _⟩ :=
          @ih (lengthOfLineEndingAtIndex (c :: rest) - 1) 0 (.inl (by decide))
        refine ⟨[], line :: lines, ?_, ⟨Nat.le_of_lt below, by simp, by simp⟩, ?_, fun _ => .inr ending⟩
        · rw [encodeFrom_lineEnding more ending, written, List.intercalate_cons_cons, List.nil_append]
        · exact List.forall_mem_cons.2 ⟨isLine, areLines⟩
      · -- The rest of a line, with the character in front.
        have inLine (start : Nat) (room : start + lengthOfEncodedCharacter c rest ≤ maximumLineLength) :
            ∃ line lines, encodedCharacter c rest ++ encodeFrom rest 0 (start + (encodedCharacter c rest).length) =
                List.intercalate crlfLineEnding ((encodedCharacter c rest ++ line) :: lines) ∧
              IsLineFrom start (encodedCharacter c rest ++ line) ∧ ∀ other ∈ lines, IsLineFrom 0 other := by
          have fitsRest : start + (encodedCharacter c rest).length < maximumLineLength ∨
              rest.drop 0 = [] ∧ start + (encodedCharacter c rest).length = maximumLineLength := by
            rw [(encodedCharacter_length c rest).1] at room
            cases rest with
            | nil => exact (Nat.lt_or_eq_of_le room).imp_right fun full => ⟨rfl, full⟩
            | cons next rest => exact .inl room
          obtain ⟨line, lines, written, isLine, areLines, continues⟩ := ih 0 fitsRest
          rw [List.drop_zero] at continues
          exact ⟨line, lines, by rw [written, intercalate_append_left], isLine.encodedCharacter continues, areLines⟩
        have nonempty (line : List UInt8) : encodedCharacter c rest ++ line ≠ [] :=
          List.append_ne_nil_of_left_ne_nil (List.ne_nil_of_length_pos (encodedCharacter_length c rest).2.1) line
        rw [encodeFrom_other other]
        split
        · have small : 0 + lengthOfEncodedCharacter c rest ≤ maximumLineLength :=
            Nat.zero_add _ ▸ Nat.le_trans (lengthOfEncodedCharacter_le c rest) (by decide)
          obtain ⟨line, lines, written, isLine, areLines⟩ := inLine 0 small
          rw [Nat.zero_add] at written
          refine ⟨[0x3D], (encodedCharacter c rest ++ line) :: lines, ?_, ⟨below, ?_, ?_⟩, ?_, ?_⟩
          · rw [List.intercalate_cons_cons, ← written]
            simp
          · simp [isASCIIPrintable]
          · simp
          · exact List.forall_mem_cons.2 ⟨isLine, areLines⟩
          · exact fun empty => absurd empty (List.cons_ne_nil _ _)
        · next fitsHere =>
          obtain ⟨line, lines, written, isLine, areLines⟩ := inLine used (Nat.not_lt.1 fitsHere)
          exact ⟨_, lines, written, isLine, areLines, fun empty => absurd empty (nonempty line)⟩

/-- Decoding what was encoded gives the text with CRLF line endings; the encoding is made of lines of at most 76
printable characters or tabs, none of which ends in a blank. -/
theorem encode_invertible_wellFormed (input : List UInt8) :
    quotedPrintableDecode (quotedPrintableEncode input) = normalised input ∧
      ∃ lines, quotedPrintableEncode input = List.intercalate crlfLineEnding lines ∧
      ∀ line ∈ lines, IsLineFrom 0 line := by
  refine ⟨decode_encodeFrom input 0 0, ?_⟩
  obtain ⟨line, lines, written, isLine, areLines, _⟩ := @encodeFrom_lines input 0 0 (.inl (by decide))
  exact ⟨line :: lines, written, List.forall_mem_cons.2 ⟨isLine, areLines⟩⟩

/-- A tab before other text is written as it is, and is no printable character. -/
theorem tab_kept :
    quotedPrintableEncode [0x09, 0x61] = [0x09, 0x61] ∧ isASCIIPrintable 0x09 = false ∧
      ¬ ∃ lines, quotedPrintableEncode [0x09, 0x61] = List.intercalate crlfLineEnding lines ∧
        ∀ line ∈ lines, line.length ≤ maximumLineLength ∧ ∀ c ∈ line, isASCIIPrintable c = true := by
  refine ⟨by decide, by decide, fun ⟨lines, written, printable⟩ => ?_⟩
  have tab : (0x09 : UInt8) ∈ List.intercalate crlfLineEnding lines := written ▸ by decide
  rcases mem_intercalate tab with ending | ⟨line, isLine, inLine⟩
  · exact absurd ending (by decide)
  · exact absurd ((printable line isLine).2 _ inLine) (by decide)

end WebNode.Platform.QuotedPrintable
