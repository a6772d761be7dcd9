import WebNode.Yarr.CharacterClass

/-!
# Matching a code unit in an ignore-case pattern

A code unit is compared as a pattern character, as the only element of a class, and as the text of a back reference.
-/

namespace WebNode.Yarr

open WebNode.Yarr.Parser

/-- The case mappings of the platform. Only what they do to ASCII is assumed. -/
structure CaseMapping where
  u_tolower : Nat → Nat
  u_toupper : Nat → Nat
  tolower_ascii : ∀ ch ≤ 0x7F, u_tolower ch = toASCIILower ch
  toupper_ascii : ∀ ch ≤ 0x7F, u_toupper ch = toASCIIUpper ch

def isCanonicallyUnique (table : CanonicalizationTable) (ch : Nat) : Bool :=
  match table.rangeInfoFor ch with
  | [] => false
  | info :: _ => info.type = .unique

/-- The terms of a pattern that match one character. -/
inductive PatternTerm where
  | patternCharacter (ch : Nat)
  | characterClass (characters : CharacterClass)
  deriving DecidableEq, Repr

/-- Their byte code. A cased character is matched in either case. -/
inductive ByteTerm where
  | patternCharacter (ch : Nat)
  | patternCasedCharacter (lo hi : Nat)
  | characterClass (characters : CharacterClass)
  deriving DecidableEq, Repr

/-- `YarrPatternConstructor::atomPatternCharacter`. -/
def atomPatternCharacter (table : CanonicalizationTable) (ignoreCase : Bool) (ch : Nat) : PatternTerm :=
  if !ignoreCase || decide (ch ≤ 0x7F) then .patternCharacter ch
  else match table.rangeInfoFor ch with
    | [] => .patternCharacter ch
    | info :: _ =>
      if info.type = .unique then .patternCharacter ch
      else .characterClass (CharacterClass.empty.putUnicodeIgnoreCase table ch info)

/-- A class of one character, between `atomCharacterClassBegin` and `atomCharacterClassEnd`. -/
def atomCharacterClass (table : CanonicalizationTable) (ignoreCase : Bool) (ch : Nat) : PatternTerm :=
  .characterClass (CharacterClass.empty.putChar table ignoreCase ch)

/-- The byte code of a term. The mapped characters are stored as code units. -/
def PatternTerm.compile (mapping : CaseMapping) (ignoreCase : Bool) : PatternTerm → ByteTerm
  | .patternCharacter ch =>
    let lo := mapping.u_tolower ch % 0x10000
    let hi := mapping.u_toupper ch % 0x10000
    if ignoreCase && decide (lo ≠ hi) then .patternCasedCharacter lo hi else .patternCharacter ch
  | .characterClass characters => .characterClass characters

def ByteTerm.check : ByteTerm → Nat → Bool
  | .patternCharacter testChar, ch => testChar = ch
  | .patternCasedCharacter loChar hiChar, ch => loChar = ch || hiChar = ch
  | .characterClass characters, ch => characters.testCharacterClass ch

/-- One round of `tryConsumeBackReference`. -/
def checkBackReference (table : CanonicalizationTable) (ignoreCase : Bool) (oldCh ch : Nat) : Bool :=
  oldCh = ch || ignoreCase &&
    if oldCh ≤ 0x7F ∨ ch ≤ 0x7F then toASCIIUpper oldCh = toASCIIUpper ch else table.areCanonicallyEquivalent oldCh ch

/-- `tryConsumeBackReference`: the input behind the text that was captured, when it stands there. -/
def tryConsumeBackReference (table : CanonicalizationTable) (ignoreCase : Bool) (captured input : List Nat) :
    Option (List Nat) :=
  if input.length < captured.length then none
  else if (captured.zip input).all fun (oldCh, ch) => checkBackReference table ignoreCase oldCh ch then
    some (input.drop captured.length)
  else none

/-- The comparison that the three uses are to share. -/
def SameIgnoringCase (table : CanonicalizationTable) (c d : Nat) : Prop :=
  d = c ∨ (c ≤ 0x7F ∧ d ≤ 0x7F ∧ toASCIIUpper c = toASCIIUpper d) ∨
    (0x7F < c ∧ 0x7F < d ∧ table.areCanonicallyEquivalent c d = true)

section Uses

variable {table : CanonicalizationTable} (wellFormed : table.WellFormed) (mapping : CaseMapping) {c d : Nat}

include wellFormed

theorem sameIgnoringCase_iff (unit : c ≤ 0xFFFF) :
    SameIgnoringCase table c d ↔ d = c ∨ table.areCanonicallyEquivalent c d = true := by
  refine or_congr_right ?_
  rcases Nat.lt_or_ge 0x7F c with unicode | ascii
  · constructor
    · rintro (both | both)
      · omega
      · exact both.2.2
    · intro related
      have apart := wellFormed.apart c d unit related
      exact .inr ⟨unicode, by omega, related⟩
  · constructor
    · rintro (both | both)
      · exact (wellFormed.ascii c d ascii both.2.1).mpr both.2.2
      · omega
    · intro related
      have asciiToo := (wellFormed.apart c d unit related).mp ascii
      exact .inl ⟨ascii, asciiToo, (wellFormed.ascii c d ascii asciiToo).mp related⟩

theorem check_class_iff (unit : c ≤ 0xFFFF) (unitToo : d ≤ 0xFFFF) :
    ((atomCharacterClass table true c).compile mapping true).check d = true ↔ SameIgnoringCase table c d := by
  obtain ⟨valid, contents⟩ := CharacterClass.adds_putChar wellFormed true unit CharacterClass.valid_empty
  rw [atomCharacterClass, PatternTerm.compile, ByteTerm.check, valid.test_iff unitToo, contents,
    or_iff_right (CharacterClass.not_contains_empty d), sameIgnoringCase_iff wellFormed unit]
  simp only [true_and]

omit wellFormed in
theorem check_backReference_iff :
    (tryConsumeBackReference table true [c] [d]).isSome = true ↔ SameIgnoringCase table c d := by
  have upper := toASCIIUpper_eq_iff c d
  have round : checkBackReference table true c d = true ↔ SameIgnoringCase table c d := by
    simp only [checkBackReference, SameIgnoringCase, Bool.or_eq_true, Bool.true_and, decide_eq_true_iff]
    refine or_congr eq_comm ?_
    split
    · next ascii =>
      rw [decide_eq_true_iff]
      omega
    · next unicode =>
      exact ⟨fun related => .inr ⟨by omega, by omega, related⟩, fun either => either.elim (by omega) (·.2.2)⟩
  rw [← round, tryConsumeBackReference, if_neg (by simp)]
  simp only [List.zip_cons_cons, List.zip_nil_left, List.all_cons, List.all_nil, Bool.and_true]
  split <;> simp [*]

/-- An entry of its own relates a code unit to nothing else. -/
theorem sameIgnoringCase_unique (unit : c ≤ 0xFFFF) (unique : isCanonicallyUnique table c = true) :
    SameIgnoringCase table c d ↔ d = c := by
  obtain ⟨before, info, after, found, entries, holds⟩ := exists_rangeInfoFor wellFormed.consecutive unit
  rw [isCanonicallyUnique, found] at unique
  rw [sameIgnoringCase_iff wellFormed unit, equivalent_eq wellFormed.consecutive entries holds,
    CanonicalizationTable.equivalentIn, of_decide_eq_true unique, decide_eq_true_iff]
  exact or_iff_left_of_imp Eq.symm

/-- A letter of ASCII is compared with both of its cases. -/
theorem check_ascii_iff (ascii : c ≤ 0x7F) :
    ((atomPatternCharacter table true c).compile mapping true).check d = true ↔ SameIgnoringCase table c d := by
  have upper := toASCIIUpper_eq_iff c d
  rw [sameIgnoringCase_iff wellFormed (by omega), CharacterClass.ascii_equivalent_iff wellFormed ascii]
  simp only [atomPatternCharacter, ascii, PatternTerm.compile, mapping.tolower_ascii c ascii,
    mapping.toupper_ascii c ascii, decide_true, Bool.or_true, if_true, Bool.true_and, decide_eq_true_iff]
  have lower : toASCIILower c = if 0x41 ≤ c ∧ c ≤ 0x5A then c + 0x20 else c := by
    simp only [toASCIILower, isASCIIUpper, Bool.and_eq_true, decide_eq_true_iff]
    rfl
  have raise : toASCIIUpper c = if 0x61 ≤ c ∧ c ≤ 0x7A then c - 0x20 else c := by
    simp only [toASCIIUpper, isASCIILower, Bool.and_eq_true, decide_eq_true_iff]
    rfl
  rw [lower, raise]
  split_ifs <;> simp only [ByteTerm.check, Bool.or_eq_true, decide_eq_true_iff] <;> omega

/-- A code unit that has equivalents is matched as a class. -/
theorem check_paired_iff (unicode : 0x7F < c) (unit : c ≤ 0xFFFF) (unitToo : d ≤ 0xFFFF)
    (paired : isCanonicallyUnique table c = false) :
    ((atomPatternCharacter table true c).compile mapping true).check d = true ↔ SameIgnoringCase table c d := by
  obtain ⟨before, info, after, found, entries, holds⟩ := exists_rangeInfoFor wellFormed.consecutive unit
  rw [isCanonicallyUnique, found] at paired
  have notUnique := of_decide_eq_false paired
  obtain ⟨valid, contents⟩ :=
    CharacterClass.adds_putUnicodeIgnoreCase wellFormed entries holds notUnique unicode unit CharacterClass.valid_empty
  rw [atomPatternCharacter, if_neg (by simpa using unicode), found]
  dsimp only
  rw [if_neg notUnique, PatternTerm.compile, ByteTerm.check, valid.test_iff unitToo, contents,
    or_iff_right (CharacterClass.not_contains_empty d), sameIgnoringCase_iff wellFormed unit]
  refine (or_iff_right_of_imp ?_).symm
  rintro rfl
  exact wellFormed.reflexive d unit

/-- Any other code unit is matched by the mappings of the platform, which need not agree with the table. -/
theorem check_unique_iff (unicode : 0x7F < c) (unit : c ≤ 0xFFFF) (unique : isCanonicallyUnique table c = true) :
    ((atomPatternCharacter table true c).compile mapping true).check d = true ↔
      if mapping.u_tolower c % 0x10000 = mapping.u_toupper c % 0x10000 then d = c
      else d = mapping.u_tolower c % 0x10000 ∨ d = mapping.u_toupper c % 0x10000 := by
  obtain ⟨before, info, after, found, -⟩ := exists_rangeInfoFor wellFormed.consecutive unit
  rw [isCanonicallyUnique, found] at unique
  rw [atomPatternCharacter, if_neg (by simpa using unicode), found]
  dsimp only
  rw [if_pos (of_decide_eq_true unique), PatternTerm.compile]
  by_cases same : mapping.u_tolower c % 0x10000 = mapping.u_toupper c % 0x10000
  · rw [if_pos same, if_neg (by simpa using same), ByteTerm.check, decide_eq_true_iff]
    exact eq_comm
  · rw [if_neg same,
      if_pos (by simpa using same), ByteTerm.check, Bool.or_eq_true, decide_eq_true_iff, decide_eq_true_iff]
    exact or_congr eq_comm eq_comm

/-- The three uses of a code unit agree on every input exactly when the platform gives a character outside ASCII that
the table leaves alone no second case. -/
theorem uses_agree_iff (unit : c ≤ 0xFFFF) :
    (∀ d ≤ 0xFFFF,
      (((atomPatternCharacter table true c).compile mapping true).check d = true ↔ SameIgnoringCase table c d) ∧
      (((atomCharacterClass table true c).compile mapping true).check d = true ↔ SameIgnoringCase table c d) ∧
      ((tryConsumeBackReference table true [c] [d]).isSome = true ↔ SameIgnoringCase table c d)) ↔
    c ≤ 0x7F ∨ isCanonicallyUnique table c = false ∨
      mapping.u_tolower c % 0x10000 = mapping.u_toupper c % 0x10000 := by
  constructor
  · intro agree
    by_contra wrong
    obtain ⟨unicode, paired, differ⟩ : ¬ c ≤ 0x7F ∧ ¬ isCanonicallyUnique table c = false ∧ _ := by
      rwa [not_or, not_or] at wrong
    rw [Nat.not_le] at unicode
    have unique : isCanonicallyUnique table c = true := eq_true_of_ne_false paired
    -- One of the two cases is another character, and it is accepted.
    have reads : ∀ d ≤ 0xFFFF, (d = mapping.u_tolower c % 0x10000 ∨ d = mapping.u_toupper c % 0x10000) ↔ d = c := by
      intro d unitToo
      rw [← sameIgnoringCase_unique wellFormed unit unique, ← (agree d unitToo).1,
        check_unique_iff wellFormed mapping unicode unit unique, if_neg differ]
    have lower := (reads (mapping.u_tolower c % 0x10000) (by omega)).mp (.inl rfl)
    have upper := (reads (mapping.u_toupper c % 0x10000) (by omega)).mp (.inr rfl)
    exact differ (lower.trans upper.symm)
  · intro safe d unitToo
    refine ⟨?_, check_class_iff wellFormed mapping unit unitToo, check_backReference_iff⟩
    rcases Nat.lt_or_ge 0x7F c with unicode | ascii
    · cases unique : isCanonicallyUnique table c with
      | false => exact check_paired_iff wellFormed mapping unicode unit unitToo unique
      | true =>
        have same : mapping.u_tolower c % 0x10000 = mapping.u_toupper c % 0x10000 := by
          simpa [unique, Nat.not_le.mpr unicode] using safe
        rw [check_unique_iff wellFormed mapping unicode unit unique, if_pos same,
          sameIgnoringCase_unique wellFormed unit unique]
    · exact check_ascii_iff wellFormed mapping ascii

end Uses

/-- The mappings of ASCII and of `U+017F`, whose upper case is `S`. -/
def longSMapping : CaseMapping where
  u_tolower := toASCIILower
  u_toupper ch := if ch = 0x17F then 0x53 else toASCIIUpper ch
  tolower_ascii _ _ := rfl
  toupper_ascii _ ascii := if_neg (by omega)

/-- The uses of the letter `k` agree on the letter `K`. -/
theorem uses_agree_letter :
    ((atomPatternCharacter letterTable true 0x6B).compile longSMapping true).check 0x4B = true :=
  ((uses_agree_iff letterTable_wellFormed longSMapping (show 0x6B ≤ 0xFFFF by decide)).mpr (.inl (by decide)) 0x4B
    (by decide)).1.mpr (.inr (.inl (by decide)))

/-- As a pattern character `U+017F` matches `S`; as a class and as captured text it does not. -/
theorem longS_diverges :
    ((atomPatternCharacter letterTable true 0x17F).compile longSMapping true).check 0x53 = true ∧
      ((atomCharacterClass letterTable true 0x17F).compile longSMapping true).check 0x53 = false ∧
      tryConsumeBackReference letterTable true [0x17F] [0x53] = none := by
  decide

end WebNode.Yarr
