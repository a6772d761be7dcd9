import Mathlib.Tactic.Common
import WebNode.Yarr.Parser

/-!
# Repeat counts

What `parseTokens` makes of a quantifier in braces whose numerals have any length.
-/

namespace WebNode.Yarr.Parser

/-- A decimal numeral. -/
structure Numeral where
  first : Nat
  more : List Nat
  firstDigit : isASCIIDigit first = true
  moreDigits : ∀ c ∈ more, isASCIIDigit c = true

/-- The number that further digits make of a number. -/
def decimal (value : Nat) : List Nat → Nat
  | [] => value
  | c :: rest => decimal (value * 10 + (c - code '0')) rest

/-- No further digit makes the residue smaller. -/
def Climbs (value : Nat) : List Nat → Prop
  | [] => True
  | c :: rest => value % 2 ^ 32 ≤ (value * 10 + (c - code '0')) % 2 ^ 32 ∧ Climbs (value * 10 + (c - code '0')) rest

namespace Numeral

def text (numeral : Numeral) : List Nat := numeral.first :: numeral.more

/-- The number that is written. -/
def value (numeral : Numeral) : Nat := decimal (numeral.first - code '0') numeral.more

/-- No digit makes the residue modulo 2 ^ 32 of the number before it smaller. -/
def Passes (numeral : Numeral) : Prop := Climbs (numeral.first - code '0') numeral.more

end Numeral

section Numbers

variable {value : Nat} {digits tail : List Nat}

theorem consumeDigits_of_climbs (allDigits : ∀ c ∈ digits, isASCIIDigit c = true) (climbs : Climbs value digits)
    (ends : ∀ c, tail.head? = some c → isASCIIDigit c = false) :
    consumeDigits (value % 2 ^ 32) (digits ++ tail) = (decimal value digits % 2 ^ 32, tail) := by
  induction digits generalizing value with
  | nil =>
    cases tail with
    | nil => rfl
    | cons c rest =>
      rw [List.nil_append, consumeDigits, ends c rfl]
      rfl
  | cons c rest ih =>
    obtain ⟨grows, later⟩ := climbs
    have residue : (value % 2 ^ 32 * 10 + (c - code '0')) % 2 ^ 32 = (value * 10 + (c - code '0')) % 2 ^ 32 := by
      rw [Nat.add_mod, Nat.mod_mul_mod, ← Nat.add_mod]
    rw [List.cons_append, consumeDigits, residue, allDigits c List.mem_cons_self]
    simp only [ge_iff_le, grows, decide_true, Bool.and_self, if_true]
    exact ih (fun d member => allDigits d (List.mem_cons_of_mem c member)) later

/-- Where the residue would fall, the loop stops before the digit. -/
theorem consumeDigits_of_falls (allDigits : ∀ c ∈ digits, isASCIIDigit c = true) (falls : ¬ Climbs value digits) :
    ∃ n c more, consumeDigits (value % 2 ^ 32) (digits ++ tail) = (n, c :: more) ∧ isASCIIDigit c = true := by
  induction digits generalizing value with
  | nil => exact absurd trivial falls
  | cons c rest ih =>
    have digit := allDigits c List.mem_cons_self
    have residue : (value % 2 ^ 32 * 10 + (c - code '0')) % 2 ^ 32 = (value * 10 + (c - code '0')) % 2 ^ 32 := by
      rw [Nat.add_mod, Nat.mod_mul_mod, ← Nat.add_mod]
    rw [List.cons_append, consumeDigits, residue, digit]
    by_cases grows : value % 2 ^ 32 ≤ (value * 10 + (c - code '0')) % 2 ^ 32
    · simp only [ge_iff_le, grows, decide_true, Bool.and_self, if_true]
      exact ih (fun d member => allDigits d (List.mem_cons_of_mem c member)) fun climbs => falls ⟨grows, climbs⟩
    · refine ⟨value % 2 ^ 32, c, rest ++ tail, ?_, digit⟩
      simp only [ge_iff_le, grows, decide_false, Bool.and_false, Bool.false_eq_true, if_false]

variable (numeral : Numeral)

theorem Numeral.first_small : (numeral.first - code '0') % 2 ^ 32 = numeral.first - code '0' := by
  have digit := numeral.firstDigit
  simp only [isASCIIDigit, Bool.and_eq_true, decide_eq_true_iff] at digit
  have nine : code '9' = 57 := rfl
  omega

theorem consumeNumber_of_passes (passes : numeral.Passes) (ends : ∀ c, tail.head? = some c → isASCIIDigit c = false) :
    consumeNumber numeral.first (numeral.more ++ tail) = (numeral.value % 2 ^ 32, tail) := by
  have consumed := consumeDigits_of_climbs numeral.moreDigits passes ends
  rwa [numeral.first_small] at consumed

theorem consumeNumber_of_falls (falls : ¬ numeral.Passes) :
    ∃ n c more, consumeNumber numeral.first (numeral.more ++ tail) = (n, c :: more) ∧ isASCIIDigit c = true := by
  have stopped := @consumeDigits_of_falls _ _ tail numeral.moreDigits falls
  rwa [numeral.first_small] at stopped

end Numbers

/-- What stands between the braces. -/
inductive Bounds where
  | exactly (count : Numeral)
  | atLeast (min : Numeral)
  | between (min max : Numeral)

namespace Bounds

def text : Bounds → List Nat
  | exactly count => count.text
  | atLeast min => min.text ++ [code ',']
  | between min max => min.text ++ code ',' :: max.text

def minimum : Bounds → Nat
  | exactly count => count.value
  | atLeast min => min.value
  | between min _ => min.value

/-- The maximum, if there is one. -/
def maximum : Bounds → Option Nat
  | exactly count => some count.value
  | atLeast _ => none
  | between _ max => some max.value

/-- Whether a maximum means the one that is written. -/
def Allows (bounds : Bounds) (max : Nat) : Prop :=
  match bounds.maximum with
  | none => max = quantifyInfinite
  | some written => max = written ∨ quantifyInfinite ≤ written ∧ max = quantifyInfinite

/-- An error, the brace as text, or the numbers that are written. -/
def MeansWritten (bounds : Bounds) (progress : Progress Unit) : Prop :=
  (∃ error, progress = ⟨[], .error error⟩) ∨ progress.calls.head? = some (.atomPatternCharacter (code '{')) ∨
    ∃ max greedy, progress.calls.head? = some (.quantifyAtom bounds.minimum max greedy) ∧ bounds.Allows max

/-- Every numeral passes. -/
def Passes : Bounds → Prop
  | exactly count => count.Passes
  | atLeast min => min.Passes
  | between min max => min.Passes ∧ max.Passes

/-- The residue of the maximum. -/
def maximumResidue (bounds : Bounds) : Nat :=
  match bounds.maximum with
  | none => quantifyInfinite
  | some max => max % 2 ^ 32

/-- The numerals pass, the residues are in order and the least is allowed, but one of them is another finite number. -/
def Misread (bounds : Bounds) : Prop :=
  bounds.Passes ∧ bounds.minimum % 2 ^ 32 ≤ bounds.maximumResidue ∧ bounds.minimum % 2 ^ 32 ≠ quantifyInfinite ∧
    (2 ^ 32 ≤ bounds.minimum ∨ ∃ max, bounds.maximum = some max ∧ 2 ^ 32 ≤ max ∧ max % 2 ^ 32 ≠ quantifyInfinite)

theorem parseBraces_of_passes {bounds : Bounds} (passes : bounds.Passes) (tail : List Nat) :
    parseBraces (bounds.text ++ code '}' :: tail) = some (bounds.minimum % 2 ^ 32, bounds.maximumResidue, tail) := by
  have brace : ∀ c, (code '}' :: tail).head? = some c → isASCIIDigit c = false := by
    rintro c ⟨⟩
    rfl
  have comma : ∀ {rest : List Nat} c, (code ',' :: rest).head? = some c → isASCIIDigit c = false := by
    rintro rest c ⟨⟩
    rfl
  cases bounds with
  | exactly count =>
    simp only [text, Numeral.text, List.cons_append, parseBraces, count.firstDigit, if_true,
      consumeNumber_of_passes count passes brace]
    rfl
  | atLeast min =>
    simp only [text, Numeral.text, List.cons_append, List.append_assoc, List.nil_append, parseBraces, min.firstDigit,
      if_true, consumeNumber_of_passes min passes comma]
    rfl
  | between min max =>
    simp only [text, Numeral.text, List.cons_append, List.append_assoc, parseBraces, min.firstDigit, if_true,
      consumeNumber_of_passes min passes.1 comma, parseMaximum, List.head?_cons, List.tail_cons, max.firstDigit,
      consumeNumber_of_passes max passes.2 brace]
    rfl

theorem not_digit {c : Nat} (digit : isASCIIDigit c = true) : c ≠ code ',' ∧ c ≠ code '}' := by
  constructor <;> rintro rfl <;> exact absurd digit (by decide)

/-- The rest of a numeral that does not pass is neither a comma nor a brace. -/
theorem parseBraces_of_min_falls {min : Numeral} (falls : ¬ min.Passes) (tail : List Nat) :
    parseBraces (min.text ++ tail) = none := by
  obtain ⟨n, c, more, consumed, digit⟩ := @consumeNumber_of_falls tail min falls
  obtain ⟨notComma, notBrace⟩ := not_digit digit
  simp [Numeral.text, parseBraces, min.firstDigit, consumed, parseMaximum, notComma, notBrace]

theorem parseBraces_of_falls {bounds : Bounds} (falls : ¬ bounds.Passes) (tail : List Nat) :
    parseBraces (bounds.text ++ code '}' :: tail) = none := by
  cases bounds with
  | exactly count => exact parseBraces_of_min_falls falls _
  | atLeast min =>
    rw [text, List.append_assoc]
    exact parseBraces_of_min_falls falls _
  | between min max =>
    rw [text, List.append_assoc]
    by_cases passes : min.Passes
    · have comma : ∀ {rest : List Nat} c, (code ',' :: rest).head? = some c → isASCIIDigit c = false := by
        rintro rest c ⟨⟩
        rfl
      obtain ⟨n, c, more, consumed, digit⟩ :=
        @consumeNumber_of_falls (code '}' :: tail) max fun both => falls ⟨passes, both⟩
      simp only [Numeral.text, List.cons_append, parseBraces, min.firstDigit, if_true,
        consumeNumber_of_passes min passes comma, parseMaximum, List.head?_cons, List.tail_cons, max.firstDigit,
          consumed]
      simp [(not_digit digit).2]
    · exact parseBraces_of_min_falls passes _

theorem parseToken_brace (backReferenceLimit depth : Nat) (rest : List Nat) :
    parseToken backReferenceLimit true depth (code '{') rest =
      match parseBraces rest with
      | some (min, max, later) =>
        if min ≤ max then parseQuantifier true min max later depth else ⟨[], .error .quantifierOutOfOrder⟩
      | none => ⟨[.atomPatternCharacter (code '{')], .ok ⟨rest, true, depth⟩⟩ := rfl

/-- The first call of a run that starts with a quantifier. -/
theorem parseTokens_brace (bounds : Bounds) (backReferenceLimit fuel depth : Nat) (tail : List Nat) :
    let progress :=
      parseTokens backReferenceLimit (fuel + 1) ⟨code '{' :: (bounds.text ++ code '}' :: tail), true, depth⟩
    (¬ bounds.Passes ∧ progress.calls.head? = some (.atomPatternCharacter (code '{'))) ∨
      (bounds.Passes ∧ (bounds.maximumResidue < bounds.minimum % 2 ^ 32 ∨ bounds.minimum % 2 ^ 32 = quantifyInfinite) ∧
        ∃ error, progress = ⟨[], .error error⟩) ∨
      (bounds.Passes ∧ bounds.minimum % 2 ^ 32 ≤ bounds.maximumResidue ∧ bounds.minimum % 2 ^ 32 ≠ quantifyInfinite ∧
        ∃ greedy,
          progress.calls.head? = some (.quantifyAtom (bounds.minimum % 2 ^ 32) bounds.maximumResidue greedy)) := by
  intro progress
  by_cases passes : bounds.Passes
  · have read := parseBraces_of_passes passes tail
    by_cases ordered : bounds.minimum % 2 ^ 32 ≤ bounds.maximumResidue
    · by_cases tooLarge : bounds.minimum % 2 ^ 32 = quantifyInfinite
      · refine .inr (.inl ⟨passes, .inr tooLarge, .quantifierTooLarge, ?_⟩)
        simp only [progress, parseTokens, parseToken_brace, read, if_pos ordered, parseQuantifier, if_pos tooLarge]
      · refine .inr (.inr ⟨passes, ordered, tooLarge, ?_⟩)
        simp only [progress, parseTokens, parseToken_brace, read, if_pos ordered, parseQuantifier, if_neg tooLarge,
          if_true]
        by_cases lazy : tail.head? = some (code '?')
        · exact ⟨false, by simp [lazy, Progress.after]⟩
        · exact ⟨true, by simp [lazy, Progress.after]⟩
    · refine .inr (.inl ⟨passes, .inl (Nat.not_le.mp ordered), .quantifierOutOfOrder, ?_⟩)
      simp only [progress, parseTokens, parseToken_brace, read, if_neg ordered]
  · refine .inl ⟨passes, ?_⟩
    simp only [progress, parseTokens, parseToken_brace, parseBraces_of_falls passes]
    rfl

/-- After an atom, a quantifier in braces means what is written unless its residues are misread. -/
theorem means_written_iff (bounds : Bounds) (backReferenceLimit fuel depth : Nat) (tail : List Nat) :
    bounds.MeansWritten (parseTokens backReferenceLimit (fuel + 1)
      ⟨code '{' :: (bounds.text ++ code '}' :: tail), true, depth⟩) ↔ ¬ bounds.Misread := by
  have infinite : quantifyInfinite = 2 ^ 32 - 1 := rfl
  rcases parseTokens_brace bounds backReferenceLimit fuel depth tail with ⟨falls, literal⟩ |
    ⟨passes, refused, error⟩ | rest
  · exact iff_of_true (.inr (.inl literal)) fun misread => falls misread.1
  · refine iff_of_true (.inl error) fun misread => ?_
    obtain ⟨-, ordered, allowed, -⟩ := misread
    exact refused.elim (fun disorder => absurd ordered (Nat.not_le.mpr disorder)) allowed
  · obtain ⟨passes, ordered, allowed, greedy, quantified⟩ := rest
    constructor
    · rintro (⟨error, failed⟩ | literal | ⟨max, _, call, allows⟩) misread
      · rw [failed] at quantified
        cases quantified
      · rw [literal] at quantified
        cases quantified
      · rw [call, Option.some.injEq, DelegateCall.quantifyAtom.injEq] at quantified
        obtain ⟨sameMin, rfl, -⟩ := quantified
        obtain ⟨-, -, -, wide | ⟨written, known, wide, residue⟩⟩ := misread
        · omega
        · simp only [Allows, maximumResidue, known] at allows
          omega
    · intro honest
      have small : bounds.minimum % 2 ^ 32 = bounds.minimum := by
        refine Nat.mod_eq_of_lt (Nat.not_le.mp fun wide => honest ⟨passes, ordered, allowed, .inl wide⟩)
      refine .inr (.inr ⟨bounds.maximumResidue, greedy, small ▸ quantified, ?_⟩)
      simp only [Allows, maximumResidue]
      cases known : bounds.maximum with
      | none => rfl
      | some max =>
        have narrow : ¬ (2 ^ 32 ≤ max ∧ max % 2 ^ 32 ≠ quantifyInfinite) := fun both =>
          honest ⟨passes, ordered, allowed, .inr ⟨max, known, both⟩⟩
        dsimp only
        omega

/-- Five billion is read as its residue. -/
theorem misread_five_billion :
    let digits := [53, 48, 48, 48, 48, 48, 48, 48, 48, 48]
    decimal 0 digits = 5000000000 ∧
      (parseTokens 0 2 ⟨code '{' :: (digits ++ [code '}']), true, 0⟩).calls =
        [.quantifyAtom 705032704 705032704 true] := by
  decide +kernel

end Bounds

end WebNode.Yarr.Parser
