import Mathlib.Data.Int.Log
import Mathlib.Data.Nat.Digits.Lemmas
import Mathlib.Data.List.DropRight
import Mathlib.Data.Rat.Floor
import Mathlib.Tactic.IntervalCases
import Mathlib.Tactic.NormNum

/-!
# Numbers in a stream

An output stream prints a double with six significant digits, in fixed or in scientific form and without
trailing zeros. What it prints is a number for V8 unless the double is infinite or not a number.
-/

namespace WebNode.NodeProxy

/-- A double; a finite one is `significand * 2 ^ exponent`, with a sign. -/
inductive Double where
  | nan
  | infinity (negative : Bool)
  | finite (negative : Bool) (significand : Nat) (exponent : Int)

namespace Double

/-- The nearest integer, and the even one of two. -/
def roundHalfEven (number : ℚ) : Nat :=
  let down := ⌊number⌋₊
  if number - down < 1 / 2 ∨ number - down = 1 / 2 ∧ down % 2 = 0 then down else down + 1

/-- Six significant digits as an integer, and the exponent of the first one. -/
def significant (number : ℚ) : Nat × Int :=
  let exponent := Int.log 10 number
  let digits := roundHalfEven (number / 10 ^ (exponent - 5))
  if digits = 10 ^ 6 then (10 ^ 5, exponent + 1) else (digits, exponent)

def digitText (number : Nat) : List UInt8 := (Nat.digits 10 number).reverse.map fun digit => 0x30 + UInt8.ofNat digit

/-- The digits behind the point; without any there is no point. -/
def fractionText (digits : List UInt8) : List UInt8 :=
  let digits := digits.rdropWhile (· == 0x30)
  if digits = [] then [] else 0x2E :: digits

/-- An exponent has at least two digits. -/
def exponentText (exponent : Int) : List UInt8 :=
  let digits := digitText exponent.natAbs
  [0x65, if exponent < 0 then 0x2D else 0x2B] ++ (if digits.length < 2 then [0x30] else []) ++ digits

def signText (negative : Bool) : List UInt8 := if negative then [0x2D] else []

/-- `operator<<` of a double. -/
def streamText : Double → List UInt8
  | nan => [0x6E, 0x61, 0x6E]
  | infinity negative => signText negative ++ [0x69, 0x6E, 0x66]
  | finite negative significand binaryExponent =>
    signText negative ++
      if significand = 0 then [0x30]
      else
        let (number, exponent) := significant (significand * 2 ^ binaryExponent)
        let digits := digitText number
        if exponent < -4 ∨ 6 ≤ exponent then
          digits.take 1 ++ fractionText (digits.drop 1) ++ exponentText exponent
        else if exponent < 0 then
          [0x30] ++ fractionText (List.replicate (-exponent - 1).toNat 0x30 ++ digits)
        else digits.take (exponent.toNat + 1) ++ fractionText (digits.drop (exponent.toNat + 1))

def isFinite : Double → Bool
  | finite _ _ _ => true
  | _ => false

end Double

/-! ### Numeric literals -/

def IsDigit (unit : UInt8) : Prop := 0x30 ≤ unit ∧ unit ≤ 0x39

/-- A decimal literal of JavaScript, with a minus sign before it or none. -/
structure NumericLiteral (text sign whole fraction exponent : List UInt8) : Prop where
  text_eq : text = sign ++ whole ++ fraction ++ exponent
  signed : sign = [] ∨ sign = [0x2D]
  digits : whole ≠ [] ∧ ∀ digit ∈ whole, IsDigit digit
  /-- A zero stands alone. -/
  leading : whole.head? = some 0x30 → whole = [0x30]
  decimals : fraction = [] ∨ ∃ digits, fraction = 0x2E :: digits ∧ digits ≠ [] ∧ ∀ digit ∈ digits, IsDigit digit
  power : exponent = [] ∨ ∃ mark digits, exponent = 0x65 :: mark :: digits ∧ (mark = 0x2B ∨ mark = 0x2D) ∧ digits ≠ [] ∧
    ∀ digit ∈ digits, IsDigit digit

def IsNumericLiteral (text : List UInt8) : Prop :=
  ∃ sign whole fraction exponent, NumericLiteral text sign whole fraction exponent

namespace Double

theorem isDigit_digitText {number : Nat} : ∀ digit ∈ digitText number, IsDigit digit := by
  intro digit member
  obtain ⟨value, inside, rfl⟩ := List.mem_map.mp member
  have less := Nat.digits_lt_base (by decide : 1 < 10) (List.mem_reverse.mp inside)
  interval_cases value <;> exact ⟨by decide, by decide⟩

/-- The digits of a positive number do not begin with a zero. -/
theorem digitText_head {number : Nat} (positive : number ≠ 0) :
    ∃ first rest, digitText number = first :: rest ∧ first ≠ 0x30 := by
  have nonempty : Nat.digits 10 number ≠ [] := Nat.digits_ne_nil_iff_ne_zero.mpr positive
  have last := Nat.getLast_digit_ne_zero 10 positive
  have less := Nat.digits_lt_base (by decide : 1 < 10) (List.getLast_mem nonempty)
  refine ⟨0x30 + UInt8.ofNat ((Nat.digits 10 number).getLast nonempty),
    (Nat.digits 10 number).dropLast.reverse.map fun digit => 0x30 + UInt8.ofNat digit, ?_, ?_⟩
  · rw [digitText, ← List.map_cons (f := fun digit => 0x30 + UInt8.ofNat digit), ← List.reverse_concat,
      List.dropLast_append_getLast nonempty]
  · generalize (Nat.digits 10 number).getLast nonempty = value at last less
    interval_cases value
    · exact absurd rfl last
    all_goals decide

theorem fractionText_cases {digits : List UInt8} (all : ∀ digit ∈ digits, IsDigit digit) :
    fractionText digits = [] ∨ ∃ kept, fractionText digits = 0x2E :: kept ∧ kept ≠ [] ∧
      ∀ digit ∈ kept, IsDigit digit := by
  rw [fractionText]
  split
  · exact .inl rfl
  · next kept => exact .inr ⟨_, rfl, kept, fun digit member => all digit ((List.rdropWhile_prefix _ _).subset member)⟩

theorem exponentText_cases (exponent : Int) : ∃ mark digits, exponentText exponent = 0x65 :: mark :: digits ∧
    (mark = 0x2B ∨ mark = 0x2D) ∧ digits ≠ [] ∧ ∀ digit ∈ digits, IsDigit digit := by
  refine ⟨if exponent < 0 then 0x2D else 0x2B, _, rfl, ?_, ?_, ?_⟩
  · split
    · exact .inr rfl
    · exact .inl rfl
  · split
    · simp
    · next long =>
      intro none
      rw [(List.append_eq_nil_iff.mp none).2] at long
      exact long (by decide)
  · intro digit member
    rcases List.mem_append.mp member with zero | member
    · split at zero
      · exact List.mem_singleton.mp zero ▸ ⟨by decide, by decide⟩
      · cases zero
    · exact isDigit_digitText digit member

theorem roundHalfEven_ge (number : ℚ) : ⌊number⌋₊ ≤ roundHalfEven number := by
  rw [roundHalfEven]
  split <;> omega

theorem significant_ne_zero {number : ℚ} (positive : 0 < number) : (significant number).1 ≠ 0 := by
  have lower : (10 : ℚ) ^ 5 ≤ number / 10 ^ (Int.log 10 number - 5) := by
    rw [le_div_iff₀ (zpow_pos (by norm_num) _), ← zpow_natCast, ← zpow_add₀ (by norm_num)]
    simpa using Int.zpow_log_le_self (by decide : 1 < 10) positive
  have digits := (Nat.le_floor (by exact_mod_cast lower) : 10 ^ 5 ≤ ⌊number / 10 ^ (Int.log 10 number - 5)⌋₊).trans
    (roundHalfEven_ge _)
  rw [significant]
  split
  · exact Nat.pos_iff_ne_zero.mp (Nat.pow_pos (by decide))
  · exact Nat.pos_iff_ne_zero.mp (lt_of_lt_of_le (by decide) digits)

theorem signText_cases (negative : Bool) : signText negative = [] ∨ signText negative = [0x2D] := by
  cases negative <;> simp [signText]

/-- A finite double is printed as a numeric literal. -/
theorem isNumericLiteral_streamText {number : Double} (finite : number.isFinite = true) :
    IsNumericLiteral number.streamText := by
  cases number with
  | nan | infinity => cases finite
  | finite negative significand binaryExponent =>
    have sign := signText_cases negative
    have zero : ([0x30] : List UInt8) ≠ [] ∧ ∀ digit ∈ ([0x30] : List UInt8), IsDigit digit := by simp [IsDigit]
    rw [streamText]
    split
    · exact ⟨signText negative, [0x30], [], [], by simp, sign, zero, fun _ => rfl, .inl rfl, .inl rfl⟩
    next nonzero =>
    have positive : (0 : ℚ) < significand * 2 ^ binaryExponent := by
      have : (0 : ℚ) < significand := by exact_mod_cast Nat.pos_of_ne_zero nonzero
      exact mul_pos this (zpow_pos (by norm_num) _)
    obtain ⟨first, rest, digits_eq, leading⟩ := digitText_head (significant_ne_zero positive)
    have digits := @isDigit_digitText (significant (significand * 2 ^ binaryExponent)).1
    generalize significant (significand * 2 ^ binaryExponent) = printed at digits digits_eq
    obtain ⟨number, exponent⟩ := printed
    have dropped (n : Nat) := fractionText_cases fun digit member => digits digit (List.drop_subset n _ member)
    have taken (n : Nat) : (digitText number).take (n + 1) ≠ [] ∧ ∀ digit ∈ (digitText number).take (n + 1),
        IsDigit digit :=
      ⟨by simp [digits_eq], fun digit member => digits digit (List.take_subset _ _ member)⟩
    have begins (n : Nat) : ((digitText number).take (n + 1)).head? = some 0x30 →
        (digitText number).take (n + 1) = [0x30] := by
      simp [digits_eq, leading]
    dsimp only
    split
    · exact ⟨signText negative, (digitText number).take 1, fractionText ((digitText number).drop 1),
        exponentText exponent,
          by simp only [List.append_assoc], sign, taken 0, begins 0, dropped 1, .inr (exponentText_cases exponent)⟩
    · split
      · refine ⟨signText negative, [0x30], fractionText (List.replicate (-exponent - 1).toNat 0x30 ++ digitText number),
          [], by simp, sign, zero, fun _ => rfl, fractionText_cases fun digit member => ?_, .inl rfl⟩
        rcases List.mem_append.mp member with zeros | member
        · exact List.eq_of_mem_replicate zeros ▸ ⟨by decide, by decide⟩
        · exact digits digit member
      · exact ⟨signText negative, (digitText number).take (exponent.toNat + 1),
          fractionText ((digitText number).drop (exponent.toNat + 1)), [],
          by simp only [List.append_assoc, List.append_nil], sign, taken _, begins _, dropped _, .inl rfl⟩

/-- The other doubles are printed as names. -/
theorem not_isNumericLiteral_streamText {number : Double} (special : number.isFinite = false) :
    ¬IsNumericLiteral number.streamText := by
  rintro ⟨sign, whole, fraction, exponent, literal⟩
  obtain ⟨first, rest, rfl⟩ := List.exists_cons_of_ne_nil literal.digits.1
  have digit := literal.digits.2 first List.mem_cons_self
  have text_eq := literal.text_eq
  -- the first unit, or the second behind a minus sign, would be a digit
  cases number with
  | finite => cases special
  | nan =>
    rcases literal.signed with rfl | rfl
    · obtain ⟨rfl, -⟩ := List.cons.inj text_eq
      exact absurd digit.2 (by decide)
    · exact absurd (List.cons.inj text_eq).1 (by decide)
  | infinity negative =>
    cases negative with
    | false =>
      rcases literal.signed with rfl | rfl
      · obtain ⟨rfl, -⟩ := List.cons.inj text_eq
        exact absurd digit.2 (by decide)
      · exact absurd (List.cons.inj text_eq).1 (by decide)
    | true =>
      rcases literal.signed with rfl | rfl
      · obtain ⟨rfl, -⟩ := List.cons.inj text_eq
        exact absurd digit.1 (by decide)
      · obtain ⟨rfl, -⟩ := List.cons.inj (List.cons.inj text_eq).2
        exact absurd digit.2 (by decide)

/-- For V8 the text is a number exactly if the double is finite. -/
theorem streamText_numeric_iff (number : Double) : IsNumericLiteral number.streamText ↔ number.isFinite = true := by
  cases kind : number.isFinite with
  | true => exact iff_of_true (isNumericLiteral_streamText kind) rfl
  | false => exact iff_of_false (not_isNumericLiteral_streamText kind) Bool.false_ne_true

example :
    streamText (.finite false 1234567 0) = [0x31, 0x2E, 0x32, 0x33, 0x34, 0x35, 0x37, 0x65, 0x2B, 0x30, 0x36] := by
  decide +kernel

end Double

end WebNode.NodeProxy
