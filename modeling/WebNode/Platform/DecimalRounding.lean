import WebNode.Platform.Decimal

/-!
# Rounding decimal numbers

`ceiling`, `floor` and `round` keep one digit of the fraction and decide by it. That is enough to
round to the nearest integer, but not to round up or down.
-/

namespace WebNode.Platform.Decimal

variable (self : Decimal)

/-- The common body of the three functions: the result for a number below one tenth, and the digits
after the point that carry. -/
def dropFraction (small : Decimal) (carries : Nat → Bool) : Decimal :=
  if self.isSpecial then self
  else if self.exponent ≥ 0 then self
  else
    let numberOfDropDigits := (-self.exponent).toNat
    if countDigits self.coefficient < numberOfDropDigits then small
    else
      let result := scaleDown self.coefficient (numberOfDropDigits - 1)
      let result := if carries (result % 10) then result + 10 else result
      encode self.sign 0 (result / 10)

def ceiling : Decimal :=
  self.dropFraction (if self.isPositive then ofInt 1 else zero .positive) fun digit => self.sign = .positive ∧ digit > 0

def floor : Decimal :=
  self.dropFraction (if self.isPositive then zero .positive else ofInt (-1)) fun digit => self.isNegative ∧ digit > 0

def round : Decimal := self.dropFraction (zero .positive) fun digit => digit ≥ 5

/-! ### The fraction of a quotient -/

section Fractions

variable {c power : Nat}

/-- The integer part, the first digit of the fraction and the rest of it. -/
structure Fraction (c power whole digit rest : Nat) : Prop where
  split : c = power * (10 * whole + digit) + rest
  digit_lt : digit < 10
  rest_lt : rest < power

theorem fraction_of (positive : 0 < power) : Fraction c power (c / (10 * power)) (c / power % 10) (c % power) where
  split := by
    have digits : 10 * (c / (10 * power)) + c / power % 10 = c / power := by
      rw [mul_comm 10 power, ← Nat.div_div_eq_div_mul]
      exact Nat.div_add_mod _ _
    rw [digits]
    exact (Nat.div_add_mod c power).symm
  digit_lt := Nat.mod_lt _ (by decide)
  rest_lt := Nat.mod_lt _ positive

variable {whole digit rest : Nat} (fraction : Fraction c power whole digit rest)

include fraction

theorem Fraction.positive : (0 : ℚ) < power := by exact_mod_cast Nat.zero_lt_of_lt fraction.rest_lt

theorem Fraction.quotient_eq : (c : ℚ) / (10 * power) = whole + (digit + rest / power) / 10 := by
  have positive := fraction.positive
  rw [fraction.split]
  push_cast
  field_simp
  ring

theorem Fraction.rest_div : 0 ≤ (rest : ℚ) / power ∧ (rest : ℚ) / power < 1 :=
  ⟨by positivity, (div_lt_one fraction.positive).mpr (by exact_mod_cast fraction.rest_lt)⟩

theorem Fraction.digit_le : (0 : ℚ) ≤ digit ∧ (digit : ℚ) ≤ 9 :=
  ⟨Nat.cast_nonneg _, by exact_mod_cast Nat.le_of_lt_succ fraction.digit_lt⟩

theorem Fraction.floor : ⌊(c : ℚ) / (10 * power)⌋ = whole := by
  have rest := fraction.rest_div
  have digit := fraction.digit_le
  rw [fraction.quotient_eq, Int.floor_eq_iff]
  push_cast
  constructor <;> linarith

theorem Fraction.ceil : ⌈(c : ℚ) / (10 * power)⌉ = (whole + if digit = 0 ∧ rest = 0 then 0 else 1 : Nat) := by
  have restBounds := fraction.rest_div
  have digitBounds := fraction.digit_le
  rw [fraction.quotient_eq]
  split
  · next whole_only => simp [whole_only]
  · next more =>
    have positive : (0 : ℚ) < digit + rest / power := by
      rcases Nat.eq_zero_or_pos digit with none | some
      · have : (0 : ℚ) < rest / power :=
          div_pos (by exact_mod_cast Nat.pos_of_ne_zero fun zero => more ⟨none, zero⟩) fraction.positive
        linarith
      · have : (1 : ℚ) ≤ digit := by exact_mod_cast some
        linarith
    rw [Int.ceil_eq_iff]
    push_cast
    constructor <;> linarith

theorem Fraction.floor_half : ⌊(c : ℚ) / (10 * power) + 1 / 2⌋ = (whole + if 5 ≤ digit then 1 else 0 : Nat) := by
  have restBounds := fraction.rest_div
  have digitBounds := fraction.digit_le
  rw [fraction.quotient_eq, Int.floor_eq_iff]
  split
  · next large =>
    have : (5 : ℚ) ≤ digit := by exact_mod_cast large
    push_cast
    constructor <;> linarith
  · next small =>
    have : (digit : ℚ) ≤ 4 := by exact_mod_cast Nat.le_of_lt_succ (not_le.mp small)
    push_cast
    constructor <;> linarith

end Fractions

/-! ### Numbers with a fraction -/

variable {self} {dropped : Nat}

theorem value_of_exponent (exponent_eq : self.exponent = -(dropped + 1 : Nat)) :
    self.value = Sign.factor self.sign * (self.coefficient / (10 * (10 ^ dropped : Nat))) := by
  rw [value, exponent_eq, zpow_neg, zpow_natCast, pow_succ']
  push_cast
  ring

/-- What the common body computes: the numbers below one tenth are told by their digits. -/
theorem dropFraction_spec (finite : self.isFinite = true) (exponent_eq : self.exponent = -(dropped + 1 : Nat))
    (small : Decimal) (carries : Nat → Bool) :
    (self.coefficient < 10 ^ dropped → self.dropFraction small carries = small) ∧
    (10 ^ dropped ≤ self.coefficient → (self.dropFraction small carries).Denotes
      (Sign.factor self.sign * (self.coefficient / (10 * 10 ^ dropped) +
        if carries (self.coefficient / 10 ^ dropped % 10) then 1 else 0 : Nat))) := by
  have notSpecial : ¬self.isSpecial = true := by simpa [isFinite] using finite
  have drop_eq : (-self.exponent).toNat = dropped + 1 := by omega
  have negative : ¬self.exponent ≥ 0 := by omega
  have digits := @countDigits_le_iff _ dropped self.coefficient_fits
  rw [dropFraction, if_neg notSpecial, if_neg negative, drop_eq]
  simp only [Nat.add_sub_cancel, scaleDown_eq]
  constructor
  · intro less
    exact if_pos (Nat.lt_succ_of_le (digits.mpr less))
  · intro large
    have result_eq : (if carries (self.coefficient / 10 ^ dropped % 10) then self.coefficient / 10 ^ dropped + 10
          else self.coefficient / 10 ^ dropped) / 10 =
        self.coefficient / (10 * 10 ^ dropped) + if carries (self.coefficient / 10 ^ dropped % 10) then 1 else 0 := by
      rw [mul_comm, ← Nat.div_div_eq_div_mul]
      split <;> omega
    have bound : self.coefficient / (10 * 10 ^ dropped) ≤ self.coefficient / 10 :=
      Nat.div_le_div_left (Nat.le_mul_of_pos_right _ (Nat.pow_pos (by decide))) (by decide)
    have limit := self.coefficient_le
    rw [if_neg (by omega), result_eq]
    have encoded := encode_denotes self.sign (show exponentMin ≤ 0 ∧ 0 ≤ exponentMax by decide)
      (show self.coefficient / (10 * 10 ^ dropped) +
          (if carries (self.coefficient / 10 ^ dropped % 10) then 1 else 0) ≤ maxCoefficient by
        rw [maxCoefficient] at limit ⊢
        split <;> omega)
    rwa [zpow_zero, mul_one] at encoded

/-! ### Exactness -/

/-- The nearest integer, with halves away from zero. -/
def roundHalfAwayFromZero (number : ℚ) : ℤ := if 0 ≤ number then ⌊number + 1 / 2⌋ else -⌊-number + 1 / 2⌋

/-- The three functions denote the integers they are named after. -/
structure RoundsExactly (decimal : Decimal) : Prop where
  floor : decimal.floor.Denotes ⌊decimal.value⌋
  ceiling : decimal.ceiling.Denotes ⌈decimal.value⌉
  round : decimal.round.Denotes (roundHalfAwayFromZero decimal.value)

/-- The exponent leaves no fraction; or the number is not zero, and it is below one tenth, or all digits
after the point are zero, or the first of them is not. -/
def FirstDigitDecides (self : Decimal) : Prop :=
  0 ≤ self.exponent ∨ self.coefficient ≠ 0 ∧
    (self.coefficient < 10 ^ ((-self.exponent).toNat - 1) ∨ 10 ^ (-self.exponent).toNat ∣ self.coefficient ∨
      10 ^ ((-self.exponent).toNat - 1) ≤ self.coefficient % 10 ^ (-self.exponent).toNat)

theorem roundHalfAwayFromZero_factor (sign : Sign) {number : ℚ} (nonneg : 0 ≤ number) :
    (roundHalfAwayFromZero (Sign.factor sign * number) : ℚ) = Sign.factor sign * ⌊number + 1 / 2⌋ := by
  cases sign with
  | positive => rw [Sign.factor, one_mul, one_mul, roundHalfAwayFromZero, if_pos nonneg]
  | negative =>
    rw [Sign.factor, neg_one_mul, neg_one_mul, roundHalfAwayFromZero]
    split
    · next nonpos =>
      obtain rfl : number = 0 := by linarith
      norm_num
    · rw [neg_neg, Int.cast_neg]

theorem roundHalfAwayFromZero_intCast (integer : ℤ) : roundHalfAwayFromZero integer = integer := by
  have half : ⌊(1 / 2 : ℚ)⌋ = 0 := by norm_num
  unfold roundHalfAwayFromZero
  split
  · rw [Int.floor_intCast_add, half, add_zero]
  · rw [← Int.cast_neg, Int.floor_intCast_add, half, add_zero, neg_neg]

/-- Numbers without a fraction are returned as they are. -/
theorem roundsExactly_of_integer (finite : self.isFinite = true) (integer : 0 ≤ self.exponent) :
    RoundsExactly self := by
  have notSpecial : ¬self.isSpecial = true := by simpa [isFinite] using finite
  have same (small : Decimal) (carries : Nat → Bool) : self.dropFraction small carries = self := by
    rw [dropFraction, if_neg notSpecial, if_pos integer]
  obtain ⟨power, exponent_eq⟩ := Int.eq_ofNat_of_zero_le integer
  obtain ⟨number, value_eq⟩ : ∃ number : ℤ, self.value = number := by
    refine ⟨(if self.sign = .positive then 1 else -1) * self.coefficient * 10 ^ power, ?_⟩
    rw [value, exponent_eq, zpow_natCast]
    cases self.sign <;> simp [Sign.factor]
  refine ⟨⟨?_, ?_⟩, ⟨?_, ?_⟩, ⟨?_, ?_⟩⟩
  · rwa [floor, same]
  · rw [floor, same, value_eq, Int.floor_intCast]
  · rwa [ceiling, same]
  · rw [ceiling, same, value_eq, Int.ceil_intCast]
  · rwa [round, same]
  · rw [round, same, value_eq, roundHalfAwayFromZero_intCast]

section Fractions

variable (finite : self.isFinite = true) (exponent_eq : self.exponent = -(dropped + 1 : Nat))

include finite exponent_eq

/-- The first digit after the point decides about halves. -/
theorem round_denotes : self.round.Denotes (roundHalfAwayFromZero self.value) := by
  have fraction := @fraction_of self.coefficient (10 ^ dropped) (Nat.pow_pos (by decide))
  obtain ⟨below, above⟩ := dropFraction_spec finite exponent_eq (zero .positive) fun digit => digit ≥ 5
  rw [value_of_exponent exponent_eq,
    roundHalfAwayFromZero_factor _ (by positivity), fraction.floor_half, Int.cast_natCast, round]
  rcases lt_or_ge self.coefficient (10 ^ dropped) with less | large
  · rw [below less,
      Nat.div_eq_of_lt (by omega), Nat.div_eq_of_lt less, Nat.zero_mod, if_neg (by decide), Nat.cast_zero, mul_zero]
    exact zero_denotes .positive
  · simpa only [decide_eq_true_eq] using above large

/-- Toward zero the digits after the point do not matter. -/
theorem dropFraction_denotes {small : Decimal} (small_denotes : small.Denotes 0) {carries : Nat → Bool}
    (never : ∀ digit, carries digit = false) :
    (self.dropFraction small carries).Denotes
      (Sign.factor self.sign * ⌊(self.coefficient / (10 * (10 ^ dropped : Nat)) : ℚ)⌋) := by
  have fraction := @fraction_of self.coefficient (10 ^ dropped) (Nat.pow_pos (by decide))
  obtain ⟨below, above⟩ := dropFraction_spec finite exponent_eq small carries
  rw [fraction.floor, Int.cast_natCast]
  rcases lt_or_ge self.coefficient (10 ^ dropped) with less | large
  · rwa [below less, Nat.div_eq_of_lt (by omega), Nat.cast_zero, mul_zero]
  · simpa only [never, Bool.false_eq_true, if_false, add_zero] using above large

/-- Away from zero the result is exact if and only if the first digit decides. -/
theorem dropFraction_denotes_iff {small : Decimal} (small_denotes : small.Denotes (Sign.factor self.sign * 1))
    {carries : Nat → Bool} (nonzero : ∀ digit, carries digit = true ↔ 0 < digit) :
    (self.dropFraction small carries).Denotes
      (Sign.factor self.sign * ⌈(self.coefficient / (10 * (10 ^ dropped : Nat)) : ℚ)⌉) ↔ FirstDigitDecides self := by
  have fraction := @fraction_of self.coefficient (10 ^ dropped) (Nat.pow_pos (by decide))
  obtain ⟨below, above⟩ := dropFraction_spec finite exponent_eq small carries
  have factor_ne := factor_ne_zero self.sign
  have drop_eq : (-self.exponent).toNat = dropped + 1 := by omega
  have positive : 0 < 10 ^ dropped := Nat.pow_pos (by decide)
  have remainder : self.coefficient % (10 * 10 ^ dropped) =
      10 ^ dropped * (self.coefficient / 10 ^ dropped % 10) + self.coefficient % 10 ^ dropped := by
    rw [mul_comm, Nat.mod_mul, add_comm]
  rw [FirstDigitDecides, or_iff_right (by omega), drop_eq, Nat.add_sub_cancel, pow_succ', Nat.dvd_iff_mod_eq_zero,
    remainder, fraction.ceil, Int.cast_natCast]
  rcases lt_or_ge self.coefficient (10 ^ dropped) with less | large
  · rw [below less, small_denotes.iff_eq, mul_right_inj' factor_ne, Nat.div_eq_of_lt (by omega), Nat.div_eq_of_lt less,
      Nat.mod_eq_of_lt less, Nat.zero_mod]
    by_cases zero : self.coefficient = 0
    · simp [zero]
    · simp [zero, less]
  · rw [(above large).iff_eq, mul_right_inj' factor_ne, Nat.cast_inj, Nat.add_left_cancel_iff]
    simp only [nonzero]
    rcases Nat.eq_zero_or_pos (self.coefficient / 10 ^ dropped % 10) with none | some
    · have rest_lt := Nat.mod_lt self.coefficient positive
      simp only [none, lt_irrefl, if_false, true_and, mul_zero, zero_add]
      split <;> omega
    · have : 10 ^ dropped ≤ 10 ^ dropped * (self.coefficient / 10 ^ dropped % 10) := Nat.le_mul_of_pos_right _ some
      rw [if_pos some, if_neg (by omega)]
      exact iff_of_true rfl ⟨by omega, .inr (.inr (by omega))⟩

end Fractions

/-- For a finite number, `floor`, `ceiling` and `round` are all exact if and only if its first digit
after the point decides. -/
theorem roundsExactly_iff (self : Decimal) (finite : self.isFinite = true) :
    RoundsExactly self ↔ FirstDigitDecides self := by
  rcases le_or_gt 0 self.exponent with integer | fractional
  · exact iff_of_true (roundsExactly_of_integer finite integer) (.inl integer)
  · obtain ⟨dropped, exponent_eq⟩ : ∃ dropped : Nat, self.exponent = -(dropped + 1 : Nat) :=
      ⟨(-self.exponent).toNat - 1, by omega⟩
    have value_eq := value_of_exponent exponent_eq
    have rounded := round_denotes finite exponent_eq
    cases sign_eq : self.sign with
    | positive =>
      have factor_eq : Sign.factor self.sign = 1 := by rw [sign_eq]; rfl
      have isPositive : self.isPositive = true := by simp [Decimal.isPositive, sign_eq]
      have down : self.floor.Denotes ⌊self.value⌋ := by
        have toward :=
          @dropFraction_denotes _ _ finite exponent_eq (if self.isPositive then zero .positive else ofInt (-1))
          (by rw [if_pos isPositive]; exact zero_denotes .positive) (fun digit => self.isNegative ∧ digit > 0)
          fun digit => by simp [isNegative, sign_eq]
        rw [factor_eq, one_mul] at toward value_eq
        rwa [value_eq]
      have up : self.ceiling.Denotes ⌈self.value⌉ ↔ FirstDigitDecides self := by
        have away :=
          @dropFraction_denotes_iff _ _ finite exponent_eq (if self.isPositive then ofInt 1 else zero .positive)
          (by rw [if_pos isPositive, sign_eq]; exact one_denotes .positive)
            (fun digit => self.sign = .positive ∧ digit > 0)
          fun digit => by simp [sign_eq]
        rw [factor_eq, one_mul] at away value_eq
        rwa [value_eq]
      exact ⟨fun exactly => up.mp exactly.ceiling, fun decides => ⟨down, up.mpr decides, rounded⟩⟩
    | negative =>
      have factor_eq : Sign.factor self.sign = -1 := by rw [sign_eq]; rfl
      have notPositive : ¬self.isPositive = true := by simp [isPositive, sign_eq]
      have up : self.ceiling.Denotes ⌈self.value⌉ := by
        have toward :=
          @dropFraction_denotes _ _ finite exponent_eq (if self.isPositive then ofInt 1 else zero .positive)
          (by rw [if_neg notPositive]; exact zero_denotes .positive) (fun digit => self.sign = .positive ∧ digit > 0)
          fun digit => by simp [sign_eq]
        rw [factor_eq, neg_one_mul] at toward value_eq
        rwa [value_eq, Int.ceil_neg, Int.cast_neg]
      have down : self.floor.Denotes ⌊self.value⌋ ↔ FirstDigitDecides self := by
        have away :=
          @dropFraction_denotes_iff _ _ finite exponent_eq (if self.isPositive then zero .positive else ofInt (-1))
          (by rw [if_neg notPositive, sign_eq]; exact one_denotes .negative) (fun digit => self.isNegative ∧ digit > 0)
          fun digit => by simp [isNegative, sign_eq]
        rw [factor_eq, neg_one_mul] at away value_eq
        rwa [value_eq, Int.floor_neg, Int.cast_neg]
      exact ⟨fun exactly => down.mp exactly.floor, fun decides => ⟨down.mpr decides, up, rounded⟩⟩

/-- 1.5 is rounded exactly. -/
theorem roundsExactly_oneAndAHalf : RoundsExactly (encode .positive (-1) 15) :=
  (roundsExactly_iff _ (by decide)).mpr (.inr (by decide))

/-- The ceiling of 1.01 is 1, that of a zero with a negative exponent is 1, and the floor of the negative
zero with that exponent is -1. -/
theorem ceiling_floor_wrong : ((encode .positive (-2) 101).ceiling = encode .positive 0 1 ∧
      (encode .positive (-2) 0).ceiling = encode .positive 0 1 ∧
      (encode .negative (-2) 0).floor = encode .negative 0 1) ∧
    ¬RoundsExactly (encode .positive (-2) 101) ∧ ¬RoundsExactly (encode .positive (-2) 0) ∧
      ¬RoundsExactly (encode .negative (-2) 0) := by
  have outputs : (encode .positive (-2) 101).ceiling = encode .positive 0 1 ∧
      (encode .positive (-2) 0).ceiling = encode .positive 0 1 ∧
        (encode .negative (-2) 0).floor = encode .negative 0 1 := by
    decide
  refine ⟨outputs, fun exactly => ?_, fun exactly => ?_, fun exactly => ?_⟩
  · have up := exactly.ceiling
    rw [outputs.1, (one_denotes .positive).iff_eq, encode_value _ (by decide) (by decide)] at up
    have above := Int.le_ceil (Sign.factor .positive * (101 : Nat) * 10 ^ (-2 : ℤ))
    rw [← up] at above
    norm_num [Sign.factor] at above
  · have up := exactly.ceiling
    rw [outputs.2.1, (one_denotes .positive).iff_eq, encode_value _ (by decide) (by decide)] at up
    simp [Sign.factor] at up
  · have down := exactly.floor
    rw [outputs.2.2, (one_denotes .negative).iff_eq, encode_value _ (by decide) (by decide)] at down
    simp [Sign.factor] at down

end WebNode.Platform.Decimal
