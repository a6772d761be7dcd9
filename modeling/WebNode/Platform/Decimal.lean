import Mathlib

/-!
# The decimal numbers of `Decimal.cpp`

A finite number is a sign, a coefficient and an exponent. The operations work on 18 digits, but a
coefficient has at most 17. Machine integers of the code are natural numbers, reduced where a product or
a difference may leave the 64 bits.
-/

namespace WebNode.Platform

/-- `DecimalPrivate::ExponentMax` and its neighbours. -/
def exponentMax : Int := 1023
def exponentMin : Int := -1023
def precision : Nat := 18

/-- The literal is 17 nines; the comment on it in the source speaks of 18. -/
def maxCoefficient : Nat := 0x16345785D89FFFF

inductive Sign where
  | positive
  | negative
  deriving DecidableEq, Repr

def invertSign : Sign → Sign
  | .positive => .negative
  | .negative => .positive

inductive FormatClass where
  | infinity
  | normal
  | nan
  | zero
  deriving DecidableEq, Repr

/-- The encoded data of a number. The constructors leave a coefficient and an exponent in range, and
the class of a number with a coefficient is `normal`. -/
structure Decimal where
  coefficient : Nat
  exponent : Int
  formatClass : FormatClass
  sign : Sign
  coefficient_le : coefficient ≤ maxCoefficient
  exponent_le : exponentMin ≤ exponent ∧ exponent ≤ exponentMax
  normal_iff : formatClass = .normal ↔ coefficient ≠ 0
  deriving DecidableEq

namespace Decimal

/-! ### Digits -/

/-- The loop of `countDigits`; twenty powers of ten are below `2^64`. -/
def countDigitsLoop (x : Nat) : Nat → Nat → Nat → Nat
  | 0, _, numberOfDigits => numberOfDigits
  | fuel + 1, powerOfTen, numberOfDigits =>
    if x ≥ powerOfTen then
      if powerOfTen ≥ (2 ^ 64 - 1) / 10 then numberOfDigits + 1
      else countDigitsLoop x fuel (powerOfTen * 10) (numberOfDigits + 1)
    else numberOfDigits

def countDigits (x : Nat) : Nat := countDigitsLoop x 20 1 0

def scaleDown (x : Nat) : Nat → Nat
  | 0 => x
  | n + 1 => if x = 0 then x else scaleDown (x / 10) n

/-- The loop of `scaleUp`. The exponent is halved, so that it is fuel enough. -/
def scaleUpLoop (x : Nat) : Nat → Nat → Nat → Nat → Nat
  | 0, y, _, _ => x * y % 2 ^ 64
  | fuel + 1, y, z, n =>
    let y := if n % 2 = 1 then y * z % 2 ^ 64 else y
    if n / 2 = 0 then x * y % 2 ^ 64 else scaleUpLoop x fuel y (z * z % 2 ^ 64) (n / 2)

def scaleUp (x n : Nat) : Nat := scaleUpLoop x (n + 1) 1 10 n

/-! ### Constructors -/

/-- The loop of the constructor; a coefficient is fuel enough for its digits. -/
def fitLoop : Nat → Nat → Int → Nat × Int
  | 0, coefficient, exponent => (coefficient, exponent)
  | fuel + 1, coefficient, exponent =>
    if coefficient > maxCoefficient then fitLoop fuel (coefficient / 10) (exponent + 1) else (coefficient, exponent)

theorem fitLoop_spec (fuel coefficient : Nat) (exponent : Int) (enough : coefficient ≤ fuel) : ∃ count : Nat,
    fitLoop fuel coefficient exponent = (coefficient / 10 ^ count, exponent + count) ∧
      coefficient / 10 ^ count ≤ maxCoefficient ∧
      (count = 0 ∨ maxCoefficient < coefficient ∧ 10 ^ 16 ≤ coefficient / 10 ^ count) := by
  induction fuel generalizing coefficient exponent with
  | zero =>
    obtain rfl : coefficient = 0 := by omega
    exact ⟨0, by simp [fitLoop], by simp, .inl rfl⟩
  | succ fuel ih =>
    rw [fitLoop]
    split
    · next large =>
      have enough' : 10 ^ 17 ≤ coefficient := Nat.succ_le_of_lt large
      obtain ⟨count, run, small, least⟩ := ih (coefficient / 10) (exponent + 1) (by omega)
      have quotient : coefficient / 10 / 10 ^ count = coefficient / 10 ^ (count + 1) := by
        rw [Nat.div_div_eq_div_mul, pow_succ']
      rw [quotient] at run small least
      refine ⟨count + 1, ?_, small, .inr ⟨large, ?_⟩⟩
      · rw [run]
        push_cast
        ring_nf
      · rcases least with rfl | ⟨-, least⟩
        · rw [zero_add, pow_one]
          omega
        · exact least
    · next small => exact ⟨0, by simp, by simpa using small, .inl rfl⟩

theorem fitLoop_le (coefficient : Nat) (exponent : Int) :
    (fitLoop coefficient coefficient exponent).1 ≤ maxCoefficient := by
  obtain ⟨count, run, small, -⟩ := fitLoop_spec coefficient coefficient exponent le_rfl
  rwa [run]

/-- `EncodedData(Sign, FormatClass)`, which makes no normal numbers. -/
def special (sign : Sign) (formatClass : FormatClass) (notNormal : formatClass ≠ .normal) : Decimal where
  coefficient := 0
  exponent := 0
  formatClass := formatClass
  sign := sign
  coefficient_le := by decide
  exponent_le := by decide
  normal_iff := iff_of_false notNormal fun nonzero => nonzero rfl

def infinity (sign : Sign) : Decimal := special sign .infinity nofun
def nan : Decimal := special .positive .nan nofun
def zero (sign : Sign) : Decimal := special sign .zero nofun

/-- The coefficient and the exponent of a number once they fit. -/
def encodeFitted (sign : Sign) (exponent : Int) (coefficient : Nat) (small : coefficient ≤ maxCoefficient) : Decimal :=
  if above : exponent > exponentMax then infinity sign
  else if below : exponent < exponentMin then zero sign
  else
    { coefficient := coefficient
      exponent := exponent
      formatClass := if coefficient ≠ 0 then .normal else .zero
      sign := sign
      coefficient_le := small
      exponent_le := ⟨not_lt.mp below, not_lt.mp above⟩
      normal_iff := by split <;> simp_all }

/-- `EncodedData(Sign, int, uint64_t)` -/
def encode (sign : Sign) (exponent : Int) (coefficient : Nat) : Decimal :=
  if exponentMin ≤ exponent ∧ exponent ≤ exponentMax then
    let fitted := fitLoop coefficient coefficient exponent
    encodeFitted sign fitted.2 fitted.1 (fitLoop_le coefficient exponent)
  else if exponent > exponentMax then infinity sign
  else zero sign

/-- `Decimal(int32_t)` -/
def ofInt (i : Int) : Decimal := encode (if i < 0 then .negative else .positive) 0 i.natAbs

variable (self lhs rhs : Decimal)

def isSpecial : Bool := self.formatClass = .infinity ∨ self.formatClass = .nan
def isFinite : Bool := !self.isSpecial
def isNaN : Bool := self.formatClass = .nan
def isZero : Bool := self.formatClass = .zero
def isNegative : Bool := self.sign = .negative
def isPositive : Bool := self.sign = .positive

/-- `operator-()` -/
def negate : Decimal := if self.isNaN then self else { self with sign := invertSign self.sign }

/-! ### Special values -/

inductive HandleResult where
  | bothFinite
  | bothInfinity
  | eitherNaN (value : Decimal)
  | lhsIsInfinity
  | rhsIsInfinity

/-- `SpecialValueHandler::handle`, with the number that `value` returns. -/
def handle : HandleResult :=
  if lhs.isFinite && rhs.isFinite then .bothFinite
  else if lhs.formatClass = .nan then .eitherNaN lhs
  else if rhs.formatClass = .nan then .eitherNaN rhs
  else if lhs.formatClass = .infinity then if rhs.formatClass = .infinity then .bothInfinity else .lhsIsInfinity
  else .rhsIsInfinity

/-! ### Sums -/

structure AlignedOperands where
  lhsCoefficient : Nat
  rhsCoefficient : Nat
  exponent : Int

/-- The branch of `alignOperands` for an operand with the larger exponent: it is scaled up as far as
18 digits allow, and the other one is scaled down for the rest. -/
def alignLarger (larger smaller : Nat) (shiftAmount : Nat) (exponent : Int) : Nat × Nat × Int :=
  let numberOfDigits := countDigits larger
  if numberOfDigits ≠ 0 then
    let overflow : Int := numberOfDigits + shiftAmount - precision
    if overflow ≤ 0 then (scaleUp larger shiftAmount, smaller, exponent)
    else (scaleUp larger (shiftAmount - overflow).toNat, scaleDown smaller overflow.toNat, exponent + overflow)
  else (larger, smaller, exponent)

def alignOperands : AlignedOperands :=
  let exponent := min lhs.exponent rhs.exponent
  if lhs.exponent > rhs.exponent then
    let (lhsCoefficient, rhsCoefficient, exponent) :=
      alignLarger lhs.coefficient rhs.coefficient (lhs.exponent - rhs.exponent).toNat exponent
    ⟨lhsCoefficient, rhsCoefficient, exponent⟩
  else if lhs.exponent < rhs.exponent then
    let (rhsCoefficient, lhsCoefficient, exponent) :=
      alignLarger rhs.coefficient lhs.coefficient (rhs.exponent - lhs.exponent).toNat exponent
    ⟨lhsCoefficient, rhsCoefficient, exponent⟩
  else ⟨lhs.coefficient, rhs.coefficient, exponent⟩

/-- The sign of a 64-bit result is its sign as an `int64_t`. -/
def signedResult (sign : Sign) (exponent : Int) (result : Nat) : Decimal :=
  if result < 2 ^ 63 then encode sign exponent result else encode (invertSign sign) exponent (2 ^ 64 - result)

/-- `operator+` -/
def add : Decimal :=
  match handle lhs rhs with
  | .bothFinite =>
    let aligned := alignOperands lhs rhs
    let result :=
      if lhs.sign = rhs.sign then aligned.lhsCoefficient + aligned.rhsCoefficient
      else (aligned.lhsCoefficient + 2 ^ 64 - aligned.rhsCoefficient) % 2 ^ 64
    if lhs.sign = .negative ∧ rhs.sign = .positive ∧ result = 0 then encode .positive aligned.exponent 0
    else signedResult lhs.sign aligned.exponent result
  | .bothInfinity => if lhs.sign = rhs.sign then lhs else nan
  | .eitherNaN value => value
  | .lhsIsInfinity => lhs
  | .rhsIsInfinity => rhs

/-- `operator-` -/
def subtract : Decimal :=
  match handle lhs rhs with
  | .bothFinite =>
    let aligned := alignOperands lhs rhs
    let result :=
      if lhs.sign = rhs.sign then (aligned.lhsCoefficient + 2 ^ 64 - aligned.rhsCoefficient) % 2 ^ 64
      else aligned.lhsCoefficient + aligned.rhsCoefficient
    if lhs.sign = .negative ∧ rhs.sign = .negative ∧ result = 0 then encode .positive aligned.exponent 0
    else signedResult lhs.sign aligned.exponent result
  | .bothInfinity => if lhs.sign = rhs.sign then nan else lhs
  | .eitherNaN value => value
  | .lhsIsInfinity => lhs
  | .rhsIsInfinity => infinity (invertSign rhs.sign)

/-! ### What a number denotes -/

/-- The factor of a sign. -/
def Sign.factor : Sign → ℚ
  | .positive => 1
  | .negative => -1

/-- The rational number that a finite number denotes. -/
def value : ℚ := Sign.factor self.sign * self.coefficient * 10 ^ self.exponent

/-- A finite number that denotes the given one. -/
def Denotes (number : ℚ) : Prop := self.isFinite = true ∧ self.value = number

theorem Denotes.iff_eq {self : Decimal} {number other : ℚ} (denotes : self.Denotes number) :
    self.Denotes other ↔ number = other :=
  ⟨fun also => denotes.2.symm.trans also.2, fun same => same ▸ denotes⟩

/-! ### Closed forms -/

theorem countDigitsLoop_spec {x : Nat} (fits : x < 2 ^ 64) (fuel count : Nat) (enough : 20 ≤ count + fuel)
    (few : count < 20) (large : count = 0 ∨ 10 ^ (count - 1) ≤ x) :
    x < 10 ^ countDigitsLoop x fuel (10 ^ count) count ∧
      (countDigitsLoop x fuel (10 ^ count) count = 0 ∨ 10 ^ (countDigitsLoop x fuel (10 ^ count) count - 1) ≤ x) := by
  induction fuel generalizing count with
  | zero => omega
  | succ fuel ih =>
    rw [countDigitsLoop]
    split
    · next atLeast =>
      split
      · next last =>
        obtain rfl : count = 19 := by
          by_contra other
          have power : 10 ^ count ≤ 10 ^ 18 := Nat.pow_le_pow_right (by decide) (by omega)
          omega
        exact ⟨by omega, .inr atLeast⟩
      · next more =>
        rw [← pow_succ]
        have notLast : count ≠ 19 := by
          rintro rfl
          omega
        exact ih (count + 1) (by omega) (by omega) (.inr atLeast)
    · next less => exact ⟨by omega, large⟩

theorem countDigits_spec {x : Nat} (fits : x < 2 ^ 64) :
    x < 10 ^ countDigits x ∧ (countDigits x = 0 ∨ 10 ^ (countDigits x - 1) ≤ x) :=
  countDigitsLoop_spec fits 20 0 (by decide) (by decide) (.inl rfl)

theorem countDigits_eq_zero_iff {x : Nat} (fits : x < 2 ^ 64) : countDigits x = 0 ↔ x = 0 := by
  obtain ⟨below, least⟩ := countDigits_spec fits
  constructor
  · intro none
    rw [none, pow_zero] at below
    omega
  · rintro rfl
    rcases least with none | least
    · exact none
    · have := Nat.pow_pos (show 0 < 10 by decide) |>.trans_le least
      omega

/-- The digits are counted by the powers of ten. -/
theorem countDigits_le_iff {x count : Nat} (fits : x < 2 ^ 64) : countDigits x ≤ count ↔ x < 10 ^ count := by
  obtain ⟨below, least⟩ := countDigits_spec fits
  constructor
  · intro few
    exact below.trans_le (Nat.pow_le_pow_right (by decide) few)
  · intro small
    rcases least with none | least
    · omega
    · have := (Nat.pow_lt_pow_iff_right (show 1 < 10 by decide)).mp (least.trans_lt small)
      omega

theorem scaleDown_eq (x n : Nat) : scaleDown x n = x / 10 ^ n := by
  induction n generalizing x with
  | zero => rw [scaleDown, pow_zero, Nat.div_one]
  | succ n ih =>
    rw [scaleDown]
    split
    · next none => rw [none, Nat.zero_div]
    · rw [ih, Nat.div_div_eq_div_mul, ← pow_succ']

/-- Digits that are dropped are less than a unit of the last digit that is kept. -/
theorem div_bounds (x n : Nat) : ((x / 10 ^ n : Nat) : ℚ) ≤ x / 10 ^ n ∧ (x : ℚ) / 10 ^ n < (x / 10 ^ n : Nat) + 1 := by
  have power : (0 : ℚ) < 10 ^ n := by positivity
  rw [le_div_iff₀ power, div_lt_iff₀ power]
  refine ⟨by exact_mod_cast Nat.div_mul_le_self x (10 ^ n), ?_⟩
  have := Nat.lt_mul_div_succ x (Nat.pow_pos (show 0 < 10 by decide) : 0 < 10 ^ n)
  rw [mul_comm] at this
  exact_mod_cast this

theorem scaleUpLoop_eq (x fuel y z n : Nat) (enough : n < fuel) :
    scaleUpLoop x fuel y z n = x * (y * z ^ n) % 2 ^ 64 := by
  induction fuel generalizing y z n with
  | zero => omega
  | succ fuel ih =>
    have halves : z ^ n = (if n % 2 = 1 then z else 1) * (z * z) ^ (n / 2) := by
      rw [← pow_two, ← pow_mul]
      rcases Nat.mod_two_eq_zero_or_one n with even | odd
      · rw [if_neg (by omega), one_mul, show 2 * (n / 2) = n by omega]
      · rw [if_pos odd, ← pow_succ', show 2 * (n / 2) + 1 = n by omega]
    have multiplied : (if n % 2 = 1 then y * z % 2 ^ 64 else y) ≡ y * (if n % 2 = 1 then z else 1) [MOD 2 ^ 64] := by
      split
      · exact Nat.mod_modEq _ _
      · rw [mul_one]
    rw [scaleUpLoop]
    split
    · next last =>
      refine Nat.ModEq.mul_left x (multiplied.trans ?_)
      rw [halves, last, pow_zero, mul_one]
    · rw [ih _ _ _ (by omega)]
      refine Nat.ModEq.mul_left x ?_
      rw [halves, ← mul_assoc]
      exact multiplied.mul ((Nat.mod_modEq _ _).pow _)

theorem scaleUp_eq (x n : Nat) : scaleUp x n = x * 10 ^ n % 2 ^ 64 := by
  rw [scaleUp, scaleUpLoop_eq _ _ _ _ _ (Nat.lt_succ_self n), one_mul]

/-! ### Encoded numbers -/

theorem coefficient_lt : self.coefficient < 10 ^ 17 := Nat.lt_succ_of_le self.coefficient_le

theorem coefficient_fits : self.coefficient < 2 ^ 64 := self.coefficient_lt.trans (by decide)

theorem isFinite_iff : self.isFinite = true ↔ self.formatClass = .normal ∨ self.formatClass = .zero := by
  cases class_eq : self.formatClass <;> simp [isFinite, isSpecial, class_eq]

/-- A number from an exponent in range is finite, unless its digits push the exponent out of it. -/
theorem encode_spec (sign : Sign) {exponent : Int} (coefficient : Nat)
    (inRange : exponentMin ≤ exponent ∧ exponent ≤ exponentMax) :
    ∃ count : Nat, (count = 0 ∨ maxCoefficient < coefficient ∧ 10 ^ 16 ≤ coefficient / 10 ^ count) ∧
      coefficient / 10 ^ count ≤ maxCoefficient ∧ (encode sign exponent coefficient).sign = sign ∧
      (exponent + count ≤ exponentMax → (encode sign exponent coefficient).isFinite = true ∧
        (encode sign exponent coefficient).coefficient = coefficient / 10 ^ count ∧
        (encode sign exponent coefficient).exponent = exponent + count) ∧
      (exponentMax < exponent + count → encode sign exponent coefficient = infinity sign) := by
  obtain ⟨count, run, small, least⟩ := fitLoop_spec coefficient coefficient exponent le_rfl
  have notBelow : ¬exponent + (count : Int) < exponentMin := by omega
  refine ⟨count, least, small, ?_, fun fits => ?_, fun large => ?_⟩
  · simp only [encode, if_pos inRange, run, encodeFitted, dif_neg notBelow]
    split <;> rfl
  · simp only [encode, if_pos inRange, run, encodeFitted, dif_neg notBelow, dif_neg (not_lt.mpr fits), and_self,
      and_true]
    rw [isFinite_iff]
    dsimp only
    split <;> simp
  · simp only [encode, if_pos inRange, run, encodeFitted,
      dif_pos (show exponent + (count : Int) > exponentMax from large)]

/-- A coefficient of at most 17 digits stays as it is. -/
theorem encode_small (sign : Sign) {exponent : Int} {coefficient : Nat}
    (inRange : exponentMin ≤ exponent ∧ exponent ≤ exponentMax) (small : coefficient ≤ maxCoefficient) :
      (encode sign exponent coefficient).isFinite = true ∧ (encode sign exponent coefficient).sign = sign ∧
      (encode sign exponent coefficient).coefficient = coefficient ∧
      (encode sign exponent coefficient).exponent = exponent := by
  obtain ⟨count, least, -, sign_eq, finite, -⟩ := encode_spec sign coefficient inRange
  obtain rfl : count = 0 := least.resolve_right fun large => absurd small (not_le.mpr large.1)
  have fitted := finite (by simpa using inRange.2)
  simpa [sign_eq] using fitted

theorem encode_value (sign : Sign) {exponent : Int} {coefficient : Nat}
    (inRange : exponentMin ≤ exponent ∧ exponent ≤ exponentMax) (small : coefficient ≤ maxCoefficient) :
    (encode sign exponent coefficient).value = Sign.factor sign * coefficient * 10 ^ exponent := by
  obtain ⟨-, sign_eq, coefficient_eq, exponent_eq⟩ := encode_small sign inRange small
  rw [value, sign_eq, coefficient_eq, exponent_eq]

/-- At most three digits of a 64-bit result are cut off. -/
theorem encode_cut (sign : Sign) {exponent : Int} {result : Nat}
    (inRange : exponentMin ≤ exponent ∧ exponent + 3 ≤ exponentMax) (fits : result < 2 ^ 64) :
    ∃ count : Nat, (count = 0 ∨ 10 ^ 16 ≤ result / 10 ^ count) ∧ (encode sign exponent result).isFinite = true ∧
      (encode sign exponent result).exponent = exponent + count ∧
      (encode sign exponent result).value =
        Sign.factor sign * ((result / 10 ^ count : Nat) * 10 ^ count : ℚ) * 10 ^ exponent := by
  obtain ⟨count, least, -, sign_eq, finite, -⟩ := encode_spec sign result ⟨inRange.1, by omega⟩
  replace least := least.imp_right And.right
  have few : count ≤ 3 := by
    rcases least with rfl | least
    · exact Nat.zero_le _
    · by_contra many
      have : result / 10 ^ count ≤ result / 10 ^ 4 :=
        Nat.div_le_div_left (Nat.pow_le_pow_right (by decide) (by omega)) (by decide)
      omega
  obtain ⟨isFinite, coefficient_eq, exponent_eq⟩ := finite (by omega)
  refine ⟨count, least, isFinite, exponent_eq, ?_⟩
  rw [value, sign_eq, coefficient_eq, exponent_eq, zpow_add₀ (by norm_num), zpow_natCast]
  ring

theorem encode_denotes (sign : Sign) {exponent : Int} {coefficient : Nat}
    (inRange : exponentMin ≤ exponent ∧ exponent ≤ exponentMax) (small : coefficient ≤ maxCoefficient) :
    (encode sign exponent coefficient).Denotes (Sign.factor sign * coefficient * 10 ^ exponent) :=
  ⟨(encode_small sign inRange small).1, encode_value sign inRange small⟩

theorem one_denotes (sign : Sign) : (encode sign 0 1).Denotes (Sign.factor sign * 1) := by
  have denotes :=
    encode_denotes sign (show exponentMin ≤ 0 ∧ 0 ≤ exponentMax by decide) (show 1 ≤ maxCoefficient by decide)
  rwa [zpow_zero, mul_one, Nat.cast_one] at denotes

@[simp]
theorem value_zero (sign : Sign) : (zero sign).value = 0 := by
  simp [value, zero, special]

theorem zero_denotes (sign : Sign) : (zero sign).Denotes 0 := ⟨rfl, value_zero sign⟩

theorem factor_ne_zero (sign : Sign) : Sign.factor sign ≠ 0 := by
  cases sign <;> simp [Sign.factor]

theorem factor_abs (sign : Sign) : |Sign.factor sign| = 1 := by
  cases sign <;> simp [Sign.factor]

theorem factor_invertSign (sign : Sign) : Sign.factor (invertSign sign) = -Sign.factor sign := by
  cases sign <;> simp [Sign.factor, invertSign]

theorem ten_zpow_pos (exponent : Int) : (0 : ℚ) < 10 ^ exponent := zpow_pos (by norm_num) _

theorem abs_value : |self.value| = self.coefficient * 10 ^ self.exponent := by
  rw [value, abs_mul, abs_mul, factor_abs, one_mul, abs_of_nonneg (Nat.cast_nonneg _),
    abs_of_pos (ten_zpow_pos _)]

theorem value_eq_factor_abs : self.value = Sign.factor self.sign * |self.value| := by
  rw [abs_value, value, mul_assoc]

/-- The magnitude is a coefficient of 17 digits with some exponent. -/
def Representable (number : ℚ) : Prop :=
  ∃ (digits : Nat) (exponent : Int), digits ≤ maxCoefficient ∧ |number| = digits * 10 ^ exponent

/-- Nothing is lost of a 64-bit result if and only if it is representable. -/
theorem encode_exact_iff (sign : Sign) {exponent : Int} {result : Nat}
    (inRange : exponentMin ≤ exponent ∧ exponent + 3 ≤ exponentMax) (fits : result < 2 ^ 64) :
    (encode sign exponent result).value = Sign.factor sign * result * 10 ^ exponent ↔
      Representable (Sign.factor sign * result * 10 ^ exponent) := by
  obtain ⟨count, least, -, -, value_eq⟩ := encode_cut sign inRange fits
  constructor
  · intro same
    rw [← same]
    exact ⟨_, _, (encode sign exponent result).coefficient_le, abs_value _⟩
  · rintro ⟨digits, other, few, magnitude⟩
    rw [abs_mul, abs_mul, factor_abs, one_mul, Nat.abs_cast, abs_of_pos (ten_zpow_pos _)] at magnitude
    have divides : 10 ^ count ∣ result := by
      rcases least with rfl | least
      · exact one_dvd _
      · -- a coefficient of 17 digits ends with as many zeros as are cut off
        have zeros : exponent + count ≤ other := by
          by_contra less
          have smaller : (digits : ℚ) * 10 ^ other < 10 ^ 17 * 10 ^ (exponent + count - 1) :=
            mul_lt_mul_of_lt_of_le_of_nonneg_of_pos (by exact_mod_cast Nat.lt_succ_of_le few)
              (zpow_le_zpow_right₀ (by norm_num) (by omega)) (Nat.cast_nonneg _) (ten_zpow_pos _)
          have unit : (10 : ℚ) ^ 17 * 10 ^ (exponent + count - 1) = (10 ^ 16 * 10 ^ count : Nat) * 10 ^ exponent := by
            rw [zpow_sub₀ (by norm_num), zpow_add₀ (by norm_num), zpow_natCast, zpow_one]
            push_cast
            ring
          rw [← magnitude, unit, mul_lt_mul_iff_left₀ (ten_zpow_pos _), Nat.cast_lt] at smaller
          exact absurd (Nat.mul_le_of_le_div _ _ _ least) (not_le.mpr smaller)
        obtain ⟨more, more_eq⟩ := Int.eq_ofNat_of_zero_le (sub_nonneg.mpr zeros)
        have whole : (result : ℚ) = (digits * 10 ^ more * 10 ^ count : Nat) := by
          refine mul_right_cancel₀ (ten_zpow_pos exponent).ne' (magnitude.trans ?_)
          rw [show other = more + count + exponent by omega, zpow_add₀ (by norm_num), zpow_add₀ (by norm_num),
            zpow_natCast, zpow_natCast]
          push_cast
          ring
        exact ⟨digits * 10 ^ more, by rw [mul_comm]; exact_mod_cast whole⟩
    have whole : ((result / 10 ^ count : Nat) * 10 ^ count : ℚ) = result := by
      exact_mod_cast Nat.div_mul_cancel divides
    rw [value_eq, whole]

end Decimal

end WebNode.Platform
