import WebNode.Platform.DecimalOrder

/-!
# Sums and products of decimal numbers

A result that does not fit into 17 digits is cut off, also where the 18 digits that the operations work on
would hold it. Products go through 128 bits, as two words of 64 bits that are multiplied and divided in
words of 32.
-/

namespace WebNode.Platform

/-! ### 128 bits -/

structure UInt128 where
  high : Nat
  low : Nat

namespace UInt128

def highUInt32 (x : Nat) : Nat := x / 2 ^ 32 % 2 ^ 32
def lowUInt32 (x : Nat) : Nat := x % 2 ^ 32

def makeUInt64 (low high : Nat) : Nat := low + high * 2 ^ 32

/-- The high 64 bits of a product of 128 bits. -/
def multiplyHigh (u v : Nat) : Nat :=
  let uLow := lowUInt32 u
  let uHigh := highUInt32 u
  let vLow := lowUInt32 v
  let vHigh := highUInt32 v
  let partialProduct := (uHigh * vLow + highUInt32 (uLow * vLow % 2 ^ 64)) % 2 ^ 64
  (uHigh * vHigh + highUInt32 partialProduct + highUInt32 ((uLow * vHigh + lowUInt32 partialProduct) % 2 ^ 64)) % 2 ^ 64

def multiply (u v : Nat) : UInt128 := ⟨multiplyHigh u v, u * v % 2 ^ 64⟩

/-- One step of the division: the quotient word and the remainder. -/
def divideWord (divisor dividend remainder : Nat) : Nat × Nat :=
  let work := makeUInt64 dividend remainder
  (work / divisor % 2 ^ 32, work % divisor % 2 ^ 32)

/-- `operator/=` -/
def divide (self : UInt128) (divisor : Nat) : UInt128 :=
  if self.high = 0 then ⟨0, self.low / divisor⟩
  else
    let (quotient3, remainder) := divideWord divisor (highUInt32 self.high) 0
    let (quotient2, remainder) := divideWord divisor (lowUInt32 self.high) remainder
    let (quotient1, remainder) := divideWord divisor (highUInt32 self.low) remainder
    let (quotient0, _) := divideWord divisor (lowUInt32 self.low) remainder
    ⟨makeUInt64 quotient2 quotient3, makeUInt64 quotient0 quotient1⟩

def toNat (self : UInt128) : Nat := self.high * 2 ^ 64 + self.low

/-- Both words have 64 bits. -/
structure Fits (number : UInt128) : Prop where
  high : number.high < 2 ^ 64
  low : number.low < 2 ^ 64

theorem mul_lt_words {a b : Nat} (left : a < 2 ^ 32) (right : b < 2 ^ 32) : a * b ≤ (2 ^ 32 - 1) * (2 ^ 32 - 1) :=
  Nat.mul_le_mul (Nat.le_sub_one_of_lt left) (Nat.le_sub_one_of_lt right)

theorem multiplyHigh_eq {u v : Nat} (left : u < 2 ^ 64) (right : v < 2 ^ 64) : multiplyHigh u v = u * v / 2 ^ 64 := by
  unfold multiplyHigh highUInt32 lowUInt32
  dsimp only
  have uHigh_lt : u / 2 ^ 32 < 2 ^ 32 := by omega
  have vHigh_lt : v / 2 ^ 32 < 2 ^ 32 := by omega
  have uLow_lt : u % 2 ^ 32 < 2 ^ 32 := by omega
  have vLow_lt : v % 2 ^ 32 < 2 ^ 32 := by omega
  rw [Nat.mod_eq_of_lt uHigh_lt, Nat.mod_eq_of_lt vHigh_lt]
  have product :
      u * v = u / 2 ^ 32 * (v / 2 ^ 32) * 2 ^ 64 + (u / 2 ^ 32 * (v % 2 ^ 32) + u % 2 ^ 32 * (v / 2 ^ 32)) * 2 ^ 32 +
      u % 2 ^ 32 * (v % 2 ^ 32) := by
    conv_lhs => rw [← Nat.div_add_mod u (2 ^ 32), ← Nat.div_add_mod v (2 ^ 32)]
    ring
  have highs := mul_lt_words uHigh_lt vHigh_lt
  have mixed := mul_lt_words uHigh_lt vLow_lt
  have mixed' := mul_lt_words uLow_lt vHigh_lt
  have lows := mul_lt_words uLow_lt vLow_lt
  rw [product]
  generalize u / 2 ^ 32 * (v / 2 ^ 32) = c at *
  generalize u / 2 ^ 32 * (v % 2 ^ 32) = a at *
  generalize u % 2 ^ 32 * (v / 2 ^ 32) = b at *
  generalize u % 2 ^ 32 * (v % 2 ^ 32) = d at *
  omega

theorem multiply_spec {u v : Nat} (left : u < 2 ^ 64) (right : v < 2 ^ 64) :
    (multiply u v).toNat = u * v ∧ (multiply u v).Fits := by
  have high_eq := multiplyHigh_eq left right
  have bound : u * v < 2 ^ 64 * 2 ^ 64 := Nat.mul_lt_mul'' left right
  rw [toNat, multiply, high_eq]
  refine ⟨?_, ?_, ?_⟩ <;> dsimp only <;> omega

theorem divideWord_ten {dividend remainder : Nat} (word : dividend < 2 ^ 32) (digit : remainder < 10) :
    ∃ quotient rest, divideWord 10 dividend remainder = (quotient, rest) ∧
      quotient * 10 + rest = dividend + remainder * 2 ^ 32 ∧ quotient < 2 ^ 32 ∧ rest < 10 := by
  refine ⟨_, _, rfl, ?_, Nat.mod_lt _ (by decide), ?_⟩ <;> simp only [makeUInt64] <;> omega

theorem divide_ten_spec {self : UInt128} (fits : self.Fits) :
    (self.divide 10).toNat = self.toNat / 10 ∧ (self.divide 10).Fits := by
  obtain ⟨high_lt, low_lt⟩ := fits
  obtain ⟨high, low⟩ := self
  dsimp only at high_lt low_lt
  unfold divide
  dsimp only
  split
  · next zero =>
    subst zero
    refine ⟨?_, ?_, ?_⟩ <;> simp only [toNat] <;> omega
  · have word (x : Nat) : x % 2 ^ 32 < 2 ^ 32 := Nat.mod_lt _ (by decide)
    unfold highUInt32 lowUInt32
    obtain ⟨quotient3, rest3, run3, step3, quotient3_lt, rest3_lt⟩ :=
      divideWord_ten (word (high / 2 ^ 32)) (show 0 < 10 by decide)
    obtain ⟨quotient2, rest2, run2, step2, quotient2_lt, rest2_lt⟩ := divideWord_ten (word high) rest3_lt
    obtain ⟨quotient1, rest1, run1, step1, quotient1_lt, rest1_lt⟩ := divideWord_ten (word (low / 2 ^ 32)) rest2_lt
    obtain ⟨quotient0, rest0, run0, step0, quotient0_lt, rest0_lt⟩ := divideWord_ten (word low) rest1_lt
    rw [Nat.mod_eq_of_lt (show high / 2 ^ 32 < 2 ^ 32 by omega)] at step3 run3
    rw [Nat.mod_eq_of_lt (show low / 2 ^ 32 < 2 ^ 32 by omega)] at step1 run1
    rw [Nat.mod_eq_of_lt (show high / 2 ^ 32 < 2 ^ 32 by omega),
      Nat.mod_eq_of_lt (show low / 2 ^ 32 < 2 ^ 32 by omega), run3]
    dsimp only
    rw [run2]
    dsimp only
    rw [run1]
    dsimp only
    rw [run0]
    simp only [makeUInt64, toNat]
    refine ⟨by omega, ?_, ?_⟩ <;> dsimp only <;> omega

end UInt128

namespace Decimal

variable (self lhs rhs : Decimal)

/-- The loop of `operator*`; the high word is fuel enough. -/
def multiplyLoop : Nat → UInt128 → Int → UInt128 × Int
  | 0, work, resultExponent => (work, resultExponent)
  | fuel + 1, work, resultExponent =>
    if work.high ≠ 0 then multiplyLoop fuel (work.divide 10) (resultExponent + 1) else (work, resultExponent)

/-- `operator*` -/
def multiply : Decimal :=
  let resultSign := if lhs.sign = rhs.sign then .positive else .negative
  match handle lhs rhs with
  | .bothFinite =>
    let work := UInt128.multiply lhs.coefficient rhs.coefficient
    let (work, resultExponent) := multiplyLoop work.high work (lhs.exponent + rhs.exponent)
    encode resultSign resultExponent work.low
  | .bothInfinity => infinity resultSign
  | .eitherNaN value => value
  | .lhsIsInfinity => if rhs.isZero then nan else infinity resultSign
  | .rhsIsInfinity => if lhs.isZero then nan else infinity resultSign

/-- The loop drops digits until the product has 64 bits. -/
theorem multiplyLoop_spec (fuel : Nat) {work : UInt128} (fits : work.Fits) (exponent : Int)
    (enough : work.high ≤ fuel) :
    ∃ (count : Nat) (low : Nat), multiplyLoop fuel work exponent = (⟨0, low⟩, exponent + count) ∧
      low = work.toNat / 10 ^ count ∧ low < 2 ^ 64 ∧ (count = 0 ∨ 2 ^ 64 / 10 ≤ low) := by
  induction fuel generalizing work exponent with
  | zero =>
    obtain ⟨high, low⟩ := work
    obtain rfl : high = 0 := Nat.le_zero.mp enough
    exact ⟨0, low, by simp [multiplyLoop], by simp [UInt128.toNat], fits.low, .inl rfl⟩
  | succ fuel ih =>
    rw [multiplyLoop]
    split
    · next more =>
      obtain ⟨quotient, dividedFits⟩ := UInt128.divide_ten_spec fits
      have smaller : (work.divide 10).high ≤ fuel := by
        have dividedLow := dividedFits.low
        have low := fits.low
        simp only [UInt128.toNat] at quotient
        omega
      obtain ⟨count, low, run, low_eq, low_lt, least⟩ := ih dividedFits (exponent + 1) smaller
      refine ⟨count + 1, low, ?_, ?_, low_lt, .inr ?_⟩
      · rw [run]
        push_cast
        ring_nf
      · rw [low_eq, quotient, Nat.div_div_eq_div_mul, pow_succ']
      · rcases least with rfl | least
        · rw [low_eq, pow_zero, Nat.div_one, quotient]
          simp only [UInt128.toNat]
          omega
        · exact least
    · next done =>
      obtain ⟨high, low⟩ := work
      obtain rfl : high = 0 := not_not.mp done
      exact ⟨0, low, by simp, by simp [UInt128.toNat], fits.low, .inl rfl⟩

/-! ### Truncated results -/

/-- The result has the right sign and misses less than a unit of its last digit. -/
structure Truncates (result : Decimal) (exact : ℚ) : Prop where
  finite : result.isFinite = true
  sign : SignType.sign result.value = SignType.sign exact
  error : |result.value - exact| < 10 ^ result.exponent

/-- A 64-bit result that misses less than one, and what is cut off of it. -/
theorem truncates_of_near (sign : Sign) {exponent : Int} {result : Nat} {exact : ℚ}
    (inRange : exponentMin ≤ exponent ∧ exponent + 3 ≤ exponentMax) (fits : result < 2 ^ 64)
    (sign_eq : SignType.sign (result : ℚ) = SignType.sign exact) (near : |result - exact| < 1) :
    Truncates (encode sign exponent result) (Sign.factor sign * exact * 10 ^ exponent) := by
  obtain ⟨count, least, isFinite, exponent_eq, value_eq⟩ := encode_cut sign inRange fits
  have scale := ten_zpow_pos exponent
  have power : (1 : ℚ) ≤ 10 ^ count := one_le_pow₀ (by norm_num)
  have lower : ((result / 10 ^ count : Nat) * 10 ^ count : ℚ) ≤ result := by exact_mod_cast Nat.div_mul_le_self _ _
  have upper : (result + 1 : ℚ) ≤ ((result / 10 ^ count : Nat) + 1) * 10 ^ count := by
    have := (div_lt_iff₀ (by linarith)).mp (div_bounds result count).2
    exact_mod_cast this
  refine ⟨isFinite, ?_, ?_⟩
  · rw [value_eq, sign_mul, sign_mul (Sign.factor sign), sign_mul (Sign.factor sign * exact),
      sign_mul (Sign.factor sign) exact, ← sign_eq]
    by_cases none : result = 0
    · simp [none]
    · have nonzero : 0 < result / 10 ^ count := by
        rcases least with rfl | least
        · simpa using Nat.pos_of_ne_zero none
        · exact lt_of_lt_of_le (by decide) least
      have kept : (0 : ℚ) < (result / 10 ^ count : Nat) := by exact_mod_cast nonzero
      have positive : (0 : ℚ) < result := by exact_mod_cast Nat.pos_of_ne_zero none
      rw [sign_pos (mul_pos kept (by linarith)), sign_pos positive]
  · rw [value_eq, exponent_eq, ← sub_mul, ← mul_sub, abs_mul, abs_mul, factor_abs, one_mul, abs_of_pos scale,
      zpow_add₀ (by norm_num), mul_comm (10 ^ exponent : ℚ), zpow_natCast]
    refine mul_lt_mul_of_pos_right ?_ scale
    rw [abs_sub_lt_iff] at near ⊢
    constructor <;> linarith

/-! ### Sums -/

/-- The exponents for which no result leaves the range. -/
def Moderate : Prop := -400 ≤ self.exponent ∧ self.exponent ≤ 400

section Sums

variable {lhs rhs : Decimal} (finite : lhs.isFinite = true) (finite' : rhs.isFinite = true)

include finite finite'

theorem add_truncates (moderate : lhs.Moderate) (moderate' : rhs.Moderate) :
    Truncates (add lhs rhs) (lhs.value + rhs.value) := by
  obtain ⟨lhsExact, rhsExact, aligned⟩ := exists_aligned lhs rhs
  have left_lt := aligned.left.coefficient_lt
  have right_lt := aligned.right.coefficient_lt
  obtain ⟨sign, result, encoded, sum_eq, size⟩ := add_spec finite finite' left_lt right_lt
  have inRange : exponentMin ≤ (alignOperands lhs rhs).exponent ∧
      (alignOperands lhs rhs).exponent + 3 ≤ exponentMax := by
    have lower := (le_min moderate.1 moderate'.1).trans aligned.exponent_ge
    have upper := aligned.exponent_le.trans (max_le moderate.2 moderate'.2)
    rw [exponentMin, exponentMax]
    omega
  have total : lhs.value + rhs.value = (Sign.factor lhs.sign * lhsExact + Sign.factor rhs.sign * rhsExact) *
      10 ^ (alignOperands lhs rhs).exponent := by
    rw [value_eq_factor_abs lhs, value_eq_factor_abs rhs, aligned.left.magnitude_eq, aligned.right.magnitude_eq]
    ring
  have sign_eq := aligned.sign_eq
  rw [total, sign_mul, sign_pos (ten_zpow_pos _), mul_one, ← sum_eq] at sign_eq
  have square : Sign.factor sign * Sign.factor sign = 1 := by cases sign <;> simp [Sign.factor]
  obtain ⟨-, left_le, left_next, -⟩ := aligned.left
  obtain ⟨-, right_le, right_next, -⟩ := aligned.right
  -- only one of the operands was cut off
  have near :
      lhsExact + rhsExact < (alignOperands lhs rhs).lhsCoefficient + (alignOperands lhs rhs).rhsCoefficient + 1 := by
    rcases aligned.dropped with ⟨left, right, -⟩ | ⟨left, -⟩ | ⟨right, -⟩ <;> linarith
  have missed :
      |Sign.factor sign * result - (Sign.factor lhs.sign * lhsExact + Sign.factor rhs.sign * rhsExact)| < 1 := by
    rw [sum_eq, add_sub_add_comm, ← mul_sub, ← mul_sub]
    refine (abs_add_le _ _).trans_lt ?_
    rw [abs_mul, abs_mul, factor_abs, factor_abs, one_mul, one_mul,
      abs_of_nonpos (by linarith), abs_of_nonpos (by linarith)]
    linarith
  generalize Sign.factor lhs.sign * lhsExact + Sign.factor rhs.sign * rhsExact = exact at *
  rw [encoded, total, ← one_mul exact, ← square, mul_assoc (Sign.factor sign)]
  refine truncates_of_near sign inRange (by omega) ?_ ?_
  · have := congrArg (SignType.sign (Sign.factor sign) * ·) sign_eq
    simpa only [← sign_mul, ← mul_assoc, square, one_mul] using this
  · have factored : result - Sign.factor sign * exact = Sign.factor sign * (Sign.factor sign * result - exact) := by
      linear_combination -(result : ℚ) * square
    rwa [factored, abs_mul, factor_abs, one_mul]

/-- A sum is exact if it is representable and the operands have 18 digits in units of the smaller exponent. -/
theorem add_exact_iff (moderate : lhs.Moderate)
    (left : lhs.coefficient * 10 ^ (lhs.exponent - min lhs.exponent rhs.exponent).toNat < 10 ^ 18)
    (moderate' : rhs.Moderate)
    (right : rhs.coefficient * 10 ^ (rhs.exponent - min lhs.exponent rhs.exponent).toNat < 10 ^ 18) :
    (add lhs rhs).value = lhs.value + rhs.value ↔ Representable (lhs.value + rhs.value) := by
  obtain ⟨lhsExact, rhsExact, aligned⟩ := exists_aligned lhs rhs
  have left_lt := aligned.left.coefficient_lt
  have right_lt := aligned.right.coefficient_lt
  obtain ⟨sign, result, encoded, sum_eq, size⟩ := add_spec finite finite' left_lt right_lt
  rcases aligned.dropped with ⟨left_eq, right_eq, exponent_eq⟩ | ⟨-, -, -, wide⟩ | ⟨-, -, -, wide⟩
  · have total : lhs.value + rhs.value = Sign.factor sign * result * 10 ^ min lhs.exponent rhs.exponent := by
      rw [sum_eq, ← left_eq, ← right_eq, value_eq_factor_abs lhs, value_eq_factor_abs rhs, aligned.left.magnitude_eq,
        aligned.right.magnitude_eq, exponent_eq]
      ring
    have lower := le_min moderate.1 moderate'.1
    have upper := (min_le_left lhs.exponent rhs.exponent).trans moderate.2
    rw [encoded, total, exponent_eq]
    exact encode_exact_iff sign (by rw [exponentMin, exponentMax]; omega) (by omega)
  · omega
  · omega

theorem add_comm_value : (add lhs rhs).value = (add rhs lhs).value := by
  obtain ⟨lhsExact, rhsExact, aligned⟩ := exists_aligned lhs rhs
  obtain ⟨sign, result, encoded, sum_eq, -⟩ :=
    add_spec finite finite' aligned.left.coefficient_lt aligned.right.coefficient_lt
  obtain ⟨sign', result', encoded', sum_eq', -⟩ :=
    add_spec finite' finite aligned.symm.left.coefficient_lt aligned.symm.right.coefficient_lt
  rw [alignOperands_comm lhs rhs] at encoded' sum_eq'
  rw [add_comm, ← sum_eq] at sum_eq'
  have result_eq : result' = result := by
    have := congrArg abs sum_eq'
    rw [abs_mul, abs_mul, factor_abs, factor_abs, one_mul, one_mul, Nat.abs_cast, Nat.abs_cast] at this
    exact_mod_cast this
  have inRange : exponentMin ≤ (alignOperands lhs rhs).exponent ∧ (alignOperands lhs rhs).exponent ≤ exponentMax :=
    ⟨(le_min lhs.exponent_le.1 rhs.exponent_le.1).trans aligned.exponent_ge,
      aligned.exponent_le.trans (max_le lhs.exponent_le.2 rhs.exponent_le.2)⟩
  subst result_eq
  rw [encoded, encoded']
  by_cases zero : result' = 0
  · subst zero
    rw [encode_value _ inRange (Nat.zero_le _), encode_value _ inRange (Nat.zero_le _)]
    simp
  · have factor_eq := mul_right_cancel₀ (Nat.cast_ne_zero.mpr zero) sum_eq'
    have sign_eq : sign' = sign := by
      cases sign <;> cases sign' <;> simp [Sign.factor] at factor_eq ⊢ <;> norm_num at factor_eq
    rw [sign_eq]

/-! ### Products -/

/-- The product of the coefficients is cut off after 64 bits and again by the constructor. -/
theorem multiply_spec : ∃ (count low : Nat), multiply lhs rhs =
      encode (if lhs.sign = rhs.sign then .positive else .negative) (lhs.exponent + rhs.exponent + count) low ∧
    low = lhs.coefficient * rhs.coefficient / 10 ^ count ∧ low < 2 ^ 64 ∧ (count = 0 ∨ 2 ^ 64 / 10 ≤ low) := by
  obtain ⟨product, fits⟩ := UInt128.multiply_spec lhs.coefficient_fits rhs.coefficient_fits
  obtain ⟨count, low, run, low_eq, low_lt, least⟩ := multiplyLoop_spec _ fits (lhs.exponent + rhs.exponent) le_rfl
  rw [product] at low_eq
  refine ⟨count, low, ?_, low_eq, low_lt, least⟩
  rw [multiply, handle_finite finite finite']
  dsimp only
  rw [run]

omit finite finite' in
theorem value_mul : lhs.value * rhs.value = Sign.factor (if lhs.sign = rhs.sign then .positive else .negative) *
    (lhs.coefficient * rhs.coefficient : Nat) * 10 ^ (lhs.exponent + rhs.exponent) := by
  rw [value, value, zpow_add₀ (by norm_num)]
  cases lhs.sign <;> cases rhs.sign <;> simp [Sign.factor] <;> ring

theorem multiply_truncates (moderate : lhs.Moderate) (moderate' : rhs.Moderate) :
    Truncates (multiply lhs rhs) (lhs.value * rhs.value) := by
  obtain ⟨count, low, encoded, low_eq, low_lt, least⟩ := multiply_spec finite finite'
  have power : (0 : ℚ) < 10 ^ count := by positivity
  have few : count ≤ 34 := by
    rcases least with rfl | least
    · exact Nat.zero_le _
    · by_contra many
      have product : lhs.coefficient * rhs.coefficient < 10 ^ 17 * 10 ^ 17 :=
        Nat.mul_lt_mul'' lhs.coefficient_lt rhs.coefficient_lt
      have power : 10 ^ 34 ≤ 10 ^ count := Nat.pow_le_pow_right (by decide) (by omega)
      rw [low_eq, Nat.div_eq_of_lt (product.trans_le power)] at least
      exact absurd least (by decide)
  obtain ⟨le, lt⟩ := div_bounds (lhs.coefficient * rhs.coefficient) count
  rw [← low_eq] at le lt
  have inRange : exponentMin ≤ lhs.exponent + rhs.exponent + count ∧
      lhs.exponent + rhs.exponent + count + 3 ≤ exponentMax := by
    have := moderate
    have := moderate'
    rw [Moderate] at *
    rw [exponentMin, exponentMax]
    omega
  have sign_eq :
      SignType.sign (low : ℚ) = SignType.sign ((lhs.coefficient * rhs.coefficient : Nat) / 10 ^ count : ℚ) := by
    by_cases zero : low = 0
    · obtain rfl : count = 0 := least.resolve_right (by rw [zero]; decide)
      rw [low_eq, pow_zero, Nat.div_one, pow_zero, div_one]
    · have positive : (0 : ℚ) < low := by exact_mod_cast Nat.pos_of_ne_zero zero
      rw [sign_pos positive, sign_pos (positive.trans_le le)]
  rw [encoded, value_mul]
  convert truncates_of_near _ inRange low_lt sign_eq (by rw [abs_sub_lt_iff]; constructor <;> linarith) using 1
  rw [zpow_add₀ (by norm_num) _ (count : Int), zpow_natCast]
  field_simp

theorem multiply_exact_iff (moderate : lhs.Moderate) (moderate' : rhs.Moderate)
    (small : lhs.coefficient * rhs.coefficient < 10 ^ 18) :
    (multiply lhs rhs).value = lhs.value * rhs.value ↔ Representable (lhs.value * rhs.value) := by
  obtain ⟨count, low, encoded, low_eq, -, least⟩ := multiply_spec finite finite'
  have none : count = 0 := least.resolve_right fun least => by
    have := Nat.div_le_self (lhs.coefficient * rhs.coefficient) (10 ^ count)
    omega
  subst none
  rw [pow_zero, Nat.div_one] at low_eq
  have := moderate
  have := moderate'
  rw [Moderate] at *
  rw [encoded, value_mul, low_eq, Nat.cast_zero, add_zero]
  exact encode_exact_iff _ (by rw [exponentMin, exponentMax]; omega) (by omega)

theorem multiply_comm_value : (multiply lhs rhs).value = (multiply rhs lhs).value := by
  have high_eq :
      UInt128.multiplyHigh lhs.coefficient rhs.coefficient = UInt128.multiplyHigh rhs.coefficient lhs.coefficient := by
    rw [UInt128.multiplyHigh_eq lhs.coefficient_fits rhs.coefficient_fits, mul_comm,
      UInt128.multiplyHigh_eq rhs.coefficient_fits lhs.coefficient_fits]
  rw [multiply, multiply, handle_finite finite finite', handle_finite finite' finite]
  simp only [UInt128.multiply, high_eq, mul_comm rhs.coefficient, add_comm rhs.exponent, eq_comm (a := rhs.sign)]

end Sums

/-- Sums, differences and products are cut off correctly. Where 18 digits would hold the operands and the product of the
coefficients, a result is exact if and only if 17 digits hold it. -/
structure ArithmeticTruncates (lhs rhs : Decimal) : Prop where
  sum : Truncates (lhs.add rhs) (lhs.value + rhs.value)
  difference : Truncates (lhs.subtract rhs) (lhs.value - rhs.value)
  product : Truncates (lhs.multiply rhs) (lhs.value * rhs.value)
  sum_exact : lhs.coefficient * 10 ^ (lhs.exponent - min lhs.exponent rhs.exponent).toNat < 10 ^ 18 →
    rhs.coefficient * 10 ^ (rhs.exponent - min lhs.exponent rhs.exponent).toNat < 10 ^ 18 →
    ((lhs.add rhs).value = lhs.value + rhs.value ↔ Representable (lhs.value + rhs.value))
  difference_exact : lhs.coefficient * 10 ^ (lhs.exponent - min lhs.exponent rhs.exponent).toNat < 10 ^ 18 →
    rhs.coefficient * 10 ^ (rhs.exponent - min lhs.exponent rhs.exponent).toNat < 10 ^ 18 →
    ((lhs.subtract rhs).value = lhs.value - rhs.value ↔ Representable (lhs.value - rhs.value))
  product_exact : lhs.coefficient * rhs.coefficient < 10 ^ 18 →
    ((lhs.multiply rhs).value = lhs.value * rhs.value ↔ Representable (lhs.value * rhs.value))
  sum_comm : (lhs.add rhs).value = (rhs.add lhs).value
  product_comm : (lhs.multiply rhs).value = (rhs.multiply lhs).value

/-- For exponents within 400, no sum, difference or product misses a unit of its last digit. -/
theorem arithmeticTruncates (lhs rhs : Decimal) (finite : lhs.isFinite = true) (finite' : rhs.isFinite = true)
    (moderate : lhs.Moderate) (moderate' : rhs.Moderate) : ArithmeticTruncates lhs rhs := by
  obtain ⟨subtract_eq, finiteNegate, negate_value⟩ := subtract_eq_add finite finite'
  obtain ⟨coefficient_eq, exponent_eq⟩ := negate_fields rhs
  have moderateNegate : rhs.negate.Moderate := by rwa [Moderate, exponent_eq]
  exact {
    sum := add_truncates finite finite' moderate moderate'
    difference := by
      have truncates := add_truncates finite finiteNegate moderate moderateNegate
      rwa [subtract_eq, sub_eq_add_neg, ← negate_value]
    product := multiply_truncates finite finite' moderate moderate'
    sum_exact := fun left right => add_exact_iff finite finite' moderate left moderate' right
    difference_exact := fun left right => by
      have exactly := add_exact_iff finite finiteNegate moderate (by rwa [exponent_eq]) moderateNegate
        (by rwa [exponent_eq, coefficient_eq])
      rwa [subtract_eq, sub_eq_add_neg, ← negate_value]
    product_exact := multiply_exact_iff finite finite' moderate moderate'
    sum_comm := add_comm_value finite finite'
    product_comm := multiply_comm_value finite finite' }

/-- The product of the largest coefficients. -/
theorem arithmeticTruncates_largest :
    ArithmeticTruncates (encode .positive 400 99999999999999999) (encode .negative (-400) 99999999999999999) :=
  arithmeticTruncates _ _ (by decide) (by decide) ⟨by decide, by decide⟩ ⟨by decide, by decide⟩

/-- A sum and a product of 18 digits that lose the last one. -/
theorem arithmetic_loses_digit :
    (add (encode .positive 0 99999999999999999) (encode .positive 0 2)).value ≠ 99999999999999999 + 2 ∧
      (multiply (encode .positive 0 999999999) (encode .positive 0 999999999)).value ≠ 999999999 * 999999999 := by
  have sum :
      add (encode .positive 0 99999999999999999) (encode .positive 0 2) = encode .positive 1 10000000000000000 := by
    decide
  have product : multiply (encode .positive 0 999999999) (encode .positive 0 999999999) =
      encode .positive 1 99999999800000000 := by
    decide
  rw [sum, product, encode_value _ (by decide) (by decide), encode_value _ (by decide) (by decide)]
  norm_num [Sign.factor]

end Decimal

end WebNode.Platform
