import WebNode.Platform.Decimal

/-!
# Comparing decimal numbers

Numbers are compared by the sign of their difference, for which they are aligned within 18 digits.
Where digits are dropped, the other operand has 18 of them and is larger.
-/

namespace WebNode.Platform.Decimal

variable (self lhs rhs : Decimal)

/-! ### The code -/

def compareTo : Decimal :=
  let result := self.subtract rhs
  match result.formatClass with
  | .infinity => if result.isNegative then ofInt (-1) else ofInt 1
  | .nan | .normal => result
  | .zero => zero .positive

/-- `operator==`, where two numbers with the same data are equal. -/
def equal : Bool := self = rhs || (self.compareTo rhs).isZero

def notEqual : Bool :=
  if self = rhs then false
  else
    let result := self.compareTo rhs
    if result.isNaN then false else !result.isZero

def less : Bool :=
  let result := self.compareTo rhs
  if result.isNaN then false else !result.isZero && result.isNegative

def lessEqual : Bool :=
  if self = rhs then true
  else
    let result := self.compareTo rhs
    if result.isNaN then false else result.isZero || result.isNegative

def greater : Bool :=
  let result := self.compareTo rhs
  if result.isNaN then false else !result.isZero && result.isPositive

def greaterEqual : Bool :=
  if self = rhs then true
  else
    let result := self.compareTo rhs
    if result.isNaN then false else result.isZero || !result.isNegative

/-! ### Alignment -/

/-- The operand with the larger exponent is scaled up by some digits, the other one is scaled down by the
others; and if it is, the first one has 18 digits. -/
theorem alignLarger_spec {larger smaller : Nat} (shiftAmount : Nat) (exponent : Int) (larger_lt : larger < 10 ^ 18) :
    ∃ up down :
      Nat, alignLarger larger smaller shiftAmount exponent = (larger * 10 ^ up, smaller / 10 ^ down, exponent + down) ∧
      larger * 10 ^ up < 10 ^ 18 ∧ (larger = 0 ∨ up + down = shiftAmount) ∧
      (down = 0 ∨ 10 ^ 17 ≤ larger * 10 ^ up ∧ 10 ^ 18 ≤ larger * 10 ^ shiftAmount) ∧ down ≤ shiftAmount := by
  have fits : larger < 2 ^ 64 := larger_lt.trans (by decide)
  obtain ⟨below, least⟩ := countDigits_spec fits
  have few : countDigits larger ≤ 18 := (countDigits_le_iff fits).mpr larger_lt
  -- scaling up to 18 digits does not leave the 64 bits
  have scaled (up : Nat) (room : countDigits larger + up ≤ 18) :
      larger * 10 ^ up < 10 ^ 18 ∧ scaleUp larger up = larger * 10 ^ up := by
    have bound : larger * 10 ^ up < 10 ^ 18 := by
      calc larger * 10 ^ up < 10 ^ countDigits larger * 10 ^ up :=
        Nat.mul_lt_mul_of_pos_right below (Nat.pow_pos (by decide))
        _ = 10 ^ (countDigits larger + up) := (pow_add ..).symm
        _ ≤ 10 ^ 18 := Nat.pow_le_pow_right (by decide) room
    exact ⟨bound, by rw [scaleUp_eq, Nat.mod_eq_of_lt (bound.trans (by decide))]⟩
  rw [alignLarger]
  dsimp only
  split
  · next nonzero =>
    split
    · next room =>
      rw [precision] at room
      obtain ⟨bound, scaled_eq⟩ := scaled shiftAmount (by omega)
      exact ⟨shiftAmount, 0, by simp [scaled_eq], bound, .inr rfl, .inl rfl, Nat.zero_le _⟩
    · next overflow =>
      rw [precision] at overflow ⊢
      obtain ⟨bound, scaled_eq⟩ := scaled (18 - countDigits larger) (by omega)
      have enough : 10 ^ 17 ≤ larger * 10 ^ (18 - countDigits larger) := by
        calc 10 ^ 17 = 10 ^ (countDigits larger - 1) * 10 ^ (18 - countDigits larger) := by
              rw [← pow_add, show countDigits larger - 1 + (18 - countDigits larger) = 17 by omega]
          _ ≤ larger * 10 ^ (18 - countDigits larger) := Nat.mul_le_mul_right _ (least.resolve_left nonzero)
      have wide : 10 ^ 18 ≤ larger * 10 ^ shiftAmount := by
        calc 10 ^ 18 ≤ larger * 10 ^ (18 - countDigits larger) * 10 := by omega
          _ = larger * 10 ^ (18 - countDigits larger + 1) := by rw [mul_assoc, ← pow_succ]
          _ ≤ larger * 10 ^ shiftAmount := Nat.mul_le_mul_left _ (Nat.pow_le_pow_right (by decide) (by omega))
      refine ⟨18 - countDigits larger, countDigits larger + shiftAmount - 18, ?_, bound,
        .inr (by omega), .inr ⟨enough, wide⟩, by omega⟩
      have up_eq :
          ((shiftAmount : Int) - (countDigits larger + shiftAmount - (18 : Nat))).toNat = 18 - countDigits larger := by
            omega
      have down_eq :
          ((countDigits larger : Int) + shiftAmount - (18 : Nat)).toNat = countDigits larger + shiftAmount - 18 := by
            omega
      rw [up_eq, down_eq, scaled_eq, scaleDown_eq]
      congr 2
      omega
  · next none =>
    obtain rfl : larger = 0 := (countDigits_eq_zero_iff fits).mp (not_not.mp none)
    exact ⟨0, 0, by simp, by simp, .inl rfl, .inl rfl, Nat.zero_le _⟩

/-- A magnitude is written in units of a power of ten, down to the next integer. -/
structure Truncated (magnitude : ℚ) (coefficient : Nat) (exponent : Int) (exact : ℚ) : Prop where
  magnitude_eq : magnitude = exact * 10 ^ exponent
  le : coefficient ≤ exact
  lt : exact < coefficient + 1
  coefficient_lt : coefficient < 10 ^ 18

theorem truncated_scaled_up {coefficient up : Nat} {exponent aligned : Int} (bound : coefficient * 10 ^ up < 10 ^ 18)
    (shift : coefficient = 0 ∨ exponent = aligned + up) :
    Truncated (coefficient * 10 ^ exponent) (coefficient * 10 ^ up) aligned (coefficient * 10 ^ up : Nat) where
  magnitude_eq := by
    rcases shift with rfl | rfl
    · simp
    · rw [zpow_add₀ (by norm_num), zpow_natCast]
      push_cast
      ring
  le := le_rfl
  lt := lt_add_one _
  coefficient_lt := bound

theorem truncated_scaled_down {coefficient : Nat} (down : Nat) (exponent : Int) (bound : coefficient < 10 ^ 18) :
    Truncated (coefficient * 10 ^ exponent) (coefficient / 10 ^ down) (exponent + down)
    ((coefficient : ℚ) / 10 ^ down) where
  magnitude_eq := by
    rw [zpow_add₀ (by norm_num), zpow_natCast]
    field_simp
  le := (div_bounds coefficient down).1
  lt := (div_bounds coefficient down).2
  coefficient_lt := (Nat.div_le_self _ _).trans_lt bound

/-- What alignment makes of two magnitudes. Digits are dropped from one operand only, and the other one has
18 digits then. -/
structure Aligned (lhs rhs : Decimal) (lhsExact rhsExact : ℚ) : Prop where
  left : Truncated |lhs.value| (alignOperands lhs rhs).lhsCoefficient (alignOperands lhs rhs).exponent lhsExact
  right : Truncated |rhs.value| (alignOperands lhs rhs).rhsCoefficient (alignOperands lhs rhs).exponent rhsExact
  dropped : lhsExact = (alignOperands lhs rhs).lhsCoefficient ∧ rhsExact = (alignOperands lhs rhs).rhsCoefficient ∧
      (alignOperands lhs rhs).exponent = min lhs.exponent rhs.exponent ∨
    lhsExact = (alignOperands lhs rhs).lhsCoefficient ∧ 10 ^ 17 ≤ lhsExact ∧ rhsExact < 10 ^ 17 ∧
      10 ^ 18 ≤ lhs.coefficient * 10 ^ (lhs.exponent - min lhs.exponent rhs.exponent).toNat ∨
    rhsExact = (alignOperands lhs rhs).rhsCoefficient ∧ 10 ^ 17 ≤ rhsExact ∧ lhsExact < 10 ^ 17 ∧
      10 ^ 18 ≤ rhs.coefficient * 10 ^ (rhs.exponent - min lhs.exponent rhs.exponent).toNat
  exponent_ge : min lhs.exponent rhs.exponent ≤ (alignOperands lhs rhs).exponent
  exponent_le : (alignOperands lhs rhs).exponent ≤ max lhs.exponent rhs.exponent

theorem alignOperands_comm : alignOperands rhs lhs =
    ⟨(alignOperands lhs rhs).rhsCoefficient, (alignOperands lhs rhs).lhsCoefficient,
      (alignOperands lhs rhs).exponent⟩ := by
  unfold alignOperands
  rcases lt_trichotomy lhs.exponent rhs.exponent with less | same | more
  · simp [less, not_lt_of_gt less, min_comm]
  · simp [same]
  · simp [more, not_lt_of_gt more, min_comm]

theorem Aligned.symm {lhs rhs : Decimal} {lhsExact rhsExact : ℚ} (aligned : Aligned lhs rhs lhsExact rhsExact) :
    Aligned rhs lhs rhsExact lhsExact := by
  have swapped := alignOperands_comm lhs rhs
  constructor
  · rw [swapped]
    exact aligned.right
  · rw [swapped]
    exact aligned.left
  · rw [swapped, min_comm]
    rcases aligned.dropped with ⟨left, right, exponent_eq⟩ | left | right
    · exact .inl ⟨right, left, exponent_eq⟩
    · exact .inr (.inr left)
    · exact .inr (.inl right)
  · rw [swapped, min_comm]
    exact aligned.exponent_ge
  · rw [swapped, max_comm]
    exact aligned.exponent_le

theorem aligned_of_gt {lhs rhs : Decimal} (greater : rhs.exponent < lhs.exponent) :
    ∃ lhsExact rhsExact, Aligned lhs rhs lhsExact rhsExact := by
  have min_eq : min lhs.exponent rhs.exponent = rhs.exponent := min_eq_right greater.le
  obtain ⟨up, down, run, bound, total, wide, down_le⟩ := @alignLarger_spec _ rhs.coefficient
    (lhs.exponent - rhs.exponent).toNat (min lhs.exponent rhs.exponent) (lhs.coefficient_lt.trans (by decide))
  have operands :
      alignOperands lhs rhs = ⟨lhs.coefficient * 10 ^ up, rhs.coefficient / 10 ^ down, rhs.exponent + down⟩ := by
    rw [alignOperands, if_pos greater, run, min_eq]
  refine ⟨(lhs.coefficient * 10 ^ up : Nat), (rhs.coefficient : ℚ) / 10 ^ down, ?_, ?_, ?_, ?_, ?_⟩
  · rw [operands, abs_value]
    refine truncated_scaled_up bound (total.imp_right fun sum => ?_)
    dsimp only
    omega
  · rw [operands, abs_value]
    exact truncated_scaled_down down rhs.exponent (rhs.coefficient_lt.trans (by decide))
  · rw [operands]
    rcases wide with rfl | ⟨enough, wide⟩
    · exact .inl ⟨rfl, by simp, by simp [min_eq]⟩
    · by_cases none : down = 0
      · subst none
        exact .inl ⟨rfl, by simp, by simp [min_eq]⟩
      · refine .inr (.inl ⟨rfl, by exact_mod_cast enough, ?_, by rwa [min_eq]⟩)
        rw [div_lt_iff₀ (by positivity)]
        have bound : rhs.coefficient < 10 ^ 17 * 10 ^ down :=
          rhs.coefficient_lt.trans_le (Nat.le_mul_of_pos_right _ (Nat.pow_pos (by decide)))
        exact_mod_cast bound
  · rw [operands, min_eq]
    dsimp only
    omega
  · rw [operands, max_eq_left greater.le]
    dsimp only
    omega

theorem exists_aligned : ∃ lhsExact rhsExact, Aligned lhs rhs lhsExact rhsExact := by
  rcases lt_trichotomy lhs.exponent rhs.exponent with less | same | more
  · obtain ⟨rhsExact, lhsExact, aligned⟩ := aligned_of_gt less
    exact ⟨lhsExact, rhsExact, aligned.symm⟩
  · have operands : alignOperands lhs rhs = ⟨lhs.coefficient, rhs.coefficient, lhs.exponent⟩ := by
      simp [alignOperands, same]
    refine ⟨lhs.coefficient, rhs.coefficient, ?_, ?_, ?_, ?_, ?_⟩
    · rw [operands, abs_value]
      exact ⟨rfl, le_rfl, lt_add_one _, lhs.coefficient_lt.trans (by decide)⟩
    · rw [operands, abs_value, same]
      exact ⟨rfl, le_rfl, lt_add_one _, rhs.coefficient_lt.trans (by decide)⟩
    · rw [operands]
      exact .inl ⟨rfl, rfl, by simp [same]⟩
    · simp [operands]
    · simp [operands]
  · exact aligned_of_gt more

/-! ### Sums -/

theorem handle_finite {lhs rhs : Decimal} (finite : lhs.isFinite = true) (finite' : rhs.isFinite = true) :
    handle lhs rhs = .bothFinite := by
  rw [handle, finite, finite']
  rfl

/-- The 64-bit result is the sum of the signed coefficients. -/
theorem add_spec {lhs rhs : Decimal} (finite : lhs.isFinite = true) (finite' : rhs.isFinite = true)
    (left : (alignOperands lhs rhs).lhsCoefficient < 10 ^ 18)
    (right : (alignOperands lhs rhs).rhsCoefficient < 10 ^ 18) :
    ∃ sign result, add lhs rhs = encode sign (alignOperands lhs rhs).exponent result ∧
      Sign.factor sign * (result : ℚ) = Sign.factor lhs.sign * (alignOperands lhs rhs).lhsCoefficient +
        Sign.factor rhs.sign * (alignOperands lhs rhs).rhsCoefficient ∧
      result ≤ (alignOperands lhs rhs).lhsCoefficient + (alignOperands lhs rhs).rhsCoefficient := by
  rw [add, handle_finite finite finite']
  dsimp only
  generalize alignOperands lhs rhs = aligned at *
  obtain ⟨l, r, exponent⟩ := aligned
  dsimp only at *
  by_cases same : lhs.sign = rhs.sign
  · rw [if_pos same,
      if_neg (by rintro ⟨negative, positive, -⟩; rw [negative, positive] at same; cases same), signedResult,
        if_pos (by omega)]
    refine ⟨lhs.sign, l + r, rfl, ?_, le_rfl⟩
    rw [← same]
    push_cast
    ring
  · have opposite : Sign.factor rhs.sign = -Sign.factor lhs.sign := by
      cases left_eq : lhs.sign <;> cases right_eq : rhs.sign <;> simp_all [Sign.factor]
    rw [if_neg same, opposite]
    rcases le_or_gt r l with ge | less
    · have result_eq : (l + 2 ^ 64 - r) % 2 ^ 64 = l - r := by omega
      rw [result_eq]
      split
      · next zero =>
        refine ⟨.positive, 0, rfl, ?_, Nat.zero_le _⟩
        obtain rfl : l = r := by omega
        simp
      · refine ⟨lhs.sign, l - r, by rw [signedResult, if_pos (by omega)], ?_, by omega⟩
        rw [Nat.cast_sub ge]
        ring
    · have result_eq : (l + 2 ^ 64 - r) % 2 ^ 64 = 2 ^ 64 - (r - l) := by omega
      rw [result_eq, if_neg (by omega), signedResult, if_neg (by omega)]
      refine ⟨invertSign lhs.sign, r - l, by congr 1; omega, ?_, by omega⟩
      rw [factor_invertSign, Nat.cast_sub less.le]
      ring

/-- The sum of the truncated coefficients has the sign of the exact sum. -/
theorem Aligned.sign_eq {lhs rhs : Decimal} {lhsExact rhsExact : ℚ} (aligned : Aligned lhs rhs lhsExact rhsExact) :
    SignType.sign (Sign.factor lhs.sign * (alignOperands lhs rhs).lhsCoefficient +
      Sign.factor rhs.sign * (alignOperands lhs rhs).rhsCoefficient : ℚ) = SignType.sign (lhs.value + rhs.value) := by
  have scale : (0 : ℚ) < 10 ^ (alignOperands lhs rhs).exponent := zpow_pos (by norm_num) _
  have sum_eq : lhs.value + rhs.value = (Sign.factor lhs.sign * lhsExact + Sign.factor rhs.sign * rhsExact) *
      10 ^ (alignOperands lhs rhs).exponent := by
    rw [value_eq_factor_abs lhs, value_eq_factor_abs rhs, aligned.left.magnitude_eq, aligned.right.magnitude_eq]
    ring
  rw [sum_eq, sign_mul, sign_pos scale, mul_one]
  obtain ⟨-, left_le, left_lt, -⟩ := aligned.left
  obtain ⟨-, right_le, right_lt, -⟩ := aligned.right
  rcases aligned.dropped with ⟨left, right, -⟩ | ⟨left, large, small, -⟩ | ⟨right, large, small, -⟩
  · rw [← left, ← right]
  · -- the left operand decides
    have : (0 : ℚ) ≤ (alignOperands lhs rhs).rhsCoefficient := Nat.cast_nonneg _
    rw [← left]
    cases lhs.sign <;> cases rhs.sign <;> simp only [Sign.factor, one_mul, neg_one_mul]
    · rw [sign_pos (by linarith), sign_pos (by linarith)]
    · rw [sign_pos (by linarith), sign_pos (by linarith)]
    · rw [sign_neg (by linarith), sign_neg (by linarith)]
    · rw [sign_neg (by linarith), sign_neg (by linarith)]
  · have : (0 : ℚ) ≤ (alignOperands lhs rhs).lhsCoefficient := Nat.cast_nonneg _
    rw [← right]
    cases lhs.sign <;> cases rhs.sign <;> simp only [Sign.factor, one_mul, neg_one_mul]
    · rw [sign_pos (by linarith), sign_pos (by linarith)]
    · rw [sign_neg (by linarith), sign_neg (by linarith)]
    · rw [sign_pos (by linarith), sign_pos (by linarith)]
    · rw [sign_neg (by linarith), sign_neg (by linarith)]

theorem subtract_eq_add {lhs rhs : Decimal} (finite : lhs.isFinite = true) (finite' : rhs.isFinite = true) :
    subtract lhs rhs = add lhs rhs.negate ∧ rhs.negate.isFinite = true ∧ rhs.negate.value = -rhs.value := by
  have notNaN : ¬rhs.isNaN = true := by
    rcases (isFinite_iff rhs).mp finite' with class_eq | class_eq <;> simp [isNaN, class_eq]
  have negate_eq : rhs.negate = { rhs with sign := invertSign rhs.sign } := if_neg notNaN
  have finiteNegate : rhs.negate.isFinite = true := by
    rw [negate_eq]
    exact finite'
  refine ⟨?_, finiteNegate, ?_⟩
  · rw [subtract, handle_finite finite finite', add, handle_finite finite finiteNegate]
    have aligned_eq : alignOperands lhs rhs.negate = alignOperands lhs rhs := by
      rw [negate_eq]
      rfl
    have sign_eq : rhs.negate.sign = invertSign rhs.sign := by rw [negate_eq]
    dsimp only
    rw [aligned_eq, sign_eq]
    cases lhs.sign <;> cases rhs.sign <;> simp [invertSign]
  · rw [negate_eq, value, value, factor_invertSign]
    ring

theorem negate_fields : self.negate.coefficient = self.coefficient ∧ self.negate.exponent = self.exponent := by
  rw [negate]
  split <;> exact ⟨rfl, rfl⟩

/-! ### Comparisons -/

/-- The class and the sign of an encoded result, whether or not it overflows. -/
theorem encode_class (sign : Sign) {exponent : Int} (result : Nat)
    (inRange : exponentMin ≤ exponent ∧ exponent ≤ exponentMax) :
    (encode sign exponent result).isNaN = false ∧ ((encode sign exponent result).isZero = true ↔ result = 0) ∧
      (encode sign exponent result).sign = sign := by
  obtain ⟨count, least, small, sign_eq, finite, overflow⟩ := encode_spec sign result inRange
  have nonzero : result / 10 ^ count = 0 ↔ result = 0 := by
    rcases least with rfl | ⟨large, least⟩
    · simp
    · rw [maxCoefficient] at large
      omega
  rcases le_or_gt (exponent + count) exponentMax with fits | large
  · obtain ⟨isFinite, coefficient_eq, -⟩ := finite fits
    have normal := (encode sign exponent result).normal_iff
    rw [coefficient_eq, ne_eq, nonzero] at normal
    rw [isFinite_iff] at isFinite
    refine ⟨?_, ?_, sign_eq⟩
    · rcases isFinite with class_eq | class_eq <;> simp [isNaN, class_eq]
    · rcases isFinite with class_eq | class_eq <;> simp_all [isZero]
  · have nonzeroResult : result ≠ 0 := by
      rintro rfl
      rcases least with rfl | ⟨more, -⟩
      · simp at large
        omega
      · omega
    rw [overflow large]
    exact ⟨rfl, iff_of_false Bool.false_ne_true nonzeroResult, rfl⟩

/-- An infinite difference is replaced by one of the same sign. -/
theorem compareTo_of_subtract {lhs rhs : Decimal} (notNaN : (lhs.subtract rhs).isNaN = false) :
    (lhs.compareTo rhs).isNaN = false ∧ (lhs.compareTo rhs).isZero = (lhs.subtract rhs).isZero ∧
      ((lhs.subtract rhs).isZero = false → (lhs.compareTo rhs).sign = (lhs.subtract rhs).sign) := by
  unfold compareTo
  generalize lhs.subtract rhs = result at notNaN
  cases class_eq : result.formatClass with
  | infinity =>
    cases sign_eq : result.sign <;> simp [isNegative, sign_eq, isZero, class_eq] <;> decide
  | nan => simp [isNaN, class_eq] at notNaN
  | normal => simp [class_eq, notNaN]
  | zero => simp [isZero, class_eq, zero, special, isNaN]

/-- `compareTo` is never a NaN, and has the sign of the difference. -/
theorem compareTo_spec {lhs rhs : Decimal} (finite : lhs.isFinite = true) (finite' : rhs.isFinite = true) :
    (lhs.compareTo rhs).isNaN = false ∧ ((lhs.compareTo rhs).isZero = true ↔ lhs.value = rhs.value) ∧
      (lhs.value ≠ rhs.value → ((lhs.compareTo rhs).sign = .negative ↔ lhs.value < rhs.value)) := by
  obtain ⟨subtract_eq, finiteNegate, negate_value⟩ := subtract_eq_add finite finite'
  obtain ⟨lhsExact, rhsExact, aligned⟩ := exists_aligned lhs rhs.negate
  obtain ⟨sign, result, encoded, sum_eq, -⟩ :=
    add_spec finite finiteNegate aligned.left.coefficient_lt aligned.right.coefficient_lt
  have sign_eq := aligned.sign_eq
  rw [← sum_eq, negate_value, ← sub_eq_add_neg] at sign_eq
  have inRange : exponentMin ≤ (alignOperands lhs rhs.negate).exponent ∧
      (alignOperands lhs rhs.negate).exponent ≤ exponentMax :=
    ⟨(le_min lhs.exponent_le.1 rhs.negate.exponent_le.1).trans aligned.exponent_ge,
      aligned.exponent_le.trans (max_le lhs.exponent_le.2 rhs.negate.exponent_le.2)⟩
  obtain ⟨notNaN, zero_iff, encodedSign⟩ := encode_class sign result inRange
  rw [← encoded, ← subtract_eq] at notNaN zero_iff encodedSign
  obtain ⟨comparedNaN, comparedZero, comparedSign⟩ := compareTo_of_subtract notNaN
  have difference : lhs.value = rhs.value ↔ result = 0 := by
    rw [← sub_eq_zero, ← sign_eq_zero_iff, ← sign_eq, sign_eq_zero_iff, mul_eq_zero, Nat.cast_eq_zero,
      or_iff_right (factor_ne_zero sign)]
  refine ⟨comparedNaN, by rw [comparedZero, zero_iff, difference], fun different => ?_⟩
  have nonzero : result ≠ 0 := fun zero => different (difference.mpr zero)
  rw [comparedSign (Bool.eq_false_iff.mpr fun zero => nonzero (zero_iff.mp zero)), encodedSign, ← sub_neg,
    ← sign_eq_neg_one_iff, ← sign_eq, sign_eq_neg_one_iff]
  have positive : (0 : ℚ) < result := by exact_mod_cast Nat.pos_of_ne_zero nonzero
  cases sign with
  | positive => simp [Sign.factor]
  | negative => simpa [Sign.factor] using positive

/-- The six comparisons are those of the numbers. -/
structure ComparesExactly (lhs rhs : Decimal) : Prop where
  equal : lhs.equal rhs = decide (lhs.value = rhs.value)
  notEqual : lhs.notEqual rhs = decide (lhs.value ≠ rhs.value)
  less : lhs.less rhs = decide (lhs.value < rhs.value)
  lessEqual : lhs.lessEqual rhs = decide (lhs.value ≤ rhs.value)
  greater : lhs.greater rhs = decide (lhs.value > rhs.value)
  greaterEqual : lhs.greaterEqual rhs = decide (lhs.value ≥ rhs.value)

/-- Finite numbers are compared as the rational numbers they denote, although digits are dropped. -/
theorem comparesExactly (lhs rhs : Decimal) (finite : lhs.isFinite = true) (finite' : rhs.isFinite = true) :
    ComparesExactly lhs rhs := by
  obtain ⟨notNaN, zero_iff, negative_iff⟩ := compareTo_spec finite finite'
  by_cases same : lhs = rhs
  · subst same
    have zero := zero_iff.mpr rfl
    constructor <;> simp [equal, notEqual, less, lessEqual, greater, greaterEqual, zero, notNaN]
  · by_cases equals : lhs.value = rhs.value
    · have zero := zero_iff.mpr equals
      constructor <;> simp [equal, notEqual, less, lessEqual, greater, greaterEqual, zero, notNaN, equals, same]
    · have nonzero : (lhs.compareTo rhs).isZero = false := Bool.eq_false_iff.mpr fun zero => equals (zero_iff.mp zero)
      have sign_iff := negative_iff equals
      rcases lt_or_gt_of_ne equals with less' | greater'
      · have negative := sign_iff.mpr less'
        constructor <;>
          simp [equal, notEqual, less, lessEqual, greater, greaterEqual, isNegative, isPositive, nonzero, notNaN, same,
            equals, negative, less', less'.le, less'.not_gt, less'.not_ge]
      · have positive : (lhs.compareTo rhs).sign = .positive := by
          cases sign_eq : (lhs.compareTo rhs).sign with
          | positive => rfl
          | negative => exact absurd (sign_iff.mp sign_eq) greater'.not_gt
        constructor <;>
          simp [equal, notEqual, less, lessEqual, greater, greaterEqual, isNegative, isPositive, nonzero, notNaN, same,
            equals, positive, greater', greater'.le, greater'.not_gt, greater'.not_ge]

/-- Digits of the second number are dropped, and it is still smaller. -/
theorem comparesExactly_dropped :
    (encode .positive 2 10000000000000000).greater (encode .positive 0 99999999999999999) = true := by
  have exactly := comparesExactly (encode .positive 2 10000000000000000) (encode .positive 0 99999999999999999)
    (by decide) (by decide)
  rw [exactly.greater, encode_value _ (by decide) (by decide), encode_value _ (by decide) (by decide)]
  norm_num [Sign.factor]

end WebNode.Platform.Decimal
