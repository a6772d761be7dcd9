import WebNode.Platform.DecimalOrder

/-!
# Dividing decimal numbers

The quotient is found digit by digit. The bound on its size is only looked at after a digit that is
not zero, so that a run of zeros can push it out of 64 bits. The bound is fifteen nines, so that a quotient
that begins with them ends a digit early.
-/

namespace WebNode.Platform.Decimal

/-! ### The code -/

/-- The variables of the loop; `wrapped` records that a product left the 64 bits. -/
structure DivisionState where
  remainder : Nat
  result : Nat
  resultExponent : Int
  wrapped : Bool

/-- The inner loop. The remainder is not zero, so that 17 digits are enough. -/
def appendZeros (divisor : Nat) : Nat → DivisionState → DivisionState
  | 0, state => state
  | fuel + 1, state =>
    if state.remainder < divisor then
      appendZeros divisor fuel
        { remainder := state.remainder * 10 % 2 ^ 64
          result := state.result * 10 % 2 ^ 64
          resultExponent := state.resultExponent - 1
          wrapped := state.wrapped || decide (2 ^ 64 ≤ state.remainder * 10) || decide (2 ^ 64 ≤ state.result * 10) }
    else state

/-- One round of the outer loop. -/
def appendDigit (divisor : Nat) (state : DivisionState) : DivisionState :=
  let state := appendZeros divisor 17 state
  { state with
    result := (state.result + state.remainder / divisor) % 2 ^ 64
    remainder := state.remainder % divisor }

/-- The outer loop, for some number of rounds. -/
def divideLoop (divisor : Nat) : Nat → DivisionState → Option DivisionState
  | 0, _ => none
  | rounds + 1, state =>
    if state.result < maxCoefficient / 100 then
      let state := appendDigit divisor state
      if state.remainder = 0 then some state else divideLoop divisor rounds state
    else some state

/-- The loop on the coefficients of two numbers. -/
def quotient (rounds : Nat) (lhs rhs : Decimal) : Option DivisionState :=
  divideLoop rhs.coefficient rounds ⟨lhs.coefficient, 0, lhs.exponent - rhs.exponent, false⟩

/-- `operator/` -/
def divide (rounds : Nat) (lhs rhs : Decimal) : Option Decimal :=
  let resultSign := if lhs.sign = rhs.sign then .positive else .negative
  match handle lhs rhs with
  | .bothFinite =>
    if rhs.isZero then if lhs.isZero then some nan else some (infinity resultSign)
    else if lhs.isZero then some (encode resultSign (lhs.exponent - rhs.exponent) 0)
    else do
      let state ← quotient rounds lhs rhs
      let result := if state.remainder > rhs.coefficient / 2 then (state.result + 1) % 2 ^ 64 else state.result
      return encode resultSign state.resultExponent result
  | .bothInfinity => some nan
  | .eitherNaN value => some value
  | .lhsIsInfinity => some (infinity resultSign)
  | .rhsIsInfinity => some (zero resultSign)

/-! ### Digits of a quotient -/

section Digits

variable {c d : Nat} {exponent : Int} {j t : Nat} {state : DivisionState}

/-- After `j` digits behind the point, what was found of the quotient of `c` and `d` is `t`. -/
structure Expanded (c d : Nat) (exponent : Int) (j t : Nat) (state : DivisionState) : Prop where
  result : state.result = t % 2 ^ 64
  split : c * 10 ^ j = t * d + state.remainder
  resultExponent : state.resultExponent = exponent - j
  wrapped : state.wrapped = true → 2 ^ 64 ≤ t

theorem Expanded.quotient_eq (expanded : Expanded c d exponent j t state) (small : state.remainder < d) :
    c * 10 ^ j / d = t := by
  rw [expanded.split, mul_comm t, Nat.mul_add_div (Nat.zero_lt_of_lt small), Nat.div_eq_of_lt small, add_zero]

theorem Expanded.dvd_iff (expanded : Expanded c d exponent j t state) (small : state.remainder < d) :
    d ∣ c * 10 ^ j ↔ state.remainder = 0 := by
  rw [expanded.split, Nat.dvd_iff_mod_eq_zero, Nat.mul_add_mod_self_right, Nat.mod_eq_of_lt small]

theorem appendZeros_spec (d_lt : d < 10 ^ 17) (fuel : Nat) (enough : d ≤ state.remainder * 10 ^ fuel)
    (expanded : Expanded c d exponent j t state) :
    ∃ n, Expanded c d exponent (j + n) (t * 10 ^ n)
      (appendZeros d fuel state) ∧ d ≤ (appendZeros d fuel state).remainder ∧
      (n = 0 ∨ (appendZeros d fuel state).remainder < d * 10) ∧ (state.remainder < d → n ≠ 0) ∧
      ∀ i < n, state.remainder * 10 ^ i < d := by
  induction fuel generalizing state j t with
  | zero =>
    rw [appendZeros]
    refine ⟨0,
      by simpa using expanded, by simpa using enough, .inl rfl, fun less => ?_,
        fun i less => absurd less (Nat.not_lt_zero i)⟩
    rw [pow_zero, mul_one] at enough
    omega
  | succ fuel ih =>
    rw [appendZeros]
    split
    · next less =>
      have fits : state.remainder * 10 < 2 ^ 64 := by omega
      rw [Nat.mod_eq_of_lt fits]
      have step : Expanded c d exponent (j + 1) (t * 10)
          { remainder := state.remainder * 10, result := state.result * 10 % 2 ^ 64,
            resultExponent := state.resultExponent - 1,
            wrapped :=
              state.wrapped || decide (2 ^ 64 ≤ state.remainder * 10) || decide (2 ^ 64 ≤ state.result * 10) } := by
        refine ⟨?_, ?_, ?_, ?_⟩
        · rw [expanded.result, Nat.mod_mul_mod]
        · rw [pow_succ, ← mul_assoc, expanded.split]
          ring
        · have := expanded.resultExponent
          push_cast
          omega
        · intro wrapped
          simp only [Bool.or_eq_true, decide_eq_true_eq, not_le.mpr fits, or_false] at wrapped
          have before := expanded.wrapped
          have result_le := expanded.result.trans_le (Nat.mod_le t (2 ^ 64))
          rcases wrapped with wrapped | wrapped
          · have := before wrapped
            omega
          · omega
      obtain ⟨n, reached, least, bound, -, small⟩ := ih (by rwa [mul_assoc, ← pow_succ']) step
      refine ⟨n + 1, ?_, least, .inr ?_, fun _ => Nat.succ_ne_zero n, fun i inside => ?_⟩
      · rw [pow_succ', ← mul_assoc, ← add_assoc, add_right_comm]
        exact reached
      · rcases bound with rfl | bound
        · have same := reached.split
          rw [add_zero, pow_zero, mul_one, step.split] at same
          dsimp only at same
          omega
        · exact bound
      · cases i with
        | zero => simpa using less
        | succ i =>
          rw [pow_succ', ← mul_assoc]
          exact small i (by omega)
    · next more =>
      exact ⟨0,
        by simpa using expanded, not_lt.mp more, .inl rfl, fun less => absurd less more,
          fun i less => absurd less (Nat.not_lt_zero i)⟩

/-- A round goes on to the next digit that is not zero. -/
theorem appendDigit_spec (d_pos : 0 < d) (d_lt : d < 10 ^ 17) (nonzero : 0 < state.remainder)
    (expanded : Expanded c d exponent j t state) :
    ∃ n next, Expanded c d exponent (j + n) next (appendDigit d state) ∧ (appendDigit d state).remainder < d ∧
      (n ≠ 0 ↔ state.remainder < d) ∧ (n ≠ 0 → next % 10 ≠ 0) ∧ ∀ i, 0 < i → i < n → c * 10 ^ (j + i) / d % 10 = 0 := by
  have enough : d ≤ state.remainder * 10 ^ 17 := by omega
  obtain ⟨n, reached, least, bound, moved, small⟩ := appendZeros_spec d_lt 17 enough expanded
  refine ⟨n, t * 10 ^ n + (appendZeros d 17 state).remainder / d, ⟨?_, ?_, reached.resultExponent, fun wrapped => ?_⟩,
    Nat.mod_lt _ d_pos, ⟨fun some => by simpa using small 0 (Nat.pos_of_ne_zero some), moved⟩, fun some => ?_,
    fun i positive inside => ?_⟩
  · simp only [appendDigit, reached.result, Nat.mod_add_mod]
  · simp only [appendDigit]
    rw [reached.split, add_mul, add_assoc, mul_comm ((appendZeros d 17 state).remainder / d), Nat.div_add_mod]
  · exact (reached.wrapped wrapped).trans (Nat.le_add_right _ _)
  · have digit : 0 < (appendZeros d 17 state).remainder / d := Nat.div_pos least d_pos
    have digit_lt : (appendZeros d 17 state).remainder / d < 10 := Nat.div_lt_of_lt_mul (bound.resolve_left some)
    obtain ⟨m, rfl⟩ := Nat.exists_eq_succ_of_ne_zero some
    rw [pow_succ, ← mul_assoc]
    omega
  · obtain ⟨m, rfl⟩ := Nat.exists_eq_succ_of_ne_zero (Nat.pos_iff_ne_zero.mp positive)
    have split : c * 10 ^ (j + (m + 1)) = d * (t * 10 ^ (m + 1)) + state.remainder * 10 ^ (m + 1) := by
      rw [pow_add, ← mul_assoc, expanded.split]
      ring
    rw [split, Nat.mul_add_div d_pos, Nat.div_eq_of_lt (small _ inside), add_zero, pow_succ, ← mul_assoc]
    omega

/-- Where the loop looks at the bound and can stop: behind a digit that is not zero. -/
def Stops (c d j : Nat) : Prop :=
  (maxCoefficient / 100 ≤ c * 10 ^ j / d ∨ d ∣ c * 10 ^ j) ∧ (j = 0 ∨ c * 10 ^ j / d % 10 ≠ 0)

/-- Between two rounds. -/
structure BetweenRounds (c d : Nat) (exponent : Int) (j t : Nat) (state : DivisionState) :
    Prop extends Expanded c d exponent j t state where
  remainder_lt : state.remainder < d
  digit : j = 0 ∨ t % 10 ≠ 0

/-- What the loop ends with. -/
theorem divideLoop_spec (d_pos : 0 < d) (d_lt : d < 10 ^ 17) (rounds : Nat) {final : DivisionState}
    (nonzero : 0 < state.remainder) (start : Expanded c d exponent j t state)
    (first : j = 0 ∧ state.result = 0 ∨ BetweenRounds c d exponent j t state)
    (run : divideLoop d rounds state = some final) :
    ∃ j t, BetweenRounds c d exponent j t final ∧ (maxCoefficient / 100 ≤ final.result ∨ final.remainder = 0) := by
  induction rounds generalizing state j t with
  | zero => cases run
  | succ rounds ih =>
    rw [divideLoop] at run
    split at run
    · obtain ⟨n, next, reached, small, moved, digit, -⟩ := appendDigit_spec d_pos d_lt nonzero start
      have between : BetweenRounds c d exponent (j + n) next (appendDigit d state) := by
        refine ⟨reached, small, ?_⟩
        by_cases none : n = 0
        · rcases first with ⟨rfl, -⟩ | before
          · exact .inl (by omega)
          · exact absurd none (moved.mpr before.remainder_lt)
        · exact .inr (digit none)
      dsimp only at run
      split at run
      · next done =>
        obtain rfl := Option.some.inj run
        exact ⟨_, _, between, .inr done⟩
      · next more => exact ih (Nat.pos_of_ne_zero more) reached (.inr between) run
    · next large =>
      obtain rfl := Option.some.inj run
      rcases first with ⟨-, zero⟩ | before
      · rw [zero, maxCoefficient] at large
        omega
      · exact ⟨_, _, before, .inl (not_lt.mp large)⟩

/-- The loop does not go past a place where it stops, if the quotient has 64 bits there. -/
theorem divideLoop_reaches (d_pos : 0 < d) (d_lt : d < 10 ^ 17) {stop : Nat} (stops : Stops c d stop)
    (fits : c * 10 ^ stop / d < 2 ^ 64) (rounds : Nat) (nonzero : 0 < state.remainder)
    (start : Expanded c d exponent j t state) (le : j ≤ stop)
    (first : j = 0 ∧ stop + 2 < rounds + j ∨ BetweenRounds c d exponent j t state ∧ stop + 1 < rounds + j) :
    ∃ final j t, divideLoop d rounds state = some final ∧ Expanded c d exponent j t final ∧ j ≤ stop := by
  induction rounds generalizing state j t with
  | zero => omega
  | succ rounds ih =>
    rw [divideLoop]
    split
    · next small =>
      obtain ⟨n, next, reached, remainder_lt, moved, digit, zeros⟩ := appendDigit_spec d_pos d_lt nonzero start
      have notPast : j + n ≤ stop := by
        by_contra past
        have some : n ≠ 0 := by omega
        have quotient_eq := start.quotient_eq (moved.mp some)
        rcases Nat.eq_or_lt_of_le le with rfl | before
        · rcases stops.1 with large | divides
          · rw [start.result, Nat.mod_eq_of_lt (quotient_eq ▸ fits), ← quotient_eq] at small
            omega
          · exact absurd ((start.dvd_iff (moved.mp some)).mp divides) (Nat.pos_iff_ne_zero.mp nonzero)
        · have zero := zeros (stop - j) (by omega) (by omega)
          rw [Nat.add_sub_cancel' le] at zero
          exact (stops.2.resolve_left (by omega)) zero
      dsimp only
      split
      · exact ⟨_, _, _, rfl, reached, notPast⟩
      · next more =>
        refine ih (Nat.pos_of_ne_zero more) reached notPast (.inr ⟨⟨reached, remainder_lt, ?_⟩, ?_⟩)
        · by_cases none : n = 0
          · rcases first with ⟨rfl, -⟩ | ⟨between, -⟩
            · exact .inl (by omega)
            · exact absurd none (moved.mpr between.remainder_lt)
          · exact .inr (digit none)
        · rcases first with ⟨rfl, enough⟩ | ⟨between, enough⟩
          · omega
          · have := moved.mpr between.remainder_lt
            omega
    · exact ⟨_, _, _, rfl, start, le⟩

/-- More rounds do not change the outcome. -/
theorem divideLoop_mono {rounds more : Nat} {final : DivisionState} (le : rounds ≤ more)
    (run : divideLoop d rounds state = some final) :
    divideLoop d more state = some final := by
  induction rounds generalizing state more with
  | zero => cases run
  | succ rounds ih =>
    obtain ⟨more, rfl⟩ : ∃ m, more = m + 1 := ⟨more - 1, by omega⟩
    rw [divideLoop] at run ⊢
    split at run
    · next small =>
      rw [if_pos small]
      dsimp only at run ⊢
      split at run
      · next done => rwa [if_pos done]
      · next again =>
        rw [if_neg again]
        exact ih (by omega) run
    · next large => rwa [if_neg large]

end Digits

/-! ### Accuracy -/

/-- At most one unit of the sixteenth significant digit is missed. -/
def AccurateTo16 (value exact : ℚ) : Prop :=
  ∀ unit : ℤ, 10 ^ (unit + 15) ≤ |exact| → |exact| < 10 ^ (unit + 16) → |value - exact| ≤ 10 ^ unit

/-- Division returns, no product of the loop wraps, and the result is accurate; it is exact for a quotient
of 16 digits. -/
structure DividesAccurately (lhs rhs : Decimal) : Prop where
  fits : lhs.isZero = false → ∀ rounds state, quotient rounds lhs rhs = some state → state.wrapped = false
  accurate : ∃ result enough, (∀ rounds ≥ enough, divide rounds lhs rhs = some result) ∧ result.isFinite = true ∧
    AccurateTo16 result.value (lhs.value / rhs.value) ∧
    ∀ significand exponent : ℤ, |significand| < 10 ^ 16 → lhs.value / rhs.value = significand * 10 ^ exponent →
      result.value = lhs.value / rhs.value

/-- The first digits of the quotient, rounded as the code does. -/
def roundedQuotient (c d j : Nat) : Nat := c * 10 ^ j / d + if c * 10 ^ j % d > d / 2 then 1 else 0

/-- Once the bound is reached, a digit other than zero comes before 64 bits are full. -/
def DigitInTime (c d : Nat) : Prop := c = 0 ∨ ∃ j, Stops c d j ∧ roundedQuotient c d j < 2 ^ 64

/-- The first 15 digits are the bound itself, and neither they nor their successor are nearer than a tenth. -/
def StopsShort (c d : Nat) : Prop :=
  ∃ j, c * 10 ^ j / d = maxCoefficient / 100 ∧ d ≤ c * 10 ^ j % d * 10 ∧ c * 10 ^ j % d * 10 ≤ d * 9

section Accuracy

variable {scaled : ℚ} {rounded : Nat} {w : ℤ}

theorem abs_exact (sign : Sign) (nonneg : 0 ≤ scaled) : |Sign.factor sign * scaled * 10 ^ w| = scaled * 10 ^ w := by
  rw [abs_mul, abs_mul, factor_abs, one_mul, abs_of_nonneg nonneg, abs_of_pos (zpow_pos (by norm_num) _)]

theorem abs_error (sign : Sign) (kept : ℚ) :
    |Sign.factor sign * kept * 10 ^ w - Sign.factor sign * scaled * 10 ^ w| = |kept - scaled| * 10 ^ w := by
  rw [← sub_mul, ← mul_sub, abs_mul, abs_mul, factor_abs, one_mul, abs_of_pos (ten_zpow_pos w)]

/-- What is missed is compared with a power of ten that has 16 digits less than the number. -/
theorem accurate_of_error (sign : Sign) {kept : ℚ} (power : ℤ) (large : 10 ^ (power + 15) ≤ scaled)
    (error : |kept - scaled| ≤ 10 ^ power) :
    AccurateTo16 (Sign.factor sign * kept * 10 ^ w) (Sign.factor sign * scaled * 10 ^ w) := by
  intro unit _ below
  have scale := ten_zpow_pos w
  rw [abs_exact sign ((ten_zpow_pos _).le.trans large)] at below
  have unit_ge : power + w ≤ unit := by
    have : (10 : ℚ) ^ (power + 15 + w) < 10 ^ (unit + 16) := by
      rw [zpow_add₀ (by norm_num)]
      exact (mul_le_mul_of_nonneg_right large scale.le).trans_lt below
    have := (zpow_lt_zpow_iff_right₀ (by norm_num)).mp this
    omega
  calc |Sign.factor sign * kept * 10 ^ w - Sign.factor sign * scaled * 10 ^ w| = |kept - scaled| * 10 ^ w :=
    abs_error sign kept
    _ ≤ 10 ^ power * 10 ^ w := mul_le_mul_of_nonneg_right error scale.le
    _ = 10 ^ (power + w) := (zpow_add₀ (by norm_num) _ _).symm
    _ ≤ 10 ^ unit := zpow_le_zpow_right₀ (by norm_num) unit_ge

/-- A quotient of 16 digits or more that is rounded and cut off. -/
theorem accurate_of_near (sign : Sign) (inRange : exponentMin ≤ w ∧ w + 3 ≤ exponentMax) (fits : rounded < 2 ^ 64)
    (near : |(rounded : ℚ) - scaled| ≤ 1) (large : 10 ^ 15 ≤ scaled) :
    AccurateTo16 (encode sign w rounded).value (Sign.factor sign * scaled * 10 ^ w) := by
  obtain ⟨count, least, -, -, value_eq⟩ := encode_cut sign inRange fits
  have power : (1 : ℚ) ≤ 10 ^ count := one_le_pow₀ (by norm_num)
  have lower : ((rounded / 10 ^ count : Nat) * 10 ^ count : ℚ) ≤ rounded := by exact_mod_cast Nat.div_mul_le_self _ _
  have upper : (rounded + 1 : ℚ) ≤ ((rounded / 10 ^ count : Nat) + 1) * 10 ^ count := by
    have := (div_lt_iff₀ (by positivity)).mp (div_bounds rounded count).2
    exact_mod_cast this
  obtain ⟨above, under⟩ := abs_le.mp near
  rw [value_eq]
  refine accurate_of_error sign count ?_ ?_
  · rw [zpow_add₀ (by norm_num), zpow_natCast]
    rcases least with rfl | least
    · simpa using large
    · have digits : ((10 ^ 16 : Nat) : ℚ) ≤ (rounded / 10 ^ count : Nat) := by exact_mod_cast least
      have := mul_le_mul_of_nonneg_right digits (show (0 : ℚ) ≤ 10 ^ count by positivity)
      push_cast at this
      norm_num
      linarith
  · rw [zpow_natCast, abs_le]
    constructor <;> linarith

/-- A result that lost a multiple of `2^64` is not accurate. -/
theorem not_accurate_of_wrapped (sign : Sign) (inRange : w + 3 ≤ exponentMax) (near : |(rounded : ℚ) - scaled| ≤ 1)
    (large : 2 ^ 64 ≤ rounded) :
    ¬AccurateTo16 (encode sign w (rounded % 2 ^ 64)).value (Sign.factor sign * scaled * 10 ^ w) := by
  intro accurate
  obtain ⟨kept, kept_le, value_eq⟩ : ∃ kept : ℚ, kept ≤ (rounded % 2 ^ 64 : Nat) ∧
      (encode sign w (rounded % 2 ^ 64)).value = Sign.factor sign * kept * 10 ^ w := by
    by_cases below : w < exponentMin
    · have encoded : encode sign w (rounded % 2 ^ 64) = zero sign := by
        rw [encode, if_neg (by omega), if_neg (by omega)]
      exact ⟨0, Nat.cast_nonneg _, by rw [encoded, value_zero, mul_zero, zero_mul]⟩
    · obtain ⟨count, -, -, -, value_eq⟩ :=
        encode_cut sign ⟨not_lt.mp below, inRange⟩ (Nat.mod_lt rounded (by decide : 0 < 2 ^ 64))
      exact ⟨_, by exact_mod_cast Nat.div_mul_le_self (rounded % 2 ^ 64) (10 ^ count), value_eq⟩
  have scale : (0 : ℚ) < 10 ^ w := zpow_pos (by norm_num) _
  obtain ⟨above, under⟩ := abs_le.mp near
  have bound : (2 ^ 64 : ℚ) ≤ rounded := by exact_mod_cast large
  have positive : 0 < scaled * 10 ^ w := mul_pos (by linarith) scale
  obtain ⟨digits, lower, upper⟩ := exists_mem_Ico_zpow positive (show (1 : ℚ) < 10 by norm_num)
  have error := accurate (digits - 15)
  rw [abs_exact sign (by linarith), sub_add_cancel, show digits - 15 + 16 = digits + 1 by ring, value_eq, abs_error]
    at error
  have small : |kept - scaled| * 10 ^ 15 ≤ scaled := by
    have unit : (10 : ℚ) ^ (digits - 15) * 10 ^ 15 = 10 ^ digits := by
      rw [← zpow_natCast, ← zpow_add₀ (by norm_num)]
      norm_num
    have := mul_le_mul_of_nonneg_right (error lower upper) (show (0 : ℚ) ≤ 10 ^ 15 by norm_num)
    rw [unit] at this
    refine le_of_mul_le_mul_right ?_ scale
    linarith
  have half : (rounded % 2 ^ 64 : Nat) * 2 ≤ rounded := by omega
  have half' : ((rounded % 2 ^ 64 : Nat) : ℚ) * 2 ≤ rounded := by exact_mod_cast half
  have missed := neg_abs_le (kept - scaled)
  generalize ((rounded % 2 ^ 64 : Nat) : ℚ) = wrapped at kept_le half'
  linarith

/-- If either rounding of fifteen nines is accurate, the quotient has 16 digits and is missed. -/
theorem inexact_of_short (sign : Sign) {fraction : ℚ} (little : 1 / 10 ≤ fraction) (much : fraction ≤ 9 / 10)
    (rounded_eq : rounded = 999999999999999 ∨ rounded = 1000000000000000)
    (scaled_eq : scaled = 999999999999999 + fraction)
    (accurate : AccurateTo16 (Sign.factor sign * rounded * 10 ^ w) (Sign.factor sign * scaled * 10 ^ w)) :
    ∃ significand exponent :
      ℤ, |significand| < 10 ^ 16 ∧ Sign.factor sign * scaled * 10 ^ w = significand * 10 ^ exponent ∧
      Sign.factor sign * rounded * 10 ^ w ≠ Sign.factor sign * scaled * 10 ^ w := by
  have scale := ten_zpow_pos w
  have tenth : (10 : ℚ) ^ w = 10 * 10 ^ (w - 1) := by rw [← zpow_one_add₀ (by norm_num), add_sub_cancel]
  have error := accurate (w - 1)
  rw [abs_exact sign (by linarith), abs_error, show w - 1 + 15 = 14 + w by ring, show w - 1 + 16 = 15 + w by ring,
    zpow_add₀ (by norm_num), zpow_add₀ (by norm_num)] at error
  have near : |rounded - scaled| ≤ 10⁻¹ := by
    have := error (mul_le_mul_of_nonneg_right (by norm_num; linarith) scale.le)
      (mul_lt_mul_of_pos_right (by norm_num; linarith) scale)
    rw [zpow_sub_one₀ (by norm_num), mul_comm] at this
    exact le_of_mul_le_mul_left this scale
  obtain ⟨above, under⟩ := abs_le.mp near
  obtain ⟨digits, few, digits_eq⟩ : ∃ digits : ℤ, |digits| < 10 ^ 16 ∧ scaled * 10 = digits := by
    rcases rounded_eq with rfl | rfl
    · exact ⟨9999999999999991, by norm_num, by push_cast at *; linarith⟩
    · exact ⟨9999999999999999, by norm_num, by push_cast at *; linarith⟩
  refine ⟨if sign = .positive then digits else -digits, w - 1, ?_, ?_, fun same => ?_⟩
  · split
    · exact few
    · rwa [abs_neg]
  · rw [tenth]
    cases sign <;> simp [Sign.factor, ← digits_eq] <;> ring
  · have factor : Sign.factor sign ≠ 0 := by cases sign <;> simp [Sign.factor]
    have equal := mul_left_cancel₀ factor (mul_right_cancel₀ scale.ne' same)
    rcases rounded_eq with rfl | rfl <;> push_cast at equal <;> linarith

end Accuracy

section Quotients

variable {lhs rhs : Decimal} (finite : lhs.isFinite = true) (finite' : rhs.isFinite = true)

theorem isZero_iff {self : Decimal} (finite : self.isFinite = true) : self.isZero = true ↔ self.coefficient = 0 := by
  have normal := self.normal_iff
  rcases (isFinite_iff self).mp finite with class_eq | class_eq <;> simp_all [isZero]

theorem value_div (j : Nat) :
    lhs.value / rhs.value = Sign.factor (if lhs.sign = rhs.sign then .positive else .negative) *
    (lhs.coefficient * 10 ^ j / rhs.coefficient) * 10 ^ (lhs.exponent - rhs.exponent - j) := by
  rw [value, value, zpow_sub₀ (by norm_num), zpow_sub₀ (by norm_num), zpow_natCast]
  cases lhs.sign <;> cases rhs.sign <;> simp [Sign.factor] <;> field_simp

variable {j t : Nat} {final : DivisionState}
  (between : BetweenRounds lhs.coefficient rhs.coefficient (lhs.exponent - rhs.exponent) j t final)

include between

theorem roundedQuotient_eq :
    roundedQuotient lhs.coefficient rhs.coefficient j = t + if final.remainder > rhs.coefficient / 2 then 1 else 0 := by
  rw [roundedQuotient, between.quotient_eq between.remainder_lt, between.split, Nat.mul_add_mod_self_right,
    Nat.mod_eq_of_lt between.remainder_lt]

/-- The quotient in units of the last digit found. -/
theorem scaled_eq : (lhs.coefficient * 10 ^ j / rhs.coefficient : ℚ) = t + final.remainder / rhs.coefficient := by
  have positive : (0 : ℚ) < rhs.coefficient := by exact_mod_cast Nat.zero_lt_of_lt between.remainder_lt
  have split : (lhs.coefficient * 10 ^ j : ℚ) = t * rhs.coefficient + final.remainder := by exact_mod_cast between.split
  rw [split, add_div, mul_div_cancel_right₀ _ positive.ne']

theorem fraction_bounds :
    0 ≤ (final.remainder / rhs.coefficient : ℚ) ∧ (final.remainder / rhs.coefficient : ℚ) < 1 := by
  have positive : (0 : ℚ) < rhs.coefficient := by exact_mod_cast Nat.zero_lt_of_lt between.remainder_lt
  exact ⟨by positivity, (div_lt_one positive).mpr (by exact_mod_cast between.remainder_lt)⟩

theorem rounded_near :
    |(roundedQuotient lhs.coefficient rhs.coefficient j : ℚ) - lhs.coefficient * 10 ^ j / rhs.coefficient| ≤ 1 := by
  have bounds := fraction_bounds between
  rw [roundedQuotient_eq between, scaled_eq between, abs_le]
  split <;> push_cast <;> constructor <;> linarith

include finite finite'

theorem divide_eq {rounds : Nat} (nonzero : lhs.isZero = false) (nonzero' : rhs.isZero = false)
    (run : quotient rounds lhs rhs = some final) : divide rounds lhs rhs =
      some (encode (if lhs.sign = rhs.sign then .positive else .negative) (lhs.exponent - rhs.exponent - j)
        (roundedQuotient lhs.coefficient rhs.coefficient j % 2 ^ 64)) := by
  rw [divide, handle_finite finite finite']
  simp only [nonzero, nonzero', Bool.false_eq_true, if_false, run, roundedQuotient_eq between]
  show some _ = some _
  congr 2
  · exact between.resultExponent
  · rw [between.result]
    split
    · rw [Nat.mod_add_mod]
    · rfl

end Quotients

theorem expanded_start (c d : Nat) (exponent : Int) : Expanded c d exponent 0 0 ⟨c, 0, exponent, false⟩ :=
  ⟨rfl, by simp, by simp, nofun⟩

theorem quotient_mul_ten_le {c d j stop : Nat} (less : j < stop) : c * 10 ^ j / d * 10 ≤ c * 10 ^ stop / d := by
  rcases Nat.eq_zero_or_pos d with rfl | positive
  · simp
  · rw [Nat.le_div_iff_mul_le positive]
    calc c * 10 ^ j / d * 10 * d = c * 10 ^ j / d * d * 10 := by ring
      _ ≤ c * 10 ^ j * 10 := Nat.mul_le_mul_right _ (Nat.div_mul_le_self _ _)
      _ = c * 10 ^ (j + 1) := by rw [mul_assoc, ← pow_succ]
      _ ≤ c * 10 ^ stop := Nat.mul_le_mul_left _ (Nat.pow_le_pow_right (by decide) less)

section Outcome

variable {lhs rhs : Decimal} {j t : Nat} {final : DivisionState}
  (between : BetweenRounds lhs.coefficient rhs.coefficient (lhs.exponent - rhs.exponent) j t final)
  (stopped : maxCoefficient / 100 ≤ t ∨ final.remainder = 0)
  (fits : roundedQuotient lhs.coefficient rhs.coefficient j < 2 ^ 64)
    (inRange : exponentMin ≤ lhs.exponent - rhs.exponent - j ∧ lhs.exponent - rhs.exponent - j + 3 ≤ exponentMax)

include between

theorem digits_lt (positive : 0 < lhs.coefficient) (small : t < 2 ^ 64) : j < 38 := by
  by_contra many
  have power : 10 ^ 38 ≤ 10 ^ j := Nat.pow_le_pow_right (by decide) (by omega)
  have := rhs.coefficient_lt
  have product : t * rhs.coefficient ≤ 2 ^ 64 * 10 ^ 17 := Nat.mul_le_mul small.le this.le
  have := between.split
  have := Nat.le_mul_of_pos_left (10 ^ j) positive
  have := between.remainder_lt
  omega

/-- Without a remainder the digits found are the quotient. -/
theorem rounded_eq_scaled (none : final.remainder = 0) :
    (roundedQuotient lhs.coefficient rhs.coefficient j : ℚ) = lhs.coefficient * 10 ^ j / rhs.coefficient := by
  rw [roundedQuotient_eq between, scaled_eq between, none, if_neg (Nat.not_lt_zero _)]
  simp

omit between in
/-- Of a quotient with at most 16 digits, at most so many are behind those that were found as are missing. -/
theorem remainder_dvd {d t remainder significand : Nat} {exponent : ℤ} (positive : 0 < d) (few : significand < 10 ^ 16)
    (magnitude : (t + remainder / d : ℚ) = significand * 10 ^ exponent) (missing : Nat)
    (large : 10 ^ 15 ≤ t * 10 ^ missing) :
    d ∣ remainder * 10 ^ missing := by
  have shifted : (t + remainder / d : ℚ) * 10 ^ missing = significand * 10 ^ (exponent + missing) := by
    rw [magnitude, zpow_add₀ (by norm_num), zpow_natCast, mul_assoc]
  have nonneg : 0 ≤ exponent + missing := by
    by_contra negative
    have tenth : (10 : ℚ) ^ (exponent + missing) ≤ 10 ^ (-1 : ℤ) := zpow_le_zpow_right₀ (by norm_num) (by omega)
    have := mul_le_mul_of_nonneg_left tenth (Nat.cast_nonneg (α := ℚ) significand)
    have large' : (10 ^ 15 : ℚ) ≤ t * 10 ^ missing := by exact_mod_cast large
    have few' : (significand : ℚ) < 10 ^ 16 := by exact_mod_cast few
    have : (0 : ℚ) ≤ remainder / d * 10 ^ missing := by positivity
    rw [zpow_neg_one] at *
    linarith
  obtain ⟨zeros, zeros_eq⟩ := Int.eq_ofNat_of_zero_le nonneg
  have divisor : (d : ℚ) ≠ 0 := by exact_mod_cast positive.ne'
  rw [zeros_eq, zpow_natCast] at shifted
  field_simp at shifted
  have whole : (t * 10 ^ missing) * d + remainder * 10 ^ missing = significand * 10 ^ zeros * d := by
    have : ((t * 10 ^ missing * d + remainder * 10 ^ missing : Nat) : ℚ) = (significand * 10 ^ zeros * d : Nat) := by
      push_cast
      linarith
    exact_mod_cast this
  exact (Nat.dvd_add_right (Nat.dvd_mul_left d _)).mp (whole ▸ Nat.dvd_mul_left d _)

/-- Fifteen nines are followed by almost nothing, or by almost one. -/
theorem fraction_of_not_short (complete : ¬StopsShort lhs.coefficient rhs.coefficient)
    (bound : t = maxCoefficient / 100) :
    final.remainder * 10 < rhs.coefficient ∨ rhs.coefficient * 9 < final.remainder * 10 := by
  by_contra! short
  refine complete ⟨j, (between.quotient_eq between.remainder_lt).trans bound, ?_⟩
  rw [between.split, Nat.mul_add_mod_self_right, Nat.mod_eq_of_lt between.remainder_lt]
  exact short

include stopped fits inRange

theorem outcome_accurate (complete : ¬StopsShort lhs.coefficient rhs.coefficient) :
    AccurateTo16 (encode (if lhs.sign = rhs.sign then .positive else .negative)
      (lhs.exponent - rhs.exponent - j)
      (roundedQuotient lhs.coefficient rhs.coefficient j)).value (lhs.value / rhs.value) := by
  have bounds := fraction_bounds between
  rw [value_div j]
  rcases le_or_gt (10 ^ 15) t with large | less
  · refine accurate_of_near _ inRange fits (rounded_near between) ?_
    have bound : ((10 ^ 15 : Nat) : ℚ) ≤ t := by exact_mod_cast large
    rw [scaled_eq between]
    push_cast at bound
    linarith
  have small : roundedQuotient lhs.coefficient rhs.coefficient j ≤ maxCoefficient := by
    rw [roundedQuotient_eq between, maxCoefficient]
    split <;> omega
  rw [encode_value _ ⟨inRange.1, by omega⟩ small]
  by_cases none : final.remainder = 0
  · rw [rounded_eq_scaled between none]
    intro unit _ _
    rw [sub_self, abs_zero]
    exact (ten_zpow_pos _).le
  · have bound : t = maxCoefficient / 100 := by
      have := stopped.resolve_right none
      rw [maxCoefficient] at this ⊢
      omega
    have positive : (0 : ℚ) < rhs.coefficient := by exact_mod_cast Nat.zero_lt_of_lt between.remainder_lt
    refine accurate_of_error _ (-1) ?_ ?_
    · rw [scaled_eq between, bound, maxCoefficient]
      norm_num
      linarith
    · rw [roundedQuotient_eq between, scaled_eq between, abs_le, zpow_neg_one]
      rcases fraction_of_not_short between complete bound with little | much
      · have : (final.remainder / rhs.coefficient : ℚ) ≤ 10⁻¹ := by
          rw [div_le_iff₀ positive]
          have : (final.remainder * 10 : ℚ) < rhs.coefficient := by exact_mod_cast little
          linarith
        rw [if_neg (by omega)]
        push_cast
        constructor <;> linarith
      · have : 1 - 10⁻¹ ≤ (final.remainder / rhs.coefficient : ℚ) := by
          rw [le_div_iff₀ positive]
          have : (rhs.coefficient * 9 : ℚ) < final.remainder * 10 := by exact_mod_cast much
          linarith
        rw [if_pos (by omega)]
        push_cast
        constructor <;> linarith

theorem outcome_exact (complete : ¬StopsShort lhs.coefficient rhs.coefficient) {significand exponent : ℤ}
    (few : |significand| < 10 ^ 16) (exactly : lhs.value / rhs.value = significand * 10 ^ exponent) :
    (encode (if lhs.sign = rhs.sign then .positive else .negative) (lhs.exponent - rhs.exponent - j)
      (roundedQuotient lhs.coefficient rhs.coefficient j)).value = lhs.value / rhs.value := by
  have positive := Nat.zero_lt_of_lt between.remainder_lt
  have scaled := scaled_eq between
  have magnitude : |lhs.value / rhs.value| = significand.natAbs * 10 ^ exponent := by
    rw [exactly, abs_mul, abs_of_pos (ten_zpow_pos exponent), Nat.cast_natAbs, Int.cast_abs]
  have significand_lt : significand.natAbs < 10 ^ 16 := by
    rw [Int.abs_eq_natAbs] at few
    exact_mod_cast few
  have none : final.remainder = 0 := by
    -- the quotient in units of the last digit found
    have units : (t + final.remainder / rhs.coefficient : ℚ) =
        significand.natAbs * 10 ^ (exponent - (lhs.exponent - rhs.exponent - j)) := by
      rw [value_div j, abs_exact _ (by rw [scaled]; positivity), scaled] at magnitude
      rw [zpow_sub₀ (by norm_num), mul_div_assoc', eq_div_iff (ten_zpow_pos _).ne', magnitude]
    rcases le_or_gt (10 ^ 15) t with large | less
    · have divides := remainder_dvd positive significand_lt units 0 (by omega)
      rw [pow_zero, mul_one] at divides
      exact Nat.eq_zero_of_dvd_of_lt divides between.remainder_lt
    · by_contra some
      have bound : t = maxCoefficient / 100 := by
        have := stopped.resolve_right some
        rw [maxCoefficient] at this ⊢
        omega
      obtain ⟨digit, digit_eq⟩ := remainder_dvd positive significand_lt units 1 (by rw [bound, maxCoefficient]; decide)
      have := between.remainder_lt
      rcases fraction_of_not_short between complete bound with little | much
      · rcases digit.eq_zero_or_pos with rfl | more
        · omega
        · have := Nat.le_mul_of_pos_right rhs.coefficient more
          omega
      · have ten : 9 < digit := Nat.lt_of_mul_lt_mul_left (by omega : rhs.coefficient * 9 < rhs.coefficient * digit)
        have := Nat.mul_le_mul_left rhs.coefficient ten
        omega
  rw [value_div j, ← rounded_eq_scaled between none] at magnitude ⊢
  refine (encode_exact_iff _ inRange fits).mpr ⟨significand.natAbs, exponent, ?_, magnitude⟩
  rw [maxCoefficient]
  omega

end Outcome

section Stopping

variable {lhs rhs : Decimal} (positive : 0 < lhs.coefficient) (positive' : 0 < rhs.coefficient) {stop : Nat}
  (stops : Stops lhs.coefficient rhs.coefficient stop) (fits : lhs.coefficient * 10 ^ stop / rhs.coefficient < 2 ^ 64)

include positive positive' stops fits

/-- A place where the loop can stop bounds the digits it finds. -/
theorem quotient_reaches : ∃ final j t, j ≤ stop ∧ t < 2 ^ 64 ∧
    BetweenRounds lhs.coefficient rhs.coefficient (lhs.exponent - rhs.exponent) j t final ∧
      (maxCoefficient / 100 ≤ t ∨ final.remainder = 0) ∧ ∀ rounds ≥ stop + 3, quotient rounds lhs rhs = some final := by
  have start := expanded_start lhs.coefficient rhs.coefficient (lhs.exponent - rhs.exponent)
  obtain ⟨final, place, found, loop, reached, le⟩ :=
    divideLoop_reaches positive' rhs.coefficient_lt stops fits (stop + 3)
    positive start (Nat.zero_le _) (.inl ⟨rfl, by omega⟩)
  obtain ⟨j, t, between, stopped⟩ :=
    divideLoop_spec positive' rhs.coefficient_lt (stop + 3) positive start (.inl ⟨rfl, rfl⟩) loop
  obtain rfl : place = j := by
    have := reached.resultExponent
    have := between.resultExponent
    omega
  have small : t < 2 ^ 64 := by
    rw [← between.quotient_eq between.remainder_lt]
    refine (Nat.div_le_div_right (Nat.mul_le_mul_left _ (Nat.pow_le_pow_right (by decide) le))).trans_lt fits
  rw [between.result, Nat.mod_eq_of_lt small] at stopped
  exact ⟨final, place, t, le, small, between, stopped, fun rounds enough => divideLoop_mono enough loop⟩

/-- The loop stops at the place itself if the quotient is the bound there and there is a remainder. -/
theorem quotient_reaches_bound (bound : lhs.coefficient * 10 ^ stop / rhs.coefficient = maxCoefficient / 100)
    (remains : ¬rhs.coefficient ∣ lhs.coefficient * 10 ^ stop) : ∃ final,
    BetweenRounds lhs.coefficient rhs.coefficient (lhs.exponent - rhs.exponent) stop (maxCoefficient / 100) final ∧
      ∀ rounds ≥ stop + 3, quotient rounds lhs rhs = some final := by
  obtain ⟨final, place, t, le, -, between, stopped, every⟩ := quotient_reaches positive positive' stops fits
  have quotient_eq := between.quotient_eq between.remainder_lt
  obtain rfl | less := Nat.eq_or_lt_of_le le
  · exact ⟨final, by rwa [← bound, quotient_eq], every⟩
  · have tenth := @quotient_mul_ten_le lhs.coefficient rhs.coefficient _ _ less
    rw [quotient_eq, bound, maxCoefficient] at tenth
    have none := stopped.resolve_left (by rw [maxCoefficient]; omega)
    exact absurd
      (((between.dvd_iff between.remainder_lt).mpr none).trans (Nat.mul_dvd_mul_left _ (pow_dvd_pow 10 le))) remains

end Stopping

section Division

variable {lhs rhs : Decimal} (finite : lhs.isFinite = true) (finite' : rhs.isFinite = true)
  (nonzero : rhs.isZero = false) (near : -900 ≤ lhs.exponent - rhs.exponent ∧ lhs.exponent - rhs.exponent ≤ 900)

theorem coefficient_pos {number : Decimal} (finite : number.isFinite = true) (nonzero : number.isZero = false) :
    0 < number.coefficient :=
  Nat.pos_of_ne_zero fun none => by
    rw [(isZero_iff finite).mpr none] at nonzero
    cases nonzero

include finite finite' nonzero near

theorem dividesAccurately_zero (zero : lhs.isZero = true) : DividesAccurately lhs rhs := by
  have none := (isZero_iff finite).mp zero
  have inRange : exponentMin ≤ lhs.exponent - rhs.exponent ∧ lhs.exponent - rhs.exponent ≤ exponentMax := by
    rw [exponentMin, exponentMax]
    omega
  refine ⟨fun isFalse => ?_, encode (if lhs.sign = rhs.sign then .positive else .negative) _ 0, 0,
    fun rounds _ => ?_, (encode_small _ inRange (Nat.zero_le _)).1, ?_⟩
  · rw [zero] at isFalse
    cases isFalse
  · rw [divide, handle_finite finite finite']
    simp only [nonzero, zero, Bool.false_eq_true, if_false, if_true]
  · have value_eq : lhs.value / rhs.value = 0 := by rw [value, none, Nat.cast_zero, mul_zero, zero_mul, zero_div]
    rw [encode_value _ inRange (Nat.zero_le _), value_eq, Nat.cast_zero, mul_zero, zero_mul]
    refine ⟨fun unit _ _ => ?_, fun _ _ _ _ => rfl⟩
    rw [sub_self, abs_zero]
    exact (ten_zpow_pos _).le

theorem DividesAccurately.digitInTime (accurately : DividesAccurately lhs rhs) (notZero : lhs.isZero = false) :
    ∃ j, Stops lhs.coefficient rhs.coefficient j ∧ roundedQuotient lhs.coefficient rhs.coefficient j < 2 ^ 64 := by
  obtain ⟨result, enough, run, -, accurate, -⟩ := accurately.accurate
  have ran := run enough le_rfl
  obtain ⟨final, loop⟩ : ∃ final, quotient enough lhs rhs = some final := by
    by_contra none
    rw [divide, handle_finite finite finite'] at ran
    simp [nonzero, notZero, Option.eq_none_iff_forall_ne_some.mpr fun state there => none ⟨state, there⟩] at ran
  obtain ⟨j, t, between, stopped⟩ := divideLoop_spec (coefficient_pos finite' nonzero) rhs.coefficient_lt enough
    (coefficient_pos finite notZero) (expanded_start _ _ _) (.inl ⟨rfl, rfl⟩) loop
  rw [divide_eq finite finite' between notZero nonzero loop, Option.some.injEq] at ran
  have fits : roundedQuotient lhs.coefficient rhs.coefficient j < 2 ^ 64 := by
    by_contra large
    rw [← ran, value_div j] at accurate
    exact not_accurate_of_wrapped _ (by rw [exponentMax]; omega) (rounded_near between) (not_lt.mp large) accurate
  have small : t < 2 ^ 64 := by
    rw [roundedQuotient_eq between] at fits
    omega
  rw [between.result, Nat.mod_eq_of_lt small] at stopped
  refine ⟨j, ⟨?_, ?_⟩, fits⟩
  · rw [between.quotient_eq between.remainder_lt, between.dvd_iff between.remainder_lt]
    exact stopped
  · rw [between.quotient_eq between.remainder_lt]
    exact between.digit

theorem DividesAccurately.not_stopsShort (accurately : DividesAccurately lhs rhs) (notZero : lhs.isZero = false) :
    ¬StopsShort lhs.coefficient rhs.coefficient := by
  rintro ⟨j, bound, little, much⟩
  obtain ⟨result, enough, run, -, accurate, exactly⟩ := accurately.accurate
  have lhs_positive := coefficient_pos finite notZero
  have positive := coefficient_pos finite' nonzero
  have remains : ¬rhs.coefficient ∣ lhs.coefficient * 10 ^ j := fun divides => by
    rw [Nat.mod_eq_zero_of_dvd divides] at little
    omega
  obtain ⟨final, between, every⟩ := quotient_reaches_bound lhs_positive positive
    ⟨.inl bound.ge, .inr (bound ▸ by decide)⟩ (bound ▸ by decide) bound remains
  have ran := run (max enough (j + 3)) (le_max_left _ _)
  rw [divide_eq finite finite' between notZero nonzero (every _ (le_max_right _ _)), Option.some.injEq] at ran
  have few := digits_lt between lhs_positive (by decide)
  have rounded_eq : roundedQuotient lhs.coefficient rhs.coefficient j = 999999999999999 ∨
      roundedQuotient lhs.coefficient rhs.coefficient j = 1000000000000000 := by
    rw [roundedQuotient_eq between, maxCoefficient]
    split <;> simp
  have inRange : exponentMin ≤ lhs.exponent - rhs.exponent - j ∧ lhs.exponent - rhs.exponent - j ≤ exponentMax := by
    rw [exponentMin, exponentMax]
    omega
  have small : roundedQuotient lhs.coefficient rhs.coefficient j ≤ maxCoefficient := by
    rw [maxCoefficient]
    omega
  rw [← ran, Nat.mod_eq_of_lt (by omega), encode_value _ inRange small, value_div j] at accurate exactly
  rw [between.split, Nat.mul_add_mod_self_right, Nat.mod_eq_of_lt between.remainder_lt] at little much
  have divisor : (0 : ℚ) < rhs.coefficient := by exact_mod_cast positive
  have tenth : 1 / 10 ≤ (final.remainder / rhs.coefficient : ℚ) := by
    rw [div_le_div_iff₀ (by norm_num) divisor, one_mul]
    exact_mod_cast little
  have tenths : (final.remainder / rhs.coefficient : ℚ) ≤ 9 / 10 := by
    rw [div_le_div_iff₀ divisor (by norm_num), mul_comm 9]
    exact_mod_cast much
  obtain ⟨significand, exponent, few, scaled, differs⟩ := inexact_of_short _ tenth tenths rounded_eq
    ((scaled_eq between).trans (by norm_num [maxCoefficient])) accurate
  exact differs (exactly _ _ few scaled)

theorem dividesAccurately_of_stops {stop : Nat} (notZero : lhs.isZero = false)
    (stops : Stops lhs.coefficient rhs.coefficient stop)
    (fits : roundedQuotient lhs.coefficient rhs.coefficient stop < 2 ^ 64)
    (complete : ¬StopsShort lhs.coefficient rhs.coefficient) : DividesAccurately lhs rhs := by
  have lhs_positive := coefficient_pos finite notZero
  obtain ⟨final, place, t, le, small, between, stopped, every⟩ := quotient_reaches lhs_positive
    (coefficient_pos finite' nonzero) stops ((Nat.le_add_right _ _).trans_lt fits)
  have rounded_fits : roundedQuotient lhs.coefficient rhs.coefficient place < 2 ^ 64 := by
    rcases Nat.eq_or_lt_of_le le with rfl | less
    · exact fits
    · have := @quotient_mul_ten_le lhs.coefficient rhs.coefficient _ _ less
      have : lhs.coefficient * 10 ^ stop / rhs.coefficient < 2 ^ 64 := (Nat.le_add_right _ _).trans_lt fits
      rw [roundedQuotient]
      split <;> omega
  have few := digits_lt between lhs_positive small
  have inRange : exponentMin ≤ lhs.exponent - rhs.exponent - place ∧
      lhs.exponent - rhs.exponent - place + 3 ≤ exponentMax := by
    rw [exponentMin, exponentMax]
    omega
  refine ⟨fun _ rounds state other => ?_, _, stop + 3,
    fun rounds enough => divide_eq finite finite' between notZero nonzero (every rounds enough), ?_⟩
  · have same := divideLoop_mono (Nat.le_max_left rounds (stop + 3)) other
    obtain rfl := Option.some.inj (same.symm.trans (every _ (Nat.le_max_right rounds (stop + 3))))
    exact Bool.eq_false_iff.mpr fun wrapped => absurd small (not_lt.mpr (between.wrapped wrapped))
  · rw [Nat.mod_eq_of_lt rounded_fits]
    obtain ⟨-, -, isFinite, -⟩ :=
      encode_cut (if lhs.sign = rhs.sign then .positive else .negative) inRange rounded_fits
    exact ⟨isFinite, outcome_accurate between stopped rounded_fits inRange complete,
      fun _ _ few exactly => outcome_exact between stopped rounded_fits inRange complete few exactly⟩

end Division

/-- Division is accurate if and only if a digit other than zero comes in time and the loop does not stop short. -/
theorem dividesAccurately_iff (lhs rhs : Decimal) (finite : lhs.isFinite = true) (finite' : rhs.isFinite = true)
    (nonzero : rhs.isZero = false) (near : -900 ≤ lhs.exponent - rhs.exponent ∧ lhs.exponent - rhs.exponent ≤ 900) :
    DividesAccurately lhs rhs ↔
      DigitInTime lhs.coefficient rhs.coefficient ∧ ¬StopsShort lhs.coefficient rhs.coefficient := by
  cases zero : lhs.isZero with
  | true =>
    have none := (isZero_iff finite).mp zero
    refine iff_of_true (dividesAccurately_zero finite finite' nonzero near zero) ⟨.inl none, ?_⟩
    rintro ⟨j, bound, -⟩
    rw [none, zero_mul, Nat.zero_div] at bound
    exact absurd bound (by decide)
  | false =>
    constructor
    · intro accurately
      exact ⟨.inr (accurately.digitInTime finite finite' nonzero near zero),
        accurately.not_stopsShort finite finite' nonzero near zero⟩
    · rintro ⟨none | ⟨stop, stops, fits⟩, complete⟩
      · exact absurd none (coefficient_pos finite zero).ne'
      · exact dividesAccurately_of_stops finite finite' nonzero near zero stops fits complete

/-- One third is accurate. -/
theorem dividesAccurately_third : DividesAccurately (encode .positive 0 1) (encode .positive 0 3) :=
  (dividesAccurately_iff _ _ (by decide) (by decide) (by decide) (by decide)).mpr
    ⟨.inr ⟨16, ⟨.inl (by decide), .inr (by decide)⟩, by decide⟩, fun ⟨j, bound, _⟩ => by
      have thirds : 1 * 10 ^ j / 3 = 999999999999999 := bound
      rcases le_or_gt j 15 with le | more
      · have := Nat.pow_le_pow_right (show 0 < 10 by decide) le
        omega
      · have := Nat.pow_le_pow_right (show 0 < 10 by decide) more
        omega⟩

/-- The quotient of 10000000001 and 9999999999 is 1.00000000020000000002 and more; the zeros after its
first eleven digits take the quotient out of 64 bits. The quotient 9.999999999999995 loses its last digit. -/
theorem divide_wraps :
    (quotient 40 (encode .positive 0 10000000001) (encode .positive 0 9999999999)).map DivisionState.wrapped =
      some true ∧
    divide 40 (encode .positive 0 10000000001) (encode .positive 0 9999999999) =
      some (encode .positive (-18) 77662796514522419) ∧
    divide 40 (encode .positive 0 9999999999999995) (encode .positive 0 1000000000000000) =
      some (encode .positive (-14) 999999999999999) := by
  decide

end WebNode.Platform.Decimal
