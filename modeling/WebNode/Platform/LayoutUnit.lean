import Mathlib.Algebra.Order.Ring.Int
import Mathlib.Data.Int.Init
import Mathlib.Data.Nat.Log
import Mathlib.Tactic.Linarith

/-!
# Layout units

Fixed-point lengths of a 64th, with saturated arithmetic (`LayoutUnit.h` and `SaturatedArithmetic.h`).
-/

namespace WebNode.Platform

def intMax : Int := 2 ^ 31 - 1

def intMin : Int := -2 ^ 31

/-- The nearest `int`. -/
def clampToInt (value : Int) : Int := max intMin (min intMax value)

def toUint32 (value : Int) : Nat := (value % 2 ^ 32).toNat

def toInt32 (value : Int) : Int := if value % 2 ^ 32 < 2 ^ 31 then value % 2 ^ 32 else value % 2 ^ 32 - 2 ^ 32

/-- The wrapped sum, and whether it is wrong. -/
def signedAddOverflows (a b : Int) : Int × Bool :=
  let ua := toUint32 a
  let ub := toUint32 b
  let uresult : Nat := (ua + ub) % 2 ^ 32
  (toInt32 uresult, (ua ^^^ ub) >>> 31 == 0 && (uresult ^^^ ua) >>> 31 != 0)

/-- The wrapped difference, and whether it is wrong. -/
def signedSubtractOverflows (a b : Int) : Int × Bool :=
  let ua := toUint32 a
  let ub := toUint32 b
  let uresult : Nat := (ua + 2 ^ 32 - ub) % 2 ^ 32
  (toInt32 uresult, (ua ^^^ ub) >>> 31 != 0 && (uresult ^^^ ua) >>> 31 != 0)

def saturatedAddition (a b : Int) : Int :=
  let (result, overflows) := signedAddOverflows a b
  if overflows then toInt32 (intMax + toUint32 a >>> (31 : Nat)) else result

def saturatedSubtraction (a b : Int) : Int :=
  let (result, overflows) := signedSubtractOverflows a b
  if overflows then toInt32 (intMax + toUint32 a >>> (31 : Nat)) else result

/-- The conversion of an unsigned integer to `double`: to the nearest multiple of the unit, or to the even one. -/
def toDouble (value : Nat) : Nat :=
  let unit := 2 ^ (value.log2 - 52)
  let rest := value % unit
  if 2 * rest < unit ∨ 2 * rest = unit ∧ value / unit % 2 = 0 then value / unit * unit else (value / unit + 1) * unit

/-- `clampTo<int>(double)`, at a whole number. -/
def clampTo (value : Int) : Int := if value ≥ intMax then intMax else if value ≤ intMin then intMin else value

def kFixedPointDenominator : Int := 64

def intMaxForLayoutUnit : Int := intMax / kFixedPointDenominator

def intMinForLayoutUnit : Int := intMin / kFixedPointDenominator

@[ext]
structure LayoutUnit where
  rawValue : Int
  low : intMin ≤ rawValue
  high : rawValue ≤ intMax

namespace LayoutUnit

/-- `setRawValue(static_cast<int>(value))`. -/
def setRawValue (value : Int) : LayoutUnit where
  rawValue := toInt32 value
  low := by
    unfold toInt32 intMin
    split <;> omega
  high := by
    unfold toInt32 intMax
    split <;> omega

/-- `setValue(int)`. -/
def setValueInt (value : Int) : LayoutUnit :=
  if value > intMaxForLayoutUnit then setRawValue intMax
  else if value < intMinForLayoutUnit then setRawValue intMin
  else setRawValue (value * kFixedPointDenominator)

/-- `setValue(unsigned)`. -/
def setValueUnsigned (value : Nat) : LayoutUnit :=
  if (value : Int) ≥ intMaxForLayoutUnit then setRawValue intMax
  else setRawValue (value * kFixedPointDenominator % 2 ^ 32)

/-- The constructor of `unsigned long` and `unsigned long long`, by their width. -/
def ofUnsignedLong (width : Nat) (value : Nat) : LayoutUnit := setRawValue (clampTo (toDouble (value * 64 % 2 ^ width)))

instance : Add LayoutUnit := ⟨fun a b => setRawValue (saturatedAddition a.rawValue b.rawValue)⟩

instance : Sub LayoutUnit := ⟨fun a b => setRawValue (saturatedSubtraction a.rawValue b.rawValue)⟩

def boundedMultiply (a b : LayoutUnit) : LayoutUnit :=
  let result := (a.rawValue * b.rawValue).tdiv kFixedPointDenominator
  let high := toInt32 (result >>> (32 : Nat))
  let low := toInt32 result
  let saturated := (toUint32 a.rawValue ^^^ toUint32 b.rawValue) >>> (31 : Nat) + intMax
  setRawValue (if high ≠ low >>> (31 : Nat) then saturated else result)

instance : Mul LayoutUnit := ⟨boundedMultiply⟩

instance : Div LayoutUnit := ⟨fun a b => setRawValue (clampTo ((kFixedPointDenominator * a.rawValue).tdiv b.rawValue))⟩

def toInt (a : LayoutUnit) : Int := a.rawValue.tdiv kFixedPointDenominator

def intMod (a b : LayoutUnit) : LayoutUnit := setRawValue (a.rawValue.tmod b.rawValue)

instance : Mod LayoutUnit :=
  ⟨fun a b => setRawValue (((kFixedPointDenominator * a.rawValue).tmod b.rawValue).tdiv kFixedPointDenominator)⟩

end LayoutUnit

section Conversions

variable {value a b : Int}

theorem clampToInt_eq :
    clampToInt value = if value < intMin then intMin else if intMax < value then intMax else value := by
  unfold clampToInt intMin intMax
  split_ifs <;> omega

theorem toInt32_eq (low : intMin ≤ value) (high : value ≤ intMax) : toInt32 value = value := by
  unfold intMin at low
  unfold intMax at high
  unfold toInt32
  split <;> omega

@[simp] theorem LayoutUnit.rawValue_setRawValue : (setRawValue value).rawValue = toInt32 value := rfl

theorem toUint32_lt : toUint32 value < 2 ^ 32 := by
  unfold toUint32
  omega

/-- Whether the top bits of two 32-bit numbers differ. -/
theorem xor_shift_eq {first second : Nat} (small : first < 2 ^ 32) (secondSmall : second < 2 ^ 32) :
    (first ^^^ second) >>> 31 = if first < 2 ^ 31 ↔ second < 2 ^ 31 then 0 else 1 := by
  rw [Nat.shiftRight_xor_distrib, Nat.shiftRight_eq_div_pow, Nat.shiftRight_eq_div_pow]
  have first_cases : first / 2 ^ 31 = 0 ∧ first < 2 ^ 31 ∨ first / 2 ^ 31 = 1 ∧ ¬ first < 2 ^ 31 := by omega
  have second_cases : second / 2 ^ 31 = 0 ∧ second < 2 ^ 31 ∨ second / 2 ^ 31 = 1 ∧ ¬ second < 2 ^ 31 := by omega
  rcases first_cases with ⟨bit, least⟩ | ⟨bit, least⟩ <;>
    rcases second_cases with ⟨secondBit, most⟩ | ⟨secondBit, most⟩ <;>
    simp only [bit, secondBit, least, most] <;> rfl

theorem xor_shift_eq_zero_iff {first second : Nat} (small : first < 2 ^ 32) (secondSmall : second < 2 ^ 32) :
    (first ^^^ second) >>> 31 = 0 ↔ (first < 2 ^ 31 ↔ second < 2 ^ 31) := by
  rw [xor_shift_eq small secondSmall]
  split <;> simp_all

theorem toUint32_cases (low : intMin ≤ value) (high : value ≤ intMax) :
    0 ≤ value ∧ (toUint32 value : Int) = value ∨ value < 0 ∧ (toUint32 value : Int) = value + 2 ^ 32 := by
  unfold intMin at low
  unfold intMax at high
  unfold toUint32
  omega

theorem saturatedAddition_eq (aLow : intMin ≤ a) (aHigh : a ≤ intMax) (bLow : intMin ≤ b) (bHigh : b ≤ intMax) :
    saturatedAddition a b = clampToInt (a + b) := by
  have sum : (toUint32 a + toUint32 b) % 2 ^ 32 < 2 ^ 32 := Nat.mod_lt _ (by decide)
  have same := xor_shift_eq_zero_iff (@toUint32_lt a) (@toUint32_lt b)
  have kept := xor_shift_eq_zero_iff sum (@toUint32_lt a)
  have aCases := toUint32_cases aLow aHigh
  have bCases := toUint32_cases bLow bHigh
  simp only [saturatedAddition, signedAddOverflows, Bool.and_eq_true, beq_iff_eq, bne_iff_ne, ne_eq, same, kept,
    clampToInt_eq]
  rw [Nat.shiftRight_eq_div_pow]
  clear same kept
  unfold toInt32 intMin intMax at *
  split_ifs <;> omega

theorem saturatedSubtraction_eq (aLow : intMin ≤ a) (aHigh : a ≤ intMax) (bLow : intMin ≤ b) (bHigh : b ≤ intMax) :
    saturatedSubtraction a b = clampToInt (a - b) := by
  have difference : (toUint32 a + 2 ^ 32 - toUint32 b) % 2 ^ 32 < 2 ^ 32 := Nat.mod_lt _ (by decide)
  have same := xor_shift_eq_zero_iff (@toUint32_lt a) (@toUint32_lt b)
  have kept := xor_shift_eq_zero_iff difference (@toUint32_lt a)
  have aCases := toUint32_cases aLow aHigh
  have bCases := toUint32_cases bLow bHigh
  simp only [saturatedSubtraction, signedSubtractOverflows, Bool.and_eq_true, bne_iff_ne, ne_eq, same, kept,
    clampToInt_eq]
  rw [Nat.shiftRight_eq_div_pow]
  clear same kept
  unfold toInt32 intMin intMax at *
  split_ifs <;> omega

theorem toInt32_clampToInt : toInt32 (clampToInt value) = clampToInt value := by
  apply toInt32_eq
  · unfold clampToInt intMin intMax
    omega
  · unfold clampToInt intMin intMax
    omega

theorem tdiv_denominator_eq : value.tdiv 64 = if 0 ≤ value then value / 64 else -(-value / 64) := by
  split
  · next nonneg => exact Int.tdiv_eq_ediv_of_nonneg nonneg
  · next negative => rw [← Int.neg_neg value, Int.neg_tdiv, Int.tdiv_eq_ediv_of_nonneg (by omega), Int.neg_neg]

/-- The high half is the extension of the low half's sign. -/
theorem high_eq_iff (bound : -2 ^ 62 ≤ value ∧ value ≤ 2 ^ 62) :
    toInt32 (value >>> (32 : Nat)) = toInt32 value >>> (31 : Nat) ↔ intMin ≤ value ∧ value ≤ intMax := by
  rw [Int.shiftRight_eq_div_pow, Int.shiftRight_eq_div_pow]
  unfold toInt32 intMin intMax
  split_ifs <;> omega

theorem toDouble_of_lt {value : Nat} (small : value < 2 ^ 53) : toDouble value = value := by
  rcases Nat.eq_zero_or_pos value with rfl | positive
  · rfl
  · have exponent : value.log2 - 52 = 0 := by
      have := (Nat.log2_lt positive.ne').mpr small
      omega
    simp [toDouble, exponent, Nat.mod_one]

theorem le_toDouble {value : Nat} (large : 2 ^ 53 ≤ value) : 2 ^ 52 ≤ toDouble value := by
  have positive : 0 < 2 ^ (value.log2 - 52) := Nat.two_pow_pos _
  have exponent : 52 ≤ value.log2 := (Nat.le_log2 (by omega)).mpr (by omega)
  have quotient : 2 ^ 52 ≤ value / 2 ^ (value.log2 - 52) := by
    rw [Nat.le_div_iff_mul_le positive, ← Nat.pow_add, Nat.add_sub_cancel' exponent]
    exact Nat.log2_self_le (by omega)
  have product : 2 ^ 52 ≤ value / 2 ^ (value.log2 - 52) * 2 ^ (value.log2 - 52) := by nlinarith
  unfold toDouble
  dsimp only
  split
  · exact product
  · rw [Nat.add_mul]
    omega

theorem clampTo_eq : clampTo value = clampToInt value := by
  rw [clampTo, clampToInt_eq]
  unfold intMin intMax
  split_ifs <;> omega

namespace LayoutUnit

variable (first second : LayoutUnit)

theorem rawValue_add : (first + second).rawValue = clampToInt (first.rawValue + second.rawValue) := by
  change toInt32 (saturatedAddition _ _) = _
  rw [saturatedAddition_eq first.low first.high second.low second.high, toInt32_clampToInt]

theorem rawValue_sub : (first - second).rawValue = clampToInt (first.rawValue - second.rawValue) := by
  change toInt32 (saturatedSubtraction _ _) = _
  rw [saturatedSubtraction_eq first.low first.high second.low second.high, toInt32_clampToInt]

theorem rawValue_mul : (first * second).rawValue = clampToInt ((first.rawValue * second.rawValue).tdiv 64) := by
  change toInt32 (if toInt32 _ ≠ toInt32 _ >>> (31 : Nat) then _ else _) = _
  obtain ⟨x, xLow, xHigh⟩ := first
  obtain ⟨y, yLow, yHigh⟩ := second
  have xCases := toUint32_cases xLow xHigh
  have yCases := toUint32_cases yLow yHigh
  unfold intMin at xLow yLow
  unfold intMax at xHigh yHigh
  have bound : -2 ^ 62 ≤ x * y ∧ x * y ≤ 2 ^ 62 := ⟨by nlinarith, by nlinarith⟩
  rw [xor_shift_eq toUint32_lt toUint32_lt]
  -- The signs of the operands decide at which end the product saturates.
  have sign : (toUint32 x < 2 ^ 31 ↔ toUint32 y < 2 ^ 31) ∧ 0 ≤ x * y ∨
      ¬ (toUint32 x < 2 ^ 31 ↔ toUint32 y < 2 ^ 31) ∧ x * y ≤ 0 := by
    rcases Int.lt_or_le x 0 with negative | nonneg <;> rcases Int.lt_or_le y 0 with otherNegative | otherNonneg
    · exact .inl ⟨by omega, by nlinarith⟩
    · exact .inr ⟨by omega, by nlinarith⟩
    · exact .inr ⟨by omega, by nlinarith⟩
    · exact .inl ⟨by omega, by nlinarith⟩
  generalize x * y = product at bound sign ⊢
  have quotient := @tdiv_denominator_eq product
  rw [kFixedPointDenominator, clampToInt_eq]
  generalize product.tdiv 64 = result at quotient ⊢
  have fits := @high_eq_iff result (by split at quotient <;> omega)
  by_cases inside : intMin ≤ result ∧ result ≤ intMax
  · rw [if_neg (not_not.mpr (fits.mpr inside)), toInt32_eq inside.1 inside.2, if_neg (by omega), if_neg (by omega)]
  · rw [if_pos (mt fits.mp inside)]
    unfold intMin intMax at *
    rcases sign with ⟨same, nonneg⟩ | ⟨different, nonpos⟩
    · rw [if_pos same, if_neg (by split at quotient <;> omega), if_pos (by split at quotient <;> omega)]
      rfl
    · rw [if_neg different, if_pos (by split at quotient <;> omega)]
      rfl

theorem rawValue_div : (first / second).rawValue = clampToInt ((64 * first.rawValue).tdiv second.rawValue) := by
  change toInt32 (clampTo _) = _
  rw [clampTo_eq, toInt32_clampToInt]
  rfl

theorem rawValue_setValueInt : (setValueInt value).rawValue = clampToInt (64 * value) := by
  rw [clampToInt_eq]
  unfold setValueInt intMaxForLayoutUnit intMinForLayoutUnit kFixedPointDenominator setRawValue toInt32 intMin intMax
  split_ifs <;> dsimp only <;> omega

theorem rawValue_setValueUnsigned {value : Nat} :
    (setValueUnsigned value).rawValue = clampToInt (64 * value) ↔ value ≠ 33554431 := by
  have limit : intMaxForLayoutUnit = 33554431 := rfl
  rw [setValueUnsigned, limit, clampToInt_eq, kFixedPointDenominator]
  unfold intMin intMax
  split
  · rw [rawValue_setRawValue, toInt32_eq (by decide) (by decide)]
    split_ifs <;> omega
  · rw [rawValue_setRawValue, toInt32_eq (by unfold intMin; omega) (by unfold intMax; omega)]
    split_ifs <;> omega

/-- The product is clamped after it has wrapped. -/
theorem rawValue_ofUnsignedLong {width value : Nat} :
    (ofUnsignedLong width value).rawValue = clampToInt (64 * value % 2 ^ width) := by
  have wrapped : (64 * value % 2 ^ width : Int) = (value * 64 % 2 ^ width : Nat) := by
    push_cast
    rw [Int.mul_comm]
  rw [wrapped]
  change toInt32 (clampTo _) = _
  rw [clampTo_eq, toInt32_clampToInt]
  generalize value * 64 % 2 ^ width = product
  rcases Nat.lt_or_ge product (2 ^ 53) with small | large
  · rw [toDouble_of_lt small]
  · have := le_toDouble large
    rw [clampToInt_eq, clampToInt_eq]
    unfold intMin intMax
    split_ifs <;> omega

end LayoutUnit

end Conversions

namespace LayoutUnit

/-- The argument of a constructor. -/
inductive Source where
  | int (value : Int)
  | unsigned (value : Nat)
  | unsignedLong (value : Nat)
  | unsignedLongLong (value : Nat)

/-- The argument is a value of its type, where `unsigned long` has the given width. -/
def Source.Fits (longWidth : Nat) : Source → Prop
  | int value => intMin ≤ value ∧ value ≤ intMax
  | unsigned value => value < 2 ^ 32
  | unsignedLong value => value < 2 ^ longWidth
  | unsignedLongLong value => value < 2 ^ 64

def Source.value : Source → Int
  | int value => value
  | unsigned value => value
  | unsignedLong value => value
  | unsignedLongLong value => value

/-- The constructors. -/
def construct (longWidth : Nat) : Source → LayoutUnit
  | .int value => setValueInt value
  | .unsigned value => setValueUnsigned value
  | .unsignedLong value => ofUnsignedLong longWidth value
  | .unsignedLongLong value => ofUnsignedLong 64 value

/-- The product with the denominator does not wrap, or what is left of it is too large for an `int`. -/
def Unwrapped (width value : Nat) : Prop := value < 2 ^ (width - 6) ∨ 2 ^ 25 ≤ value % 2 ^ (width - 6)

/-- Where a constructor saturates. -/
def Source.Saturates (longWidth : Nat) : Source → Prop
  | int _ => True
  | unsigned value => value ≠ 33554431
  | unsignedLong value => Unwrapped longWidth value
  | unsignedLongLong value => Unwrapped 64 value

theorem ofUnsignedLong_iff {width value : Nat} (known : width = 32 ∨ width = 64) :
    (ofUnsignedLong width value).rawValue = clampToInt (64 * value) ↔ Unwrapped width value := by
  rw [rawValue_ofUnsignedLong, clampToInt_eq, clampToInt_eq]
  unfold Unwrapped intMin intMax
  rcases known with rfl | rfl <;> norm_num <;> split_ifs <;> omega

/-- A constructor saturates just under its condition, and the sum, the difference and the product always do. -/
theorem saturates_iff {longWidth : Nat} (known : longWidth = 32 ∨ longWidth = 64) {source : Source}
    (_fits : source.Fits longWidth) (a b : LayoutUnit) :
    ((construct longWidth source).rawValue = clampToInt (64 * source.value) ↔ source.Saturates longWidth) ∧
      (a + b).rawValue = clampToInt (a.rawValue + b.rawValue) ∧
      (a - b).rawValue = clampToInt (a.rawValue - b.rawValue) ∧
      (a * b).rawValue = clampToInt ((a.rawValue * b.rawValue).tdiv 64) := by
  refine ⟨?_, rawValue_add a b, rawValue_sub a b, rawValue_mul a b⟩
  cases source with
  | int value => exact iff_of_true rawValue_setValueInt trivial
  | unsigned value => exact rawValue_setValueUnsigned
  | unsignedLong value => exact ofUnsignedLong_iff known
  | unsignedLongLong value => exact ofUnsignedLong_iff (.inr rfl)

/-- Two times three. -/
theorem saturates_product :
    ((construct 64 (.int 2)) * (construct 64 (.int 3))).rawValue = clampToInt ((128 * 192 : Int).tdiv 64) :=
  (@saturates_iff 64 (.inr rfl) (.int 2) ⟨by decide, by decide⟩ (construct 64 (.int 2)) (construct 64 (.int 3))).2.2.2

theorem unsigned_diverges :
    (construct 64 (.unsigned 33554431)).rawValue = 2147483647 ∧
      (construct 64 (.int 33554431)).rawValue = 64 * 33554431 ∧
      (construct 64 (.unsignedLongLong (2 ^ 58))).rawValue = 0 := by
  decide +kernel

section Remainders

theorem tdiv_tdiv_denominator (x y : Int) : ((64 * x).tdiv y).tdiv 64 = x.tdiv y := by
  have natural (n k : Nat) : ((64 * (n : Int)).tdiv k).tdiv 64 = (n : Int).tdiv k := by
    rw [show (64 : Int) = (64 : Nat) from rfl, ← Int.natCast_mul, ← Int.ofNat_tdiv, ← Int.ofNat_tdiv, ← Int.ofNat_tdiv,
      Nat.div_div_eq_div_mul, Nat.mul_comm k, Nat.mul_div_mul_left _ _ (by decide)]
  obtain ⟨n, rfl | rfl⟩ := x.eq_nat_or_neg
  · obtain ⟨k, rfl | rfl⟩ := y.eq_nat_or_neg
    · exact natural n k
    · rw [Int.tdiv_neg, Int.tdiv_neg, Int.neg_tdiv, natural]
  · obtain ⟨k, rfl | rfl⟩ := y.eq_nat_or_neg
    · rw [Int.mul_neg, Int.neg_tdiv, Int.neg_tdiv, Int.neg_tdiv, natural]
    · rw [Int.mul_neg, Int.neg_tdiv, Int.tdiv_neg, Int.neg_neg, Int.neg_tdiv, Int.tdiv_neg, Int.neg_neg, natural]

/-- The remainder lies between zero and the dividend. -/
theorem tmod_between (x y : Int) : 0 ≤ x ∧ 0 ≤ x.tmod y ∧ x.tmod y ≤ x ∨ x ≤ 0 ∧ x ≤ x.tmod y ∧ x.tmod y ≤ 0 := by
  have smaller : (x.tmod y).natAbs ≤ x.natAbs := by
    rw [Int.natAbs_tmod]
    exact Nat.mod_le _ _
  rcases Int.le_total 0 x with nonneg | nonpos
  · have := Int.tmod_nonneg y nonneg
    omega
  · have := Int.tmod_nonneg y (show 0 ≤ -x by omega)
    rw [Int.neg_tmod] at this
    omega

theorem clampToInt_of_between {value : Int} (a : LayoutUnit)
    (between : 0 ≤ value ∧ value ≤ a.rawValue ∨ a.rawValue ≤ value ∧ value ≤ 0) : clampToInt value = value := by
  have low := a.low
  have high := a.high
  rw [clampToInt_eq]
  unfold intMin intMax at *
  split_ifs <;> omega

variable {a b : LayoutUnit}

/-- The quotient of `a` by `b` does not saturate. -/
def Unsaturated (a b : LayoutUnit) : Prop :=
  intMin ≤ (64 * a.rawValue).tdiv b.rawValue ∧ (64 * a.rawValue).tdiv b.rawValue ≤ intMax

theorem rawValue_div_of_unsaturated (unsaturated : Unsaturated a b) :
    (a / b).rawValue = (64 * a.rawValue).tdiv b.rawValue := by
  obtain ⟨low, high⟩ := unsaturated
  rw [rawValue_div, clampToInt_eq, if_neg (Int.not_lt.mpr low), if_neg (Int.not_lt.mpr high)]

theorem toInt32_of_between {value : Int} (a : LayoutUnit)
    (between : 0 ≤ value ∧ value ≤ a.rawValue ∨ a.rawValue ≤ value ∧ value ≤ 0) : toInt32 value = value := by
  have low := a.low
  have high := a.high
  unfold intMin at low
  unfold intMax at high
  exact toInt32_eq (by unfold intMin; omega) (by unfold intMax; omega)

theorem intMod_law (unsaturated : Unsaturated a b) : setValueInt (a / b).toInt * b + intMod a b = a := by
  have between := tmod_between a.rawValue b.rawValue
  have split := Int.mul_tdiv_add_tmod a.rawValue b.rawValue
  have quotient : (a / b).toInt = a.rawValue.tdiv b.rawValue := by
    rw [toInt, rawValue_div_of_unsaturated unsaturated, kFixedPointDenominator, tdiv_tdiv_denominator]
  have scaled : (setValueInt (a / b).toInt).rawValue = 64 * a.rawValue.tdiv b.rawValue := by
    rw [rawValue_setValueInt, quotient, ← tdiv_tdiv_denominator]
    refine clampToInt_of_between (a / b) ?_
    rw [rawValue_div_of_unsaturated unsaturated, tdiv_denominator_eq]
    split_ifs <;> omega
  have product : (setValueInt (a / b).toInt * b).rawValue = b.rawValue * a.rawValue.tdiv b.rawValue := by
    rw [rawValue_mul, scaled, Int.mul_assoc, Int.mul_tdiv_cancel_left _ (by decide), Int.mul_comm]
    exact clampToInt_of_between a (by omega)
  have remainder : (intMod a b).rawValue = a.rawValue.tmod b.rawValue := toInt32_of_between a (by omega)
  ext
  rw [rawValue_add, product, remainder, split]
  exact clampToInt_of_between a (by omega)

/-- The law of `operator%` needs the remainder of the scaled dividend to be a multiple of the scale. -/
theorem mod_law_iff (unsaturated : Unsaturated a b) :
    a / b * b + a % b = a ↔ 64 ∣ (64 * a.rawValue).tmod b.rawValue := by
  have between := tmod_between (64 * a.rawValue) b.rawValue
  have split := Int.mul_tdiv_add_tmod (64 * a.rawValue) b.rawValue
  have product : (a / b * b).rawValue = (64 * a.rawValue - (64 * a.rawValue).tmod b.rawValue).tdiv 64 := by
    rw [rawValue_mul, rawValue_div_of_unsaturated unsaturated, Int.mul_comm,
      show b.rawValue * (64 * a.rawValue).tdiv b.rawValue = 64 * a.rawValue -
        (64 * a.rawValue).tmod b.rawValue by omega]
    refine clampToInt_of_between a ?_
    rw [tdiv_denominator_eq]
    split_ifs <;> omega
  have remainder : (a % b).rawValue = ((64 * a.rawValue).tmod b.rawValue).tdiv 64 := by
    refine toInt32_of_between a ?_
    rw [kFixedPointDenominator, tdiv_denominator_eq]
    split_ifs <;> omega
  have low := a.low
  have high := a.high
  rw [LayoutUnit.ext_iff, rawValue_add, product, remainder, tdiv_denominator_eq, tdiv_denominator_eq, clampToInt_eq]
  unfold intMin intMax at *
  split_ifs <;> omega

/-- Some remainder, smaller than a 64th of `b` and with the sign of `a`, leaves an exact quotient of 64ths. -/
def WholeRemainder (a b : LayoutUnit) : Prop :=
  ∃ remainder : Int, b.rawValue ∣ 64 * (a.rawValue - remainder) ∧ 64 * remainder.natAbs < b.rawValue.natAbs ∧
    0 ≤ a.rawValue * remainder

theorem wholeRemainder_iff (nonzero : b.rawValue ≠ 0) :
    WholeRemainder a b ↔ 64 ∣ (64 * a.rawValue).tmod b.rawValue := by
  have between := tmod_between (64 * a.rawValue) b.rawValue
  have split := Int.mul_tdiv_add_tmod (64 * a.rawValue) b.rawValue
  have small : ((64 * a.rawValue).tmod b.rawValue).natAbs < b.rawValue.natAbs := by
    rw [Int.natAbs_tmod]
    exact Nat.mod_lt _ (by omega)
  constructor
  · rintro ⟨remainder, divides, smaller, sign⟩
    have signs : 0 < a.rawValue ∧ 0 ≤ remainder ∨ a.rawValue < 0 ∧ remainder ≤ 0 ∨ a.rawValue = 0 := by
      rcases lt_trichotomy a.rawValue 0 with negative | zero | positive
      · exact .inr (.inl ⟨negative, by nlinarith⟩)
      · exact .inr (.inr zero)
      · exact .inl ⟨positive, by nlinarith⟩
    have same : (64 * a.rawValue).tmod b.rawValue - 64 * remainder = 0 := by
      refine Int.eq_zero_of_dvd_of_natAbs_lt_natAbs (d := b.rawValue) ?_ (by omega)
      have difference : (64 * a.rawValue).tmod b.rawValue - 64 * remainder =
          64 * (a.rawValue - remainder) - b.rawValue * (64 * a.rawValue).tdiv b.rawValue := by omega
      rw [difference]
      exact Int.dvd_sub divides (Int.dvd_mul_right _ _)
    exact ⟨remainder, by omega⟩
  · rintro ⟨remainder, equal⟩
    rw [equal] at between split small
    have exact : 64 * (a.rawValue - remainder) = b.rawValue * (64 * a.rawValue).tdiv b.rawValue := by omega
    refine ⟨remainder, ⟨_, exact⟩, by omega, ?_⟩
    rcases between with ⟨nonneg, positive, -⟩ | ⟨nonpos, -, negative⟩
    · exact Int.mul_nonneg (by omega) (by omega)
    · exact Int.mul_nonneg_of_nonpos_of_nonpos (by omega) (by omega)

/-- The law of `intMod` always holds, and that of `operator%` just under the condition. -/
theorem remainder_laws (nonzero : b.rawValue ≠ 0) (unsaturated : Unsaturated a b) :
    a = setValueInt (a / b).toInt * b + intMod a b ∧ (a = a / b * b + a % b ↔ WholeRemainder a b) := by
  refine ⟨(intMod_law unsaturated).symm, ?_⟩
  rw [wholeRemainder_iff nonzero, ← mod_law_iff unsaturated]
  exact eq_comm

theorem remainder_laws_five_by_two :
    setRawValue 320 = setRawValue 320 / setRawValue 128 * setRawValue 128 + setRawValue 320 % setRawValue 128 :=
  (@remainder_laws (setRawValue 320) (setRawValue 128) (by decide) ⟨by decide, by decide⟩).2.mpr
    ⟨0, ⟨160, by decide⟩, by decide, by decide⟩

/-- The third of a 64th: the product and the remainder lose their fractions. -/
theorem mod_law_diverges :
    (setRawValue 1 / setRawValue 3 * setRawValue 3 + setRawValue 1 % setRawValue 3).rawValue = 0 := by
  decide

end Remainders

end LayoutUnit

end WebNode.Platform
