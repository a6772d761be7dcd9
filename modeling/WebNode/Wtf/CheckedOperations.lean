import Mathlib.Algebra.Order.Ring.Int
import Mathlib.Data.Int.Init
import Mathlib.Tactic.Linarith

/-!
# Checked arithmetic on all integer types

The three templates `ArithmeticOperations` of `CheckedArithmetic.h`, with the conversions that C++ makes.
-/

namespace WebNode.Wtf.CheckedOperations

/-- The types `int`, `unsigned`, `int64_t` and `uint64_t`. -/
structure IntType where
  signed : Bool
  wide : Bool
  deriving DecidableEq, Repr

namespace IntType

def modulus (type : IntType) : Int := if type.wide then 2 ^ 64 else 2 ^ 32

/-- `std::numeric_limits<type>::min()`. -/
def min (type : IntType) : Int := if type.signed then -(type.modulus / 2) else 0

/-- `std::numeric_limits<type>::max()`. -/
def max (type : IntType) : Int := if type.signed then type.modulus / 2 - 1 else type.modulus - 1

def Holds (type : IntType) (value : Int) : Prop := type.min ≤ value ∧ value ≤ type.max

instance (type : IntType) (value : Int) : Decidable (type.Holds value) := inferInstanceAs (Decidable (_ ∧ _))

/-- The value of the type that is congruent. -/
def convert (type : IntType) (value : Int) : Int := (value - type.min) % type.modulus + type.min

/-- The type in which two operands meet. -/
def common (first second : IntType) : IntType :=
  if first.wide = second.wide then ⟨first.signed && second.signed, first.wide⟩ else if first.wide then first else second

/-- Unsigned arithmetic wraps; signed arithmetic must not overflow. -/
def Makes (type : IntType) (exact : Int) : Bool := !type.signed || type.Holds exact

end IntType

/-- The value of an expression, and whether no signed arithmetic in it overflowed. -/
structure Number where
  type : IntType
  value : Int
  defined : Bool
  deriving DecidableEq, Repr

namespace Number

def castTo (type : IntType) (number : Number) : Number :=
  { number with type := type, value := type.convert number.value }

/-- An operation in the common type of its operands. -/
def binary (operation : Int → Int → Int) (first second : Number) : Number :=
  let type := first.type.common second.type
  let exact := operation (type.convert first.value) (type.convert second.value)
  ⟨type, type.convert exact, first.defined && second.defined && type.Makes exact⟩

def negate (number : Number) : Number :=
  ⟨number.type, number.type.convert (-number.value), number.defined && number.type.Makes (-number.value)⟩

def less (first second : Number) : Option Bool :=
  let type := first.type.common second.type
  if first.defined && second.defined then some (type.convert first.value < type.convert second.value) else none

end Number

open Number

def maxOf (type : IntType) : Number := ⟨type, type.max, true⟩

def minOf (type : IntType) : Number := ⟨type, type.min, true⟩

/-- Returns false if the test refuses, and otherwise stores the converted result. There is no outcome where signed
arithmetic overflows. -/
def storeUnless (type : IntType) (refuses : Option Bool) (result : Number) : Option (Option Int) :=
  match refuses with
  | none => none
  | some true => some none
  | some false => if result.defined then some (some (type.convert result.value)) else none

namespace Signed

def signsMatch (lhs rhs : Number) : Bool := decide (lhs.value ≥ 0) == decide (rhs.value ≥ 0)

/-- Whether `add` returns false. -/
def addRefuses (result : IntType) (lhs rhs : Number) : Option Bool :=
  if signsMatch lhs rhs then
    if lhs.value ≥ 0 then (binary (· - ·) (maxOf result) rhs).less lhs
    else rhs.less ((binary (· - ·) lhs (minOf result)).castTo result).negate
  else some false

def add (result : IntType) (lhs rhs : Number) : Option (Option Int) :=
  storeUnless result (addRefuses result lhs rhs) (binary (· + ·) lhs rhs)

/-- Whether `sub` returns false. -/
def subRefuses (result : IntType) (lhs rhs : Number) : Option Bool :=
  if !signsMatch lhs rhs then
    if lhs.value ≥ 0 then (binary (· + ·) (maxOf result) rhs).less lhs
    else (binary (· + ·) (maxOf result) lhs).less rhs
  else some false

def sub (result : IntType) (lhs rhs : Number) : Option (Option Int) :=
  storeUnless result (subRefuses result lhs rhs) (binary (· - ·) lhs rhs)

/-- Whether `multiply` returns false. -/
def multiplyRefuses (result : IntType) (lhs rhs : Number) : Option Bool :=
  if signsMatch lhs rhs then
    if lhs.value ≥ 0 then
      if lhs.value ≠ 0 then (binary Int.tdiv (maxOf result) lhs).less rhs else some false
    else if lhs.castTo result = minOf result ∨ rhs.castTo result = minOf result then some true
    else (binary Int.tdiv (maxOf result) lhs.negate).less rhs.negate
  else if lhs.value < 0 then
    if rhs.value ≠ 0 then lhs.less (binary Int.tdiv (minOf result) rhs) else some false
  else if lhs.value ≠ 0 then rhs.less (binary Int.tdiv (minOf result) lhs) else some false

def multiply (result : IntType) (lhs rhs : Number) : Option (Option Int) :=
  storeUnless result (multiplyRefuses result lhs rhs) (binary (· * ·) lhs rhs)

end Signed

namespace Unsigned

def add (result : IntType) (lhs rhs : Number) : Option (Option Int) :=
  let temp := (binary (· + ·) lhs rhs).castTo result
  storeUnless result (temp.less lhs) temp

def sub (result : IntType) (lhs rhs : Number) : Option (Option Int) :=
  let temp := (binary (· - ·) lhs rhs).castTo result
  storeUnless result (lhs.less temp) temp

def multiply (result : IntType) (lhs rhs : Number) : Option (Option Int) :=
  if lhs.value = 0 ∨ rhs.value = 0 then some (some 0)
  else storeUnless result ((binary Int.tdiv (maxOf result) lhs).less rhs) (binary (· * ·) lhs rhs)

end Unsigned

def int32 : IntType := ⟨true, false⟩

def int64 : IntType := ⟨true, true⟩

namespace Mixed

/-- The operation on `int64_t`, and the comparisons of its result with the limits. -/
def apply (operation : Int → Int → Int) (result : IntType) (lhs rhs : Number) : Option (Option Int) :=
  let temp := binary operation (lhs.castTo int64) (rhs.castTo int64)
  if temp.less (minOf result) = some true then some none else storeUnless result ((maxOf result).less temp) temp

end Mixed

inductive Operation where
  | add
  | sub
  | multiply
  deriving DecidableEq, Repr

def Operation.exact : Operation → Int → Int → Int
  | add, lhs, rhs => lhs + rhs
  | sub, lhs, rhs => lhs - rhs
  | multiply, lhs, rhs => lhs * rhs

/-- `safeAdd`, `safeSub` and `safeMultiply`, by the types of the operands. -/
def safe (operation : Operation) (lhsType rhsType result : IntType) (x y : Int) : Option (Option Int) :=
  let lhs : Number := ⟨lhsType, x, true⟩
  let rhs : Number := ⟨rhsType, y, true⟩
  match lhsType.signed, rhsType.signed with
  | true, true =>
    match operation with
    | .add => Signed.add result lhs rhs
    | .sub => Signed.sub result lhs rhs
    | .multiply => Signed.multiply result lhs rhs
  | false, false =>
    match operation with
    | .add => Unsigned.add result lhs rhs
    | .sub => Unsigned.sub result lhs rhs
    | .multiply => Unsigned.multiply result lhs rhs
  | true, false => Mixed.apply operation.exact result lhs rhs
  | false, true =>
    match operation with
    | .sub => Mixed.apply operation.exact result lhs rhs
    | _ => Mixed.apply operation.exact result rhs lhs

/-- The outcome that the exact result calls for. -/
def exactly (result : IntType) (exact : Int) : Option (Option Int) :=
  some (if result.Holds exact then some exact else none)

section Conversions

variable {type : IntType} {value : Int}

theorem IntType.modulus_cases (type : IntType) : type.modulus = 2 ^ 64 ∨ type.modulus = 2 ^ 32 := by
  unfold modulus
  split
  · exact .inl rfl
  · exact .inr rfl

theorem IntType.max_nonneg (type : IntType) : 0 ≤ type.max ∧ type.min ≤ 0 := by
  have modulus := type.modulus_cases
  unfold max min
  split <;> omega

theorem IntType.convert_eq (holds : type.Holds value) : type.convert value = value := by
  have modulus := type.modulus_cases
  have inside : value - type.min < type.modulus := by
    unfold Holds max min at holds
    unfold min
    split_ifs at * <;> omega
  rw [convert, Int.emod_eq_of_lt (by have := holds.1; omega) inside]
  omega

theorem IntType.makes_of_holds (holds : type.Holds value) : type.Makes value = true := by
  simp [Makes, holds]

theorem storeUnless_iff {refuses : Bool} {number : Number} {exact : Int} :
    storeUnless type (some refuses) number = exactly type exact ↔
      (refuses = false ↔ type.Holds exact) ∧
        (type.Holds exact → number.defined = true ∧ type.convert number.value = exact) := by
  by_cases holds : type.Holds exact <;> cases refuses <;> cases defined : number.defined <;>
    simp [storeUnless, exactly, holds, defined]

theorem IntType.common_comm (first second : IntType) : first.common second = second.common first := by
  obtain ⟨signed, wide⟩ := first
  obtain ⟨secondSigned, secondWide⟩ := second
  cases wide <;> cases secondWide <;> simp [common, Bool.and_comm]

/-- The common type holds what is not negative of both types. -/
theorem IntType.holds_common {first second : IntType} (nonneg : 0 ≤ value)
    (small : value ≤ first.max ∨ value ≤ second.max) :
    (first.common second).Holds value := by
  obtain ⟨signed, wide⟩ := first
  obtain ⟨secondSigned, secondWide⟩ := second
  cases signed <;> cases wide <;> cases secondSigned <;> cases secondWide <;>
    simp [Holds, min, max, modulus, common] at * <;> omega

theorem tdiv_lt_iff {numerator divisor bound : Int} (nonneg : 0 ≤ numerator) (positive : 0 < divisor) :
    numerator.tdiv divisor < bound ↔ numerator < divisor * bound := by
  rw [Int.tdiv_eq_ediv_of_nonneg nonneg, Int.ediv_lt_iff_lt_mul positive, Int.mul_comm]

end Conversions

theorem Number.less_eq_iff {first second : Number} {outcome : Bool} :
    first.less second = some outcome ↔
      first.defined = true ∧ second.defined = true ∧
        ((first.type.common second.type).convert first.value < (first.type.common second.type).convert second.value ↔
          outcome = true) := by
  cases defined : first.defined <;> cases secondDefined : second.defined <;> cases outcome <;>
    simp [less, defined, secondDefined]

/-- The test `max / lhs < rhs`. -/
theorem max_quotient_less {result l r : IntType} {x y : Int} (positive : 0 < x) (holds : x ≤ l.max) (nonneg : 0 ≤ y)
    (rhsHolds : y ≤ r.max) :
    (binary Int.tdiv (maxOf result) ⟨l, x, true⟩).less ⟨r, y, true⟩ = some (decide (result.max < x * y)) := by
  have largest := result.max_nonneg.1
  have quotientNonneg : 0 ≤ result.max.tdiv x := Int.tdiv_nonneg largest positive.le
  have small : result.max.tdiv x ≤ result.max := by
    rw [Int.tdiv_eq_ediv_of_nonneg largest]
    exact Int.ediv_le_self _ largest
  have quotientHolds : (result.common l).Holds (result.max.tdiv x) := IntType.holds_common quotientNonneg (.inl small)
  have made : binary Int.tdiv (maxOf result) ⟨l, x, true⟩ = ⟨result.common l, result.max.tdiv x, true⟩ := by
    simp only [binary, maxOf, IntType.convert_eq (IntType.holds_common largest (.inl le_rfl)),
      IntType.convert_eq (IntType.holds_common positive.le (.inr holds)), IntType.convert_eq quotientHolds,
      IntType.makes_of_holds quotientHolds, Bool.and_true]
  rw [made, less_eq_iff]
  refine ⟨rfl, rfl, ?_⟩
  rw [IntType.convert_eq (IntType.holds_common quotientNonneg (.inl quotientHolds.2)),
    IntType.convert_eq (IntType.holds_common nonneg (.inr rhsHolds)), decide_eq_true_iff]
  exact tdiv_lt_iff largest positive

namespace Signed

/-- A value of a signed type that is not wider than the result's type. -/
structure Operand (result type : IntType) (value : Int) : Prop where
  signed : type.signed = true
  narrow : type.wide = true → result.wide = true
  holds : type.Holds value

/-- Both operands are negative, and one of them has no opposite in its type, although it is not the least value of the
result's type. -/
def NoOpposite (result l r : IntType) (x y : Int) : Prop :=
  x < 0 ∧ y < 0 ∧ (x = l.min ∨ y = r.min) ∧ ¬ (result.signed = true ∧ (x = result.min ∨ y = result.min))

instance (result l r : IntType) (x y : Int) : Decidable (NoOpposite result l r x y) :=
  inferInstanceAs (Decidable (_ ∧ _))

/-- Whether `multiply` refuses: an unsigned result has room for every negative product. -/
def TooLarge (result : IntType) (exact : Int) : Prop := ¬ result.Holds exact ∧ (result.signed = true ∨ 0 ≤ exact)

instance (result : IntType) (exact : Int) : Decidable (TooLarge result exact) := inferInstanceAs (Decidable (_ ∧ _))

section Operands

variable {result l r : IntType} {x y : Int}

theorem tooLarge_of_nonneg (nonneg : 0 ≤ x) : TooLarge result x ↔ result.max < x := by
  have limits := result.max_nonneg
  simp only [TooLarge, IntType.Holds, nonneg, or_true, and_true]
  omega

theorem tooLarge_of_nonpos (nonpos : x ≤ 0) : TooLarge result x ↔ result.signed = true ∧ x < result.min := by
  have limits := result.max_nonneg
  cases signed : result.signed with
  | true =>
    simp only [TooLarge, IntType.Holds, signed, true_or, and_true, true_and]
    omega
  | false =>
    have min : result.min = 0 := by simp [IntType.min, signed]
    simp only [TooLarge, IntType.Holds, signed, min, Bool.false_eq_true, false_or, false_and, iff_false]
    omega

variable (operand : Operand result l x)

include operand

theorem Operand.common_right : l.common result = result := by
  obtain ⟨_, wide⟩ := l
  obtain ⟨signed, narrow, -⟩ := operand
  obtain ⟨resultSigned, resultWide⟩ := result
  cases signed
  cases wide <;> cases resultWide <;> simp_all [IntType.common]

theorem Operand.common_left : result.common l = result := by
  rw [IntType.common_comm]
  exact operand.common_right

theorem Operand.bounds : -(result.modulus / 2) ≤ x ∧ x ≤ result.modulus / 2 - 1 := by
  obtain ⟨signed, narrow, low, high⟩ := operand
  simp only [IntType.min, IntType.max, signed, if_true] at low high
  unfold IntType.modulus at low high ⊢
  split_ifs at * <;> simp_all
  omega

theorem Operand.convert_signed (signed : result.signed = true) : result.convert x = x := by
  have bounds := operand.bounds
  refine IntType.convert_eq ⟨?_, ?_⟩
  · rw [IntType.min, if_pos signed]
    exact bounds.1
  · rw [IntType.max, if_pos signed]
    exact bounds.2

theorem Operand.castTo_eq_min (negative : x < 0) :
    castTo result ⟨l, x, true⟩ = minOf result ↔ result.signed = true ∧ x = result.min := by
  have bounds := operand.bounds
  simp only [castTo, minOf, Number.mk.injEq, true_and, and_true]
  cases signed : result.signed with
  | true => simp [operand.convert_signed signed]
  | false =>
    have half := result.modulus_cases
    have min : result.min = 0 := by simp [IntType.min, signed]
    simp only [IntType.convert, min, Bool.false_eq_true, false_and, iff_false]
    rcases half with half | half <;> rw [half] at bounds ⊢ <;> omega

/-- The opposite of an operand is made unless the operand is the least value of its type. -/
theorem Operand.negate_eq :
    x = l.min ∧ (negate ⟨l, x, true⟩).defined = false ∨
      x ≠ l.min ∧ negate ⟨l, x, true⟩ = ⟨l, -x, true⟩ ∧ -x ≤ l.max := by
  obtain ⟨signed, -, low, high⟩ := operand
  have min : l.min = -(l.modulus / 2) := by simp [IntType.min, signed]
  have max : l.max = l.modulus / 2 - 1 := by simp [IntType.max, signed]
  by_cases least : x = l.min
  · refine .inl ⟨least, ?_⟩
    have outside : ¬ l.Holds (-x) := fun holds => by
      have := holds.2
      omega
    simp [negate, IntType.Makes, signed, outside]
  · have holds : l.Holds (-x) := ⟨by omega, by omega⟩
    exact .inr ⟨least, by simp [negate, IntType.makes_of_holds holds, IntType.convert_eq holds], holds.2⟩

variable (rhsOperand : Operand result r y)

include rhsOperand

theorem Operand.common : (l.common r).signed = true ∧ Operand (l.common r) l x ∧ Operand (l.common r) r y := by
  obtain ⟨signed, narrow, holds⟩ := operand
  obtain ⟨rhsSigned, rhsNarrow, rhsHolds⟩ := rhsOperand
  refine ⟨?_, ⟨signed, ?_, holds⟩, ⟨rhsSigned, ?_, rhsHolds⟩⟩ <;> unfold IntType.common <;> split_ifs <;> simp_all

/-- The last operation, in the common type of the operands. -/
theorem binary_eq (operation : Int → Int → Int) :
    binary operation ⟨l, x, true⟩ ⟨r, y, true⟩ =
      ⟨l.common r, (l.common r).convert (operation x y), decide ((l.common r).Holds (operation x y))⟩ := by
  obtain ⟨signed, first, second⟩ := operand.common rhsOperand
  simp only [binary, first.convert_signed signed, second.convert_signed signed, IntType.Makes, signed, Bool.not_true,
    Bool.false_or, Bool.true_and]

/-- An operation is exact if it refuses just what cannot be stored, and makes the rest in a type that holds it. -/
theorem exact_iff (operation : Int → Int → Int) {refuses : Bool} :
    storeUnless result (some refuses) (binary operation ⟨l, x, true⟩ ⟨r, y, true⟩) = exactly result (operation x y) ↔
      (refuses = false ↔ result.Holds (operation x y)) ∧
        (result.Holds (operation x y) → (l.common r).Holds (operation x y)) := by
  rw [binary_eq operand rhsOperand operation, storeUnless_iff]
  refine and_congr_right fun _ => imp_congr_right fun holds => ?_
  rw [decide_eq_true_iff]
  refine and_iff_left_of_imp fun made => ?_
  rw [IntType.convert_eq made, IntType.convert_eq holds]

theorem addRefuses_eq :
    addRefuses result ⟨l, x, true⟩ ⟨r, y, true⟩ = some (decide (result.signed = true ∧ ¬ result.Holds (x + y))) := by
  have bounds := operand.bounds
  have rhsBounds := rhsOperand.bounds
  have first := operand.common_left
  have second := operand.common_right
  have third := rhsOperand.common_left
  have fourth := rhsOperand.common_right
  rw [addRefuses]
  obtain ⟨signed, wide⟩ := result
  by_cases nonneg : x ≥ 0 <;> by_cases rhsNonneg : y ≥ 0 <;>
    simp [signsMatch, nonneg, rhsNonneg, less_eq_iff, binary, maxOf, minOf, castTo, negate, first, second, third,
      fourth] <;>
    cases signed <;> cases wide <;>
    simp [IntType.Makes, IntType.Holds, IntType.min, IntType.max, IntType.modulus, IntType.convert]
      at bounds rhsBounds ⊢ <;>
    omega

theorem subRefuses_eq :
    subRefuses result ⟨l, x, true⟩ ⟨r, y, true⟩ =
      some (decide (result.signed = true ∧ (¬ result.Holds (x - y) ∨ x - y = result.min))) := by
  have bounds := operand.bounds
  have rhsBounds := rhsOperand.bounds
  have first := operand.common_left
  have second := rhsOperand.common_left
  rw [subRefuses]
  obtain ⟨signed, wide⟩ := result
  by_cases nonneg : x ≥ 0 <;> by_cases rhsNonneg : y ≥ 0 <;>
    simp [signsMatch, nonneg, rhsNonneg, less_eq_iff, binary, maxOf, first, second] <;>
    cases signed <;> cases wide <;>
    simp [IntType.Makes, IntType.Holds, IntType.min, IntType.max, IntType.modulus, IntType.convert]
      at bounds rhsBounds ⊢ <;>
    omega

/-- The test `rhs < min / lhs`. -/
theorem less_min_quotient (positive : 0 < x) (negative : y < 0) :
    less ⟨r, y, true⟩ (binary Int.tdiv (minOf result) ⟨l, x, true⟩) = some (decide (TooLarge result (x * y))) := by
  have bounds := operand.bounds
  have rhsBounds := rhsOperand.bounds
  have limits := result.max_nonneg
  have half := result.modulus_cases
  have product : x * y ≤ 0 := (Int.mul_neg_of_pos_of_neg positive negative).le
  have converted : result.convert x = x := IntType.convert_eq
    ⟨by omega, bounds.2.trans (by unfold IntType.max; split <;> omega)⟩
  have least : result.convert result.min = result.min := IntType.convert_eq ⟨le_rfl, by omega⟩
  cases signed : result.signed with
  | true =>
    have min : result.min = -(result.modulus / 2) := by simp [IntType.min, signed]
    have quotient : result.min.tdiv x = -((result.modulus / 2) / x) := by
      rw [min, Int.neg_tdiv, Int.tdiv_eq_ediv_of_nonneg (by omega)]
    have small : result.modulus / 2 / x ≤ result.modulus / 2 := Int.ediv_le_self _ (by omega)
    have quotientNonneg : 0 ≤ result.modulus / 2 / x := Int.ediv_nonneg (by omega) positive.le
    have holds : result.Holds (-((result.modulus / 2) / x)) := ⟨by omega, by omega⟩
    have divided := Int.ediv_lt_iff_lt_mul positive (a := result.modulus / 2) (b := -y)
    rw [less_eq_iff]
    simp only [binary, minOf, operand.common_left, rhsOperand.common_right, converted, least, quotient,
      IntType.convert_eq holds, rhsOperand.convert_signed signed, IntType.makes_of_holds holds, Bool.and_true, true_and,
      decide_eq_true_iff]
    rw [tooLarge_of_nonpos product, min, lt_neg, divided, Int.neg_mul, lt_neg, Int.mul_comm]
    simp [signed]
  | false =>
    have min : result.min = 0 := by simp [IntType.min, signed]
    have wrapped : 0 ≤ y % result.modulus := Int.emod_nonneg _ (by omega)
    rw [less_eq_iff]
    simp only [binary, minOf, operand.common_left, rhsOperand.common_right, IntType.Makes, signed,
      decide_eq_true_iff, tooLarge_of_nonpos product, min]
    simp [IntType.convert, min, wrapped]

theorem multiplyRefuses_negative (negative : x < 0) (rhsNegative : y < 0) :
    multiplyRefuses result ⟨l, x, true⟩ ⟨r, y, true⟩ =
      if NoOpposite result l r x y then none else some (decide (TooLarge result (x * y))) := by
  have product : 0 ≤ x * y := Int.mul_nonneg_of_nonpos_of_nonpos negative.le rhsNegative.le
  have refused := or_congr (operand.castTo_eq_min negative) (rhsOperand.castTo_eq_min rhsNegative)
  rw [← and_or_left] at refused
  simp only [multiplyRefuses, signsMatch, Int.not_le.mpr negative, Int.not_le.mpr rhsNegative, decide_false, BEq.rfl,
    if_true, if_false, refused]
  by_cases least : result.signed = true ∧ (x = result.min ∨ y = result.min)
  · have bound : result.max < x * y := by
      have half := result.modulus_cases
      have min : result.min = -(result.modulus / 2) := by simp [IntType.min, least.1]
      have max : result.max = result.modulus / 2 - 1 := by simp [IntType.max, least.1]
      rcases least.2 with equal | equal <;> rw [min] at equal <;> nlinarith
    rw [if_pos least, if_neg fun bad => bad.2.2.2 least, decide_eq_true ((tooLarge_of_nonneg product).mpr bound)]
  · rw [if_neg least]
    rcases operand.negate_eq with ⟨lowest, overflow⟩ | ⟨notLowest, negated, fits⟩
    · rw [if_pos ⟨negative, rhsNegative, .inl lowest, least⟩]
      simp [less, binary, overflow]
    · rcases rhsOperand.negate_eq with ⟨lowest, overflow⟩ | ⟨rhsNotLowest, rhsNegated, rhsFits⟩
      · rw [if_pos ⟨negative, rhsNegative, .inr lowest, least⟩]
        simp [less, overflow]
      · rw [negated, rhsNegated, max_quotient_less (by omega) fits (by omega) rhsFits, Int.neg_mul_neg,
          if_neg fun bad => bad.2.2.1.elim notLowest rhsNotLowest]
        simp only [tooLarge_of_nonneg product]

theorem multiplyRefuses_eq :
    multiplyRefuses result ⟨l, x, true⟩ ⟨r, y, true⟩ =
      if NoOpposite result l r x y then none else some (decide (TooLarge result (x * y))) := by
  have zero : ¬ TooLarge result 0 := by
    rw [tooLarge_of_nonneg le_rfl]
    exact Int.not_lt.mpr result.max_nonneg.1
  rcases Int.lt_or_le x 0 with negative | nonneg
  · rcases Int.lt_or_le y 0 with rhsNegative | rhsNonneg
    · exact multiplyRefuses_negative operand rhsOperand negative rhsNegative
    · rw [if_neg fun bad => absurd bad.2.1 (Int.not_lt.mpr rhsNonneg)]
      rcases rhsNonneg.eq_or_lt with rfl | positive
      · simp [multiplyRefuses, signsMatch, negative, zero]
      · rw [Int.mul_comm, ← less_min_quotient rhsOperand operand positive negative]
        simp [multiplyRefuses, signsMatch, negative, positive.ne', positive.le]
  · rw [if_neg fun bad => absurd bad.1 (Int.not_lt.mpr nonneg)]
    rcases nonneg.eq_or_lt with rfl | positive
    · simp [multiplyRefuses, zero]
    · rcases Int.lt_or_le y 0 with rhsNegative | rhsNonneg
      · rw [← less_min_quotient operand rhsOperand positive rhsNegative]
        simp [multiplyRefuses, signsMatch, nonneg, positive.ne', Int.not_lt.mpr nonneg, Int.not_le.mpr rhsNegative]
      · have test := @max_quotient_less result l r x y positive operand.holds.2 rhsNonneg rhsOperand.holds.2
        simp only [tooLarge_of_nonneg (Int.mul_nonneg nonneg rhsNonneg), ← test]
        simp [multiplyRefuses, signsMatch, nonneg, positive.ne', rhsNonneg]

end Operands

end Signed

namespace Unsigned

/-- A value of an unsigned type that is not wider than the result's type. -/
structure Operand (result type : IntType) (value : Int) : Prop where
  unsigned : type.signed = false
  narrow : type.wide = true → result.wide = true
  holds : type.Holds value

variable {result l r : IntType} {x y : Int} (operand : Operand result l x)

include operand

theorem Operand.nonneg : 0 ≤ x := by
  have low := operand.holds.1
  rwa [IntType.min, operand.unsigned] at low

variable (rhsOperand : Operand result r y)

include rhsOperand

theorem Operand.common_unsigned : (l.common r).signed = false := by
  unfold IntType.common
  split_ifs
  · rw [operand.unsigned, rhsOperand.unsigned]
    rfl
  · exact operand.unsigned
  · exact rhsOperand.unsigned

/-- The result is made in the type of the operands, and wraps there. -/
theorem binary_eq (operation : Int → Int → Int) :
    binary operation ⟨l, x, true⟩ ⟨r, y, true⟩ = ⟨l.common r, (l.common r).convert (operation x y), true⟩ := by
  simp only [binary, IntType.convert_eq (IntType.holds_common operand.nonneg (.inl operand.holds.2)),
    IntType.convert_eq (IntType.holds_common rhsOperand.nonneg (.inr rhsOperand.holds.2)), IntType.Makes,
    operand.common_unsigned rhsOperand, Bool.not_false, Bool.true_or, Bool.and_true]

/-- The test notices that the sum wrapped in the operands' type. -/
theorem add_iff :
    add result ⟨l, x, true⟩ ⟨r, y, true⟩ = exactly result (x + y) ↔
      ((l.common r).Holds (x + y) ↔ result.Holds (x + y)) ∨ result.signed = true ∧ l.wide = false ∧ r.wide = true := by
  simp only [add, binary_eq operand rhsOperand (· + ·), castTo, less, Bool.and_self, if_true, storeUnless_iff]
  obtain ⟨_, wide⟩ := l
  obtain ⟨_, rhsWide⟩ := r
  obtain ⟨signed, resultWide⟩ := result
  obtain ⟨⟨⟩, narrow, holds⟩ := operand
  obtain ⟨⟨⟩, rhsNarrow, rhsHolds⟩ := rhsOperand
  cases wide <;> cases rhsWide <;> cases resultWide <;> cases signed <;>
    simp [IntType.Holds, IntType.min, IntType.max, IntType.modulus, IntType.common, IntType.convert] at * <;> omega

theorem sub_iff :
    sub result ⟨l, x, true⟩ ⟨r, y, true⟩ = exactly result (x - y) ↔
      (0 ≤ x - y ↔ result.Holds (x - y)) ∨ result.signed = true ∧ l.wide = false ∧ r.wide = true := by
  simp only [sub, binary_eq operand rhsOperand (· - ·), castTo, less, Bool.and_self, if_true, storeUnless_iff]
  obtain ⟨_, wide⟩ := l
  obtain ⟨_, rhsWide⟩ := r
  obtain ⟨signed, resultWide⟩ := result
  obtain ⟨⟨⟩, narrow, holds⟩ := operand
  obtain ⟨⟨⟩, rhsNarrow, rhsHolds⟩ := rhsOperand
  cases wide <;> cases rhsWide <;> cases resultWide <;> cases signed <;>
    simp [IntType.Holds, IntType.min, IntType.max, IntType.modulus, IntType.common, IntType.convert] at * <;> omega

/-- Only the last product can wrap. -/
theorem multiply_iff :
    multiply result ⟨l, x, true⟩ ⟨r, y, true⟩ = exactly result (x * y) ↔
      (result.Holds (x * y) → (l.common r).Holds (x * y)) := by
  have product : 0 ≤ x * y := Int.mul_nonneg operand.nonneg rhsOperand.nonneg
  have limits := result.max_nonneg
  by_cases zero : x = 0 ∨ y = 0
  · have nothing : x * y = 0 := by rcases zero with rfl | rfl <;> simp
    have holds : (l.common r).Holds 0 := IntType.holds_common le_rfl (.inl l.max_nonneg.1)
    rw [multiply, if_pos zero, nothing, exactly, if_pos ⟨limits.2, limits.1⟩]
    exact iff_of_true rfl fun _ => holds
  · have positive : 0 < x := by
      have := operand.nonneg
      omega
    rw [multiply, if_neg zero, max_quotient_less positive operand.holds.2 rhsOperand.nonneg rhsOperand.holds.2,
      binary_eq operand rhsOperand (· * ·), storeUnless_iff]
    have unsigned := operand.common_unsigned rhsOperand
    generalize l.common r = type at unsigned ⊢
    generalize x * y = exact at product ⊢
    have tested : decide (result.max < exact) = false ↔ result.Holds exact := by
      rw [decide_eq_false_iff_not, Int.not_lt]
      exact (and_iff_right (limits.2.trans product)).symm
    rw [and_iff_right tested]
    refine imp_congr_right fun holds => (and_iff_right rfl).trans ⟨fun stored => ?_, fun fits => ?_⟩
    · have half := type.modulus_cases
      have residue := Int.emod_lt_of_pos exact (show 0 < type.modulus by omega)
      have residueNonneg := Int.emod_nonneg exact (show type.modulus ≠ 0 by omega)
      have smaller : exact % type.modulus ≤ exact := by
        have quotient := Int.ediv_nonneg product (show 0 ≤ type.modulus by omega)
        have split := Int.mul_ediv_add_emod exact type.modulus
        nlinarith
      have converted : type.convert exact = exact % type.modulus := by simp [IntType.convert, IntType.min, unsigned]
      rw [converted, IntType.convert_eq ⟨limits.2.trans residueNonneg, smaller.trans holds.2⟩] at stored
      simp only [IntType.Holds, IntType.min, IntType.max, unsigned, Bool.false_eq_true, if_false]
      omega
    · rw [IntType.convert_eq fits, IntType.convert_eq holds]

end Unsigned

namespace Mixed

/-- One `int` and one `unsigned`, and any result. -/
theorem apply_iff {result l r : IntType} {operation : Int → Int → Int} {x y : Int} (holds : int64.Holds x)
    (rhsHolds : int64.Holds y) (exactHolds : int64.Holds (operation x y)) :
    apply operation result ⟨l, x, true⟩ ⟨r, y, true⟩ = exactly result (operation x y) ↔
      (result = ⟨false, true⟩ → 0 ≤ operation x y) := by
  have made :
      binary operation (castTo int64 ⟨l, x, true⟩) (castTo int64 ⟨r, y, true⟩) = ⟨int64, operation x y, true⟩ := by
    simp only [binary, castTo, show int64.common int64 = int64 from rfl, IntType.convert_eq holds,
      IntType.convert_eq rhsHolds, IntType.convert_eq exactHolds, IntType.makes_of_holds exactHolds, Bool.and_true]
  simp only [apply, made]
  generalize operation x y = exact at exactHolds ⊢
  have tested : ∀ {refuses refusesToo : Bool} {number : Number}, (if some refuses = some true then some none
      else storeUnless result (some refusesToo) number) = storeUnless result (some (refuses || refusesToo)) number := by
    intro refuses refusesToo number
    cases refuses <;> rfl
  simp only [less, minOf, maxOf, Bool.and_self, if_true, tested, storeUnless_iff]
  obtain ⟨signed, wide⟩ := result
  cases signed <;> cases wide <;>
    simp [int64, IntType.Holds, IntType.min, IntType.max, IntType.modulus, IntType.common, IntType.convert]
      at exactHolds ⊢ <;>
    omega

end Mixed

/-- An instantiation that exists, at values of its types. Mixed operands are an `int` and an `unsigned`. -/
structure Instantiation (l r result : IntType) (x y : Int) : Prop where
  narrow : l.wide = true → result.wide = true
  rhsNarrow : r.wide = true → result.wide = true
  holds : l.Holds x
  rhsHolds : r.Holds y
  mixed : l.signed ≠ r.signed → l.wide = false ∧ r.wide = false

/-- Where the code is exact. No result may be lost in the operands' common type; an unsigned result of signed operands
must not be negative; and `sub` must not reach the least value. -/
def Faithful (operation : Operation) (l r result : IntType) (x y : Int) : Prop :=
  let exact := operation.exact x y
  if l.signed ≠ r.signed then result = ⟨false, true⟩ → 0 ≤ exact
  else if l.signed then
    match operation with
    | .add => if result.Holds exact then (l.common r).Holds exact else result.signed = true
    | .sub =>
      if result.Holds exact then (l.common r).Holds exact ∧ ¬ (result.signed = true ∧ exact = result.min)
      else result.signed = true
    | .multiply =>
      ¬ Signed.NoOpposite result l r x y ∧
        if result.Holds exact then (l.common r).Holds exact else result.signed = true ∨ 0 ≤ exact
  else
    match operation with
    | .add => ((l.common r).Holds exact ↔ result.Holds exact) ∨ result.signed = true ∧ l.wide = false ∧ r.wide = true
    | .sub => (0 ≤ exact ↔ result.Holds exact) ∨ result.signed = true ∧ l.wide = false ∧ r.wide = true
    | .multiply => result.Holds exact → (l.common r).Holds exact

theorem int64_holds {value : Int} : int64.Holds value ↔ -2 ^ 63 ≤ value ∧ value < 2 ^ 63 := by
  rw [IntType.Holds, show int64.min = -2 ^ 63 from rfl, show int64.max = 2 ^ 63 - 1 from rfl, Int.le_sub_one_iff]

section Results

variable {result l r : IntType} {x y : Int}

theorem Signed.faithful_iff (operation : Operation) (operand : Signed.Operand result l x)
    (rhsOperand : Signed.Operand result r y) :
    safe operation l r result x y = exactly result (operation.exact x y) ↔ Faithful operation l r result x y := by
  cases operation with
  | add =>
    simp only [safe, Faithful, operand.signed, rhsOperand.signed, ne_eq, not_true, if_true, if_false, Operation.exact,
      Signed.add, Signed.addRefuses_eq operand rhsOperand, Signed.exact_iff operand rhsOperand (· + ·)]
    by_cases holds : result.Holds (x + y) <;> simp [holds]
  | sub =>
    simp only [safe, Faithful, operand.signed, rhsOperand.signed, ne_eq, not_true, if_true, if_false, Operation.exact,
      Signed.sub, Signed.subRefuses_eq operand rhsOperand, Signed.exact_iff operand rhsOperand (· - ·)]
    by_cases holds : result.Holds (x - y) <;> simp [holds, and_comm]
  | multiply =>
    simp only [safe, Faithful, operand.signed, rhsOperand.signed, ne_eq, not_true, if_true, if_false,
      Operation.exact, Signed.multiply, Signed.multiplyRefuses_eq operand rhsOperand]
    by_cases opposite : Signed.NoOpposite result l r x y
    · rw [if_pos opposite]
      exact iff_of_false nofun fun both => both.1 opposite
    · rw [if_neg opposite, Signed.exact_iff operand rhsOperand (· * ·), and_iff_right opposite]
      by_cases holds : result.Holds (x * y) <;> simp [holds, Signed.TooLarge, or_iff_not_imp_left]

section Signed

-- Operands that meet in the type of the result.
variable (signed : result.signed = true) (meet : l.common r = result) (operand : Signed.Operand result l x)
  (rhsOperand : Signed.Operand result r y)

include signed meet operand rhsOperand

theorem Signed.safe_add :
    safe .add l r result x y = exactly result (x + y) :=
  (Signed.faithful_iff .add operand rhsOperand).mpr
    (by simp [Faithful, operand.signed, rhsOperand.signed, meet, signed])

theorem Signed.safe_multiply (nonneg : 0 ≤ y) :
    safe .multiply l r result x y = exactly result (x * y) :=
  (Signed.faithful_iff .multiply operand rhsOperand).mpr (by
    simp [Faithful, operand.signed, rhsOperand.signed, meet, signed, Signed.NoOpposite, Int.not_lt.mpr nonneg])

/-- The least value of the type is refused although it could be stored. -/
theorem Signed.safe_sub :
    safe .sub l r result x y = some (if result.Holds (x - y) ∧ x - y ≠ result.min then some (x - y) else none) := by
  simp only [safe, operand.signed, rhsOperand.signed, Signed.sub, Signed.subRefuses_eq operand rhsOperand,
    Signed.binary_eq operand rhsOperand (· - ·), meet, signed, true_and]
  by_cases holds : result.Holds (x - y) <;> by_cases least : x - y = result.min <;>
    simp [storeUnless, holds, least, IntType.convert_eq]

end Signed

theorem Unsigned.faithful_iff (operation : Operation) (operand : Unsigned.Operand result l x)
    (rhsOperand : Unsigned.Operand result r y) :
    safe operation l r result x y = exactly result (operation.exact x y) ↔ Faithful operation l r result x y := by
  cases operation <;>
    simp only [safe, Faithful, operand.unsigned, rhsOperand.unsigned, ne_eq, not_true, Bool.false_eq_true, if_false,
      Operation.exact]
  · exact Unsigned.add_iff operand rhsOperand
  · exact Unsigned.sub_iff operand rhsOperand
  · exact Unsigned.multiply_iff operand rhsOperand

/-- The operations on an `int` and an `unsigned` fit `int64_t`. -/
theorem Mixed.faithful_iff (operation : Operation) (mixed : l.signed ≠ r.signed)
    (narrow : l.wide = false ∧ r.wide = false) (holds : l.Holds x) (rhsHolds : r.Holds y) :
    safe operation l r result x y = exactly result (operation.exact x y) ↔ Faithful operation l r result x y := by
  have min : int64.min = -2 ^ 63 := rfl
  have max : int64.max = 2 ^ 63 - 1 := rfl
  have bounds : (-2 ^ 31 ≤ x ∧ x < 2 ^ 31) ∧ 0 ≤ y ∧ y < 2 ^ 32 ∨ (-2 ^ 31 ≤ y ∧ y < 2 ^ 31) ∧ 0 ≤ x ∧ x < 2 ^ 32 := by
    obtain ⟨signed, _⟩ := l
    obtain ⟨rhsSigned, _⟩ := r
    obtain ⟨rfl, rfl⟩ := narrow
    cases signed <;> cases rhsSigned <;> simp [IntType.Holds, IntType.min, IntType.max, IntType.modulus] at * <;> omega
  have xHolds : int64.Holds x := ⟨by omega, by omega⟩
  have yHolds : int64.Holds y := ⟨by omega, by omega⟩
  have product : int64.Holds (x * y) := by
    rcases bounds with ⟨⟨low, high⟩, nonneg, small⟩ | ⟨⟨low, high⟩, nonneg, small⟩
    · exact ⟨by nlinarith only [min, low, nonneg, small], by nlinarith only [max, high, nonneg, small]⟩
    · exact ⟨by nlinarith only [min, low, nonneg, small], by nlinarith only [max, high, nonneg, small]⟩
  have exactHolds : int64.Holds (operation.exact x y) := by
    cases operation with
    | add => exact ⟨by simp only [Operation.exact]; omega, by simp only [Operation.exact]; omega⟩
    | sub => exact ⟨by simp only [Operation.exact]; omega, by simp only [Operation.exact]; omega⟩
    | multiply => exact product
  have condition : Faithful operation l r result x y ↔ (result = ⟨false, true⟩ → 0 ≤ operation.exact x y) := by
    simp only [Faithful, if_pos mixed]
  rw [condition]
  cases signed : l.signed with
  | true =>
    have rhsSigned : r.signed = false := by simpa [signed] using mixed.symm
    simp only [safe, signed, rhsSigned]
    exact apply_iff xHolds yHolds exactHolds
  | false =>
    have rhsSigned : r.signed = true := by simpa [signed] using mixed.symm
    -- `add` and `multiply` exchange their operands.
    cases operation with
    | add =>
      have sum : Operation.add.exact x y = Operation.add.exact y x := Int.add_comm x y
      simp only [safe, signed, rhsSigned, sum] at exactHolds ⊢
      exact apply_iff yHolds xHolds exactHolds
    | sub =>
      simp only [safe, signed, rhsSigned]
      exact apply_iff xHolds yHolds exactHolds
    | multiply =>
      have commuted : Operation.multiply.exact x y = Operation.multiply.exact y x := Int.mul_comm x y
      simp only [safe, signed, rhsSigned, commuted] at exactHolds ⊢
      exact apply_iff yHolds xHolds exactHolds

/-- Every instantiation returns true just if the exact result can be represented, stores it then and makes no signed
overflow, precisely under the condition. -/
theorem safe_exact_iff (operation : Operation) (instantiation : Instantiation l r result x y) :
    safe operation l r result x y = exactly result (operation.exact x y) ↔ Faithful operation l r result x y := by
  obtain ⟨narrow, rhsNarrow, holds, rhsHolds, mixed⟩ := instantiation
  by_cases same : l.signed = r.signed
  · cases signed : l.signed with
    | true => exact Signed.faithful_iff operation ⟨signed, narrow, holds⟩ ⟨same ▸ signed, rhsNarrow, rhsHolds⟩
    | false => exact Unsigned.faithful_iff operation ⟨signed, narrow, holds⟩ ⟨same ▸ signed, rhsNarrow, rhsHolds⟩
  · exact Mixed.faithful_iff operation same (mixed same) holds rhsHolds

/-- `INT_MIN * 3` for an `int64_t` and a result of the same type. -/
theorem safe_exact_product :
    safe .multiply ⟨true, false⟩ ⟨true, true⟩ ⟨true, true⟩ (-2147483648) 3 = some (some (-6442450944)) :=
  (safe_exact_iff .multiply ⟨by decide, by decide, by decide, by decide, by decide⟩).mpr (by
    simp only [Faithful]
    decide)

/-- `INT_MIN - 0` is refused; two `int`s are added in `int` although the result is an `int64_t`; and `-INT_MIN` is made.
-/
theorem safe_diverges :
    safe .sub ⟨true, false⟩ ⟨true, false⟩ ⟨true, false⟩ (-2147483648) 0 = some none ∧
    safe .add ⟨true, false⟩ ⟨true, false⟩ ⟨true, true⟩ 2147483647 1 = none ∧
    safe .multiply ⟨true, false⟩ ⟨true, true⟩ ⟨true, true⟩ (-2147483648) (-1) = none := by
  decide

end Results

end WebNode.Wtf.CheckedOperations
