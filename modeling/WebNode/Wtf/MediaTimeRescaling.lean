import Mathlib.Algebra.Order.Field.Rat
import Mathlib.Algebra.Order.Ring.Abs
import Mathlib.Data.Rat.Cast.Order
import Mathlib.Tactic.FieldSimp
import Mathlib.Tactic.Ring
import WebNode.Wtf.MediaTime

/-!
# Rescaling of media times

The whole and the fractional part are rescaled apart, and together are the truncated product. Only the
product of the whole part is checked.
-/

namespace WebNode.Wtf.MediaTime

open CheckedOperations

/-- The exact value of a finite time. -/
def seconds (self : MediaTime) : ℚ := self.timeValue / self.timeScale

section Truncation

variable {value : Int} {scale : Nat}

/-- Both parts have the sign of the value, so that they are truncated alike. -/
theorem tdiv_parts (positive : 0 < scale) (target : Nat) :
    value.tdiv scale * target + (value.tmod scale * target).tdiv scale = (value * target).tdiv scale := by
  obtain ⟨size, sign⟩ := value.eq_nat_or_neg
  have sizes : size / scale * target + size % scale * target / scale = size * target / scale := by
    have parts : size * target = size % scale * target + size / scale * target * scale := by
      calc size * target = (size % scale + scale * (size / scale)) * target := by rw [Nat.mod_add_div]
        _ = size % scale * target + size / scale * target * scale := by ring
    rw [parts, Nat.add_mul_div_right _ _ positive, Nat.add_comm]
  have cast := congrArg (Nat.cast : Nat → Int) sizes
  simp only [Int.natCast_add, Int.natCast_mul, Int.ofNat_tdiv, Int.ofNat_tmod] at cast
  rcases sign with rfl | rfl
  · exact cast
  · rw [Int.neg_tdiv, Int.neg_tmod, neg_mul, neg_mul, neg_mul, Int.neg_tdiv, Int.neg_tdiv, ← cast]
    ring

theorem tdiv_tdiv_cancel {target : Nat} (positive : 0 < target) :
    ((value * target).tdiv scale).tdiv target = value.tdiv scale := by
  obtain ⟨size, sign⟩ := value.eq_nat_or_neg
  have sizes : size * target / scale / target = size / scale := by
    rw [Nat.div_div_eq_div_mul, Nat.mul_div_mul_right _ _ positive]
  have cast := congrArg (Nat.cast : Nat → Int) sizes
  simp only [Int.natCast_mul, Int.ofNat_tdiv] at cast
  rcases sign with rfl | rfl
  · exact cast
  · rw [neg_mul, Int.neg_tdiv, Int.neg_tdiv, Int.neg_tdiv, cast]

theorem fits_tdiv_mul (fits : int64.Holds value) : int64.Holds (value.tdiv scale * scale) := by
  obtain ⟨size, sign⟩ := value.eq_nat_or_neg
  have cast := Int.ofNat_le.mpr (Nat.div_mul_le_self size scale)
  rw [Int.natCast_mul, Int.ofNat_tdiv] at cast
  have nonneg : 0 ≤ (size : Int).tdiv scale * scale := by rw [← Int.ofNat_tdiv]; positivity
  rw [int64_holds] at fits ⊢
  rcases sign with rfl | rfl
  · omega
  · rw [Int.neg_tdiv, neg_mul]
    omega

/-- A remainder times a scale is less than 2^62. -/
theorem fits_tmod_mul {factor : Nat} (positive : 0 < scale) (bounded : scale ≤ maximumTimeScale)
    (factorBounded : factor ≤ maximumTimeScale) : int64.Holds (value.tmod scale * factor) := by
  have above : value.tmod scale < scale := Int.tmod_lt_of_pos value (by omega)
  have below : -(scale : Int) < value.tmod scale := Int.lt_tmod_of_pos value (by omega)
  have largest : (scale : Int) * factor ≤ maximumTimeScale * maximumTimeScale := by
    exact_mod_cast Nat.mul_le_mul bounded factorBounded
  have high : value.tmod scale * factor ≤ scale * factor := by gcongr
  have low : -(scale : Int) * factor ≤ value.tmod scale * factor := by gcongr
  rw [neg_mul] at low
  have small : (maximumTimeScale : Int) * maximumTimeScale < 2 ^ 63 := by decide
  exact int64_holds.mpr ⟨by omega, by omega⟩

theorem abs_tdiv_sub_lt (positive : 0 < scale) : |((value.tdiv scale : Int) : ℚ) - value / scale| < 1 := by
  have scalePositive : (0 : ℚ) < scale := by exact_mod_cast positive
  have parts : (value : ℚ) = (value.tmod scale : Int) + scale * (value.tdiv scale : Int) := by
    exact_mod_cast (Int.tmod_add_mul_tdiv value scale).symm
  have below : ((value.tmod scale : Int) : ℚ) < scale := by exact_mod_cast Int.tmod_lt_of_pos value (by omega)
  have above : -(scale : ℚ) < (value.tmod scale : Int) := by exact_mod_cast Int.lt_tmod_of_pos value (by omega)
  have difference : ((value.tdiv scale : Int) : ℚ) - value / scale = -((value.tmod scale : Int) : ℚ) / scale := by
    field_simp
    linarith
  rw [difference, abs_lt, lt_div_iff₀ scalePositive, div_lt_iff₀ scalePositive]
  exact ⟨by linarith, by linarith⟩

/-- A smaller multiple lies between 0 and the larger one. -/
theorem fits_tdiv_of_le {small large : Nat} (positive : 0 < scale) (smaller : small ≤ large)
    (fits : int64.Holds ((value * large).tdiv scale)) : int64.Holds ((value * small).tdiv scale) := by
  have scalePositive : (0 : Int) < scale := by omega
  have cast : (small : Int) ≤ large := by exact_mod_cast smaller
  have low : (0 : Int) ≤ small := Int.natCast_nonneg small
  rw [int64_holds] at fits ⊢
  rcases le_total 0 value with sign | sign
  · have nonneg := Int.tdiv_nonneg (mul_nonneg sign low) scalePositive.le
    have le := Int.tdiv_le_tdiv scalePositive (mul_le_mul_of_nonneg_left cast sign)
    omega
  · have nonpos := Int.tdiv_le_tdiv scalePositive (mul_nonpos_of_nonpos_of_nonneg sign low)
    rw [Int.zero_tdiv] at nonpos
    have le := Int.tdiv_le_tdiv scalePositive (mul_le_mul_of_nonpos_left cast sign)
    omega

end Truncation

section Levels

/-- How often a scale is halved until the whole part fits. -/
structure Level (wholePart : Int) (scale halvings : Nat) : Prop where
  fits : int64.Holds (wholePart * (scale / 2 ^ halvings : Nat))
  first : ∀ fewer < halvings, ¬ int64.Holds (wholePart * (scale / 2 ^ fewer : Nat))

variable {wholePart : Int} {scale halvings : Nat}

theorem holds_scale (bounded : scale ≤ maximumTimeScale) : int32.Holds scale := by
  rw [maximumTimeScale] at bounded
  rw [IntType.Holds, show int32.min = -2 ^ 31 from rfl, show int32.max = 2 ^ 31 - 1 from rfl]
  omega

theorem Level.unique {others : Nat} (level : Level wholePart scale halvings) (other : Level wholePart scale others) :
    halvings = others := by
  rcases Nat.lt_trichotomy halvings others with fewer | same | more
  · exact absurd level.fits (other.first _ fewer)
  · exact same
  · exact absurd other.fits (level.first _ more)

theorem scaleWholePart_eq (fits : int64.Holds wholePart) (bounded : scale ≤ maximumTimeScale) :
    scaleWholePart wholePart scale =
      if int64.Holds (wholePart * scale) then some (scale,
      wholePart * scale) else scaleWholePart wholePart (scale / 2) := by
  have product : safe .multiply int64 int32 int64 wholePart scale = exactly int64 (wholePart * scale) :=
    Signed.safe_multiply rfl rfl ⟨rfl, by decide, fits⟩ ⟨rfl, by decide, holds_scale bounded⟩ (by simp)
  rw [scaleWholePart, product, exactly]
  by_cases whole : int64.Holds (wholePart * scale)
  · rw [if_pos whole, if_pos whole]
  · have positive : scale ≠ 0 := by
      rintro rfl
      simp [int64_holds] at whole
    simp only [if_neg whole, dif_neg positive]

theorem halved (scale count : Nat) : scale / 2 ^ (count + 1) = scale / 2 / 2 ^ count := by
  rw [Nat.div_div_eq_div_mul, Nat.pow_succ']

theorem level_succ_iff : Level wholePart scale (halvings + 1) ↔
    ¬ int64.Holds (wholePart * scale) ∧ Level wholePart (scale / 2) halvings := by
  constructor
  · intro level
    refine ⟨by simpa using level.first 0 (by omega), halved scale halvings ▸ level.fits, fun fewer less => ?_⟩
    rw [← halved]
    exact level.first (fewer + 1) (by omega)
  · rintro ⟨outside, level⟩
    refine ⟨halved scale halvings ▸ level.fits, fun fewer less => ?_⟩
    cases fewer with
    | zero => simpa using outside
    | succ fewer =>
      rw [halved]
      exact level.first fewer (by omega)

theorem level_zero_iff : Level wholePart scale 0 ↔ int64.Holds (wholePart * scale) :=
  ⟨fun level => by simpa using level.fits, fun fits => ⟨by simpa using fits, by simp⟩⟩

theorem Level.scaleWholePart (fits : int64.Holds wholePart) (bounded : scale ≤ maximumTimeScale)
    (level : Level wholePart scale halvings) : MediaTime.scaleWholePart wholePart scale =
    some (scale / 2 ^ halvings, wholePart * (scale / 2 ^ halvings : Nat)) := by
  induction halvings generalizing scale with
  | zero =>
    rw [scaleWholePart_eq fits bounded, if_pos (level_zero_iff.mp level)]
    simp
  | succ halvings ih =>
    obtain ⟨outside, next⟩ := level_succ_iff.mp level
    rw [scaleWholePart_eq fits bounded, if_neg outside, ih ((Nat.div_le_self ..).trans bounded) next, halved]

/-- The scale never becomes 0, as the whole part itself fits. -/
theorem exists_level (fits : int64.Holds wholePart) (positive : 1 ≤ scale) :
    ∃ halvings, Level wholePart scale halvings ∧ 1 ≤ scale / 2 ^ halvings := by
  induction scale using Nat.strongRecOn with
  | ind scale ih =>
    by_cases whole : int64.Holds (wholePart * scale)
    · exact ⟨0, level_zero_iff.mpr whole, by simpa using positive⟩
    · have notOne : scale ≠ 1 := fun one => whole (by simpa [one] using fits)
      obtain ⟨halvings, level, remains⟩ := ih (scale / 2) (by omega) (by omega)
      exact ⟨halvings + 1, level_succ_iff.mpr ⟨whole, level⟩, halved scale halvings ▸ remains⟩

end Levels

section Rescaling

variable {self result : MediaTime} {target halvings : Nat}

/-- The whole part, in C's division. -/
def wholePart (self : MediaTime) : Int := self.timeValue.tdiv self.timeScale

theorem fits_wholePart (self : MediaTime) : int64.Holds self.wholePart := by
  have fits := @fits_tdiv_of_le self.timeValue self.timeScale 1 self.timeScale self.scaled.1 self.scaled.1
    (by rw [Int.mul_tdiv_cancel _ (by have := self.scaled; omega)]; exact self.fits)
  simpa [wholePart] using fits

/-- The early return is no other case: at its own scale a time keeps its value. -/
theorem setTimeScale_eq (bounded : target ≤ maximumTimeScale) (level : Level self.wholePart target halvings) :
    self.setTimeScale target = ofValue ((self.timeValue * (target / 2 ^ halvings : Nat)).tdiv self.timeScale)
      (target / 2 ^ halvings) self.timeFlags := by
  obtain ⟨positive, scaleBounded⟩ := self.scaled
  by_cases same : target = self.timeScale
  · have own : (self.timeValue * self.timeScale).tdiv self.timeScale = self.timeValue :=
      Int.mul_tdiv_cancel _ (by omega)
    have zero : Level self.wholePart target 0 := level_zero_iff.mpr (same ▸ fits_tdiv_mul self.fits)
    rw [level.unique zero, pow_zero, Nat.div_one, same, own, setTimeScale, if_pos rfl, ofValue,
      dif_pos ⟨self.fits, self.scaled⟩]
  · have remainder : int64.Holds (self.timeValue.tmod self.timeScale * (target / 2 ^ halvings : Nat)) :=
      fits_tmod_mul positive scaleBounded ((Nat.div_le_self ..).trans bounded)
    rw [setTimeScale, if_neg same]
    simp only [min_eq_right bounded]
    rw [show self.timeValue.tdiv self.timeScale = self.wholePart from rfl,
      level.scaleWholePart self.fits_wholePart bounded]
    simp only [Option.bind_eq_bind, Option.bind_some, guard, if_pos remainder, Option.pure_def]
    rw [wholePart, tdiv_parts positive]

theorem ofValue_eq_some {value : Int} {scale : Nat} {flags : TimeFlags}
    (made : ofValue value scale flags = some result) :
    result.timeValue = value ∧ result.timeScale = scale ∧ result.timeFlags = flags := by
  unfold ofValue at made
  split at made
  · cases made
    exact ⟨rfl, rfl, rfl⟩
  · cases made

/-- The rounding error is less than one tick of the new scale. -/
theorem abs_seconds_sub_lt (value_eq : result.timeValue = (self.timeValue * result.timeScale).tdiv self.timeScale) :
    |result.seconds - self.seconds| < 1 / result.timeScale := by
  have scalePositive : (0 : ℚ) < self.timeScale := by exact_mod_cast self.scaled.1
  have positive : (0 : ℚ) < result.timeScale := by exact_mod_cast result.scaled.1
  have error := @abs_tdiv_sub_lt (self.timeValue * result.timeScale) self.timeScale self.scaled.1
  rw [← value_eq] at error
  have scaled : (result.seconds - self.seconds) * result.timeScale =
      result.timeValue - ((self.timeValue * result.timeScale : Int) : ℚ) / self.timeScale := by
    unfold seconds
    push_cast
    field_simp
  rw [lt_div_iff₀ positive, ← abs_of_pos positive, ← abs_mul, scaled]
  exact error

/-- Wherever the whole part fits at a halving of the scale, the rescaled value does too. -/
def NoGap (self : MediaTime) (target : Nat) : Prop :=
  ∀ halvings, int64.Holds (self.wholePart * (target / 2 ^ halvings : Nat)) →
    int64.Holds ((self.timeValue * (target / 2 ^ halvings : Nat)).tdiv self.timeScale)

theorem Level.rescaled (level : Level self.wholePart target halvings) (positive : 1 ≤ target / 2 ^ halvings)
    (bounded : target ≤ maximumTimeScale)
    (fits : int64.Holds ((self.timeValue * (target / 2 ^ halvings : Nat)).tdiv self.timeScale)) :
    ∃ result, self.setTimeScale target = some result ∧ result.timeScale = target / 2 ^ halvings ∧
      result.timeValue = (self.timeValue * result.timeScale).tdiv self.timeScale ∧
      result.timeFlags = self.timeFlags := by
  rw [setTimeScale_eq bounded level, ofValue, dif_pos ⟨fits, positive, (Nat.div_le_self ..).trans bounded⟩]
  exact ⟨_, rfl, rfl, rfl, rfl⟩

theorem NoGap.of_some (positive : 1 ≤ target) (bounded : target ≤ maximumTimeScale)
    (rescaled : self.setTimeScale target = some result) : self.NoGap target := by
  obtain ⟨halvings, level, remains⟩ := exists_level self.fits_wholePart positive
  intro others fits
  rw [setTimeScale_eq bounded level] at rescaled
  have more : halvings ≤ others := not_lt.mp fun fewer => level.first others fewer fits
  have smaller : target / 2 ^ others ≤ target / 2 ^ halvings :=
    Nat.div_le_div_left (Nat.pow_le_pow_right (by decide) more) (by positivity)
  exact fits_tdiv_of_le self.scaled.1 smaller ((ofValue_eq_some rescaled).1 ▸ result.fits)

/-- Rescaling neither overflows nor is off by a tick, just if at no halving of the target scale the whole part fits
without the fractional one. -/
theorem setTimeScale_iff (self : MediaTime) (target : Nat) (positive : 1 ≤ target)
    (bounded : target ≤ maximumTimeScale) :
    (∃ result, self.setTimeScale target = some result ∧ 1 ≤ result.timeScale ∧ result.timeScale ≤ target ∧
      |result.seconds - self.seconds| < 1 / result.timeScale) ↔ self.NoGap target := by
  constructor
  · rintro ⟨result, rescaled, _⟩
    exact .of_some positive bounded rescaled
  · intro noGap
    obtain ⟨halvings, level, remains⟩ := exists_level self.fits_wholePart positive
    obtain ⟨result, rescaled, scale_eq, value_eq, _⟩ := level.rescaled remains bounded (noGap halvings level.fits)
    exact ⟨result, rescaled, result.scaled.1, scale_eq ▸ Nat.div_le_self .., abs_seconds_sub_lt value_eq⟩

/-- A second in ten millionths, in milliseconds. -/
theorem setTimeScale_second :
    ∃ result, setTimeScale ⟨10000001, 10000000, { valid := true }, by decide, by decide⟩ 1000 = some result ∧
      1 ≤ result.timeScale ∧ result.timeScale ≤ 1000 ∧
    |result.seconds - seconds ⟨10000001, 10000000, { valid := true }, by decide, by decide⟩| < 1 / result.timeScale :=
  (setTimeScale_iff ⟨10000001, 10000000, { valid := true }, by decide, by decide⟩ 1000 (by decide) (by decide)).mpr
    fun _ _ =>
      @fits_tdiv_of_le 10000001 10000000 _ 1000 (by decide) (Nat.div_le_self ..) (by decide)

/-- The whole part times the scale is 2^63 - 2, and the fractional part adds more than 1 to it. -/
theorem setTimeScale_overflow :
    setTimeScale ⟨4611686021648613375, 1073741824, { valid := true }, by decide, by decide⟩ maximumTimeScale =
      none := by
  decide +kernel

end Rescaling

end WebNode.Wtf.MediaTime
