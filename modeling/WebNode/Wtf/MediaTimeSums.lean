import WebNode.Wtf.MediaTimeRescaling

/-!
# Sums and differences of media times

Each rescaling of an operand is off by less than a tick, and as the scale is at least halved in between, all of them
together by less than two.
-/

namespace WebNode.Wtf.MediaTime

open CheckedOperations

section CommonScale

theorem greatestCommonDivisor_eq (a b : Nat) : greatestCommonDivisor a b = Nat.gcd a b := by
  fun_induction greatestCommonDivisor a b with
  | case1 a => rw [Nat.gcd_zero_right]
  | case2 a b ih => rw [ih, Nat.gcd_comm a, Nat.gcd_rec (b + 1) a, Nat.gcd_comm]

theorem commonTimeScale_bounds {a b : Nat} (scaled : 1 ≤ a ∧ a ≤ maximumTimeScale)
    (otherScaled : 1 ≤ b ∧ b ≤ maximumTimeScale) :
    1 ≤ commonTimeScale a b ∧ commonTimeScale a b ≤ maximumTimeScale := by
  have factor : 1 ≤ b / greatestCommonDivisor a b := by
    rw [greatestCommonDivisor_eq]
    exact Nat.div_pos (Nat.gcd_le_right a otherScaled.1) (Nat.gcd_pos_of_pos_right a otherScaled.1)
  have product : 1 ≤ a * (b / greatestCommonDivisor a b) := Nat.mul_pos scaled.1 factor
  unfold commonTimeScale
  rw [@Signed.safe_multiply int32 int32 int32 _ _ rfl rfl ⟨rfl, by decide, holds_scale scaled.2⟩
    ⟨rfl, by decide, holds_scale ((Nat.div_le_self ..).trans otherScaled.2)⟩ (Int.natCast_nonneg _), exactly,
    ← Int.natCast_mul]
  split
  · next multiple stored =>
    split at stored
    · cases stored
      split
      · decide
      · omega
    · cases stored
  · decide

end CommonScale

section Approximation

/-- An operand after some rescalings, at the scale to which the target is halved for it. -/
structure Approximates (exact : MediaTime) (target halvings : Nat) (now : MediaTime) : Prop where
  level : Level exact.wholePart target halvings
  timeScale : now.timeScale = target / 2 ^ halvings
  wholePart : now.wholePart = exact.wholePart
  close : |now.seconds - exact.seconds| < 2 / now.timeScale
  timeFlags : now.timeFlags = exact.timeFlags

variable {exact now : MediaTime} {target halvings : Nat}

theorem wholePart_rescaled (value_eq : now.timeValue = (exact.timeValue * now.timeScale).tdiv exact.timeScale) :
    now.wholePart = exact.wholePart := by
  rw [wholePart, value_eq, tdiv_tdiv_cancel now.scaled.1, wholePart]

theorem one_div_lt_two_div (time : MediaTime) : (1 : ℚ) / time.timeScale < 2 / time.timeScale := by
  have positive : (0 : ℚ) < time.timeScale := by exact_mod_cast time.scaled.1
  gcongr
  norm_num

theorem NoGap.approximates (noGap : exact.NoGap target) (level : Level exact.wholePart target halvings)
    (positive : 1 ≤ target / 2 ^ halvings) (bounded : target ≤ maximumTimeScale) :
    ∃ now, exact.setTimeScale target = some now ∧ Approximates exact target halvings now := by
  obtain ⟨now, rescaled, scale_eq, value_eq, flags_eq⟩ := level.rescaled positive bounded (noGap halvings level.fits)
  exact ⟨now, rescaled, level, scale_eq, wholePart_rescaled value_eq,
    (abs_seconds_sub_lt value_eq).trans (one_div_lt_two_div now), flags_eq⟩

theorem Level.half {wholePart : Int} (level : Level wholePart target halvings) :
    Level wholePart (target / 2) (halvings - 1) := by
  cases halvings with
  | zero =>
    have fits := @fits_tdiv_of_le wholePart 1 (target / 2) target (by decide) (Nat.div_le_self ..)
      (by simpa using level_zero_iff.mp level)
    exact level_zero_iff.mpr (by simpa using fits)
  | succ halvings => exact (level_succ_iff.mp level).2

/-- The next rescaling either leaves the operand as it is or halves its scale. -/
theorem Approximates.next (approximates : Approximates exact target halvings now) (more : 2 ≤ target)
    (bounded : target ≤ maximumTimeScale) :
    ∃ next, now.setTimeScale (target / 2) = some next ∧ Approximates exact (target / 2) (halvings - 1) next := by
  have level := approximates.level.half
  have scalePositive := now.scaled.1
  have scale_eq := approximates.timeScale
  have smaller : target / 2 / 2 ^ (halvings - 1) ≤ now.timeScale ∧
      (target / 2 / 2 ^ (halvings - 1) = now.timeScale ∨ 2 * (target / 2 / 2 ^ (halvings - 1)) ≤ now.timeScale) ∧
      1 ≤ target / 2 / 2 ^ (halvings - 1) := by
    cases halvings with
    | zero =>
      simp only [pow_zero, Nat.div_one, Nat.zero_sub] at scale_eq ⊢
      omega
    | succ halvings =>
      rw [Nat.add_sub_cancel, ← halved, ← scale_eq]
      omega
  obtain ⟨le, cases_eq, positive⟩ := smaller
  have fits : int64.Holds ((now.timeValue * (target / 2 / 2 ^ (halvings - 1) : Nat)).tdiv now.timeScale) :=
    fits_tdiv_of_le scalePositive le (by rw [Int.mul_tdiv_cancel _ (by omega)]; exact now.fits)
  obtain ⟨next, rescaled, nextScale, value_eq, flags_eq⟩ :=
    (approximates.wholePart ▸ level : Level now.wholePart _ _).rescaled positive (by omega) fits
  refine ⟨next, rescaled, level, nextScale, (wholePart_rescaled value_eq).trans approximates.wholePart, ?_,
    flags_eq.trans approximates.timeFlags⟩
  rcases cases_eq with same | half
  · have unchanged : next.seconds = now.seconds := by
      rw [seconds, seconds, value_eq, nextScale, same, Int.mul_tdiv_cancel _ (by omega)]
    rw [unchanged, nextScale, same]
    exact approximates.close
  · have tick := abs_seconds_sub_lt value_eq
    have nowPositive : (0 : ℚ) < next.timeScale := by exact_mod_cast next.scaled.1
    have wide : (2 : ℚ) / now.timeScale ≤ 1 / next.timeScale := by
      rw [div_le_div_iff₀ (by exact_mod_cast scalePositive) nowPositive, nextScale]
      exact_mod_cast by omega
    have close := approximates.close
    have total := abs_sub_le next.seconds now.seconds exact.seconds
    have double : (2 : ℚ) / next.timeScale = 1 / next.timeScale + 1 / next.timeScale := by ring
    rw [double]
    linarith

end Approximation

section Loop

/-- A result that is close to the exact value, or the infinity on whose side a large exact value is. -/
def Accurate (exact : ℚ) (result : MediaTime) : Prop :=
  result.isFinite ∧ |result.seconds - exact| < 4 / result.timeScale ∨
    result = positiveInfiniteTime ∧ 2 ^ 62 ≤ exact ∨ result = negativeInfiniteTime ∧ exact ≤ -2 ^ 62

/-- What `safeAdd` and `safeSub` have in common. Only a difference is refused with a left operand of 0. -/
structure Sums (operation : Int → Int → Option (Option Int)) (sign : Int) : Prop where
  unit : sign = 1 ∨ sign = -1
  outcome : ∀ lhs rhs, int64.Holds lhs → int64.Holds rhs →
    operation lhs rhs = some (some (lhs + sign * rhs)) ∧ int64.Holds (lhs + sign * rhs) ∨
    operation lhs rhs = some none ∧
      (2 ^ 63 ≤ lhs + sign * rhs ∧ (0 < lhs ∨ sign = -1 ∧ lhs = 0 ∧ rhs = -2 ^ 63) ∨
        lhs + sign * rhs ≤ -2 ^ 63 ∧ lhs < 0)

theorem Sums.add : Sums (safe .add int64 int64 int64) 1 where
  unit := .inl rfl
  outcome lhs rhs fits rhsFits := by
    rw [@Signed.safe_add int64 int64 int64 _ _ rfl rfl ⟨rfl,
      by decide, fits⟩ ⟨rfl, by decide, rhsFits⟩, exactly, one_mul]
    by_cases sum : int64.Holds (lhs + rhs)
    · exact .inl ⟨by rw [if_pos sum], sum⟩
    · refine .inr ⟨by rw [if_neg sum], ?_⟩
      rw [int64_holds] at fits rhsFits sum
      omega

theorem Sums.sub : Sums (safe .sub int64 int64 int64) (-1) where
  unit := .inr rfl
  outcome lhs rhs fits rhsFits := by
    rw [@Signed.safe_sub int64 int64 int64 _ _ rfl rfl ⟨rfl,
      by decide, fits⟩ ⟨rfl, by decide, rhsFits⟩, neg_one_mul, ← sub_eq_add_neg]
    by_cases difference : int64.Holds (lhs - rhs) ∧ lhs - rhs ≠ int64.min
    · exact .inl ⟨by rw [if_pos difference], difference.1⟩
    · refine .inr ⟨by rw [if_neg difference], ?_⟩
      rw [int64_holds] at fits rhsFits difference
      rw [show int64.min = -2 ^ 63 from rfl] at difference
      omega

variable {operation : Int → Int → Option (Option Int)} {sign : Int} {a b : MediaTime}

theorem abs_sum_sub_lt (sums : Sums operation sign) {exactA exactB nowA nowB bound : ℚ}
    (close : |nowA - exactA| < bound) (otherClose : |nowB - exactB| < bound) :
    |nowA + sign * nowB - (exactA + sign * exactB)| < bound + bound := by
  rw [abs_lt] at close otherClose ⊢
  rcases sums.unit with rfl | rfl
  · push_cast
    constructor <;> linarith
  · push_cast
    constructor <;> linarith

theorem isFinite_of_timeFlags {self other : MediaTime} (flags : self.timeFlags = other.timeFlags) :
    self.isFinite = other.isFinite := by
  simp only [isFinite, isInvalid, isPositiveInfinite, isNegativeInfinite, isIndefinite, flags]

/-- What is added in the loop, and how far it is from the exact value. -/
theorem Approximates.sum_close (sums : Sums operation sign) {exactA exactB : MediaTime} {target halvings : Nat}
    (approximates : Approximates exactA target halvings a) (otherApproximates : Approximates exactB target halvings b) :
    |((a.timeValue + sign * b.timeValue : Int) : ℚ) / a.timeScale - (exactA.seconds + sign * exactB.seconds)| <
      4 / a.timeScale := by
  have scales : b.timeScale = a.timeScale := otherApproximates.timeScale.trans approximates.timeScale.symm
  have close := abs_sum_sub_lt sums approximates.close (scales ▸ otherApproximates.close)
  have sum_eq : a.seconds + sign * b.seconds = ((a.timeValue + sign * b.timeValue : Int) : ℚ) / a.timeScale := by
    rw [seconds, seconds, scales]
    push_cast
    ring
  have double : (2 : ℚ) / a.timeScale + 2 / a.timeScale = 4 / a.timeScale := by ring
  rwa [sum_eq, double] at close

theorem Approximates.at_one {exact now : MediaTime} {halvings : Nat}
    (approximates : Approximates exact 1 halvings now) :
    now.timeScale = 1 ∧ now.timeValue = exact.wholePart := by
  have le : now.timeScale ≤ 1 := approximates.timeScale ▸ Nat.div_le_self ..
  have one : now.timeScale = 1 := Nat.le_antisymm le now.scaled.1
  refine ⟨one, ?_⟩
  rw [← approximates.wholePart, MediaTime.wholePart, one]
  simp

/-- At the scale 1 the whole parts are added. -/
theorem Approximates.sum_close_one (sums : Sums operation sign) {exactA exactB : MediaTime} {halvings : Nat}
    (approximates : Approximates exactA 1 halvings a) (otherApproximates : Approximates exactB 1 halvings b) :
    |((exactA.wholePart + sign * exactB.wholePart : Int) : ℚ) - (exactA.seconds + sign * exactB.seconds)| < 4 := by
  have close := approximates.sum_close sums otherApproximates
  rwa [approximates.at_one.1, approximates.at_one.2, otherApproximates.at_one.2, Nat.cast_one, div_one, div_one]
    at close

theorem combineLoop_one (refused : operation a.timeValue b.timeValue = some none) :
    combineLoop operation a b 1 = some (if a.timeValue > 0 then positiveInfiniteTime else negativeInfiniteTime) := by
  rw [combineLoop, refused]
  rfl

/-- The loop ends with the operands at one scale, or at the scale 1 with a sum that does not fit. -/
theorem combineLoop_accurate (sums : Sums operation sign) {exactA exactB : MediaTime} {target halvings : Nat}
    (finite : exactA.isFinite) (positive : 1 ≤ target) (bounded : target ≤ maximumTimeScale)
    (notZero : sign = -1 → ¬ (exactA.wholePart = 0 ∧ exactB.wholePart = -2 ^ 63))
    (approximates : Approximates exactA target halvings a) (otherApproximates : Approximates exactB target halvings b) :
    ∃ result, combineLoop operation a b target = some result ∧
      Accurate (exactA.seconds + sign * exactB.seconds) result := by
  induction target using Nat.strongRecOn generalizing a b halvings with
  | ind target ih =>
    rcases sums.outcome _ _ a.fits b.fits with ⟨stored, fits⟩ | ⟨refused, outside⟩
    · rw [combineLoop, stored]
      refine ⟨⟨_, a.timeScale, a.timeFlags, fits, a.scaled⟩, dif_pos ⟨fits, a.scaled⟩, .inl ⟨?_, ?_⟩⟩
      · exact (isFinite_of_timeFlags approximates.timeFlags).trans finite
      · exact approximates.sum_close sums otherApproximates
    · by_cases one : target = 1
      · subst one
        have close := abs_lt.mp (approximates.sum_close_one sums otherApproximates)
        rw [approximates.at_one.2, otherApproximates.at_one.2] at outside
        rw [combineLoop_one refused, approximates.at_one.2]
        rcases outside with ⟨large, above⟩ | ⟨small, below⟩
        · have front : 0 < exactA.wholePart := by
            rcases above with front | ⟨negative, zero, least⟩
            · exact front
            · exact absurd ⟨zero, least⟩ (notZero negative)
          have largeRat : (2 : ℚ) ^ 63 ≤ ((exactA.wholePart + sign * exactB.wholePart : Int) : ℚ) := by
            exact_mod_cast large
          rw [if_pos front]
          exact ⟨_, rfl, .inr (.inl ⟨rfl, by linarith⟩)⟩
        · have smallRat : ((exactA.wholePart + sign * exactB.wholePart : Int) : ℚ) ≤ -2 ^ 63 := by exact_mod_cast small
          rw [if_neg (by omega)]
          exact ⟨_, rfl, .inr (.inr ⟨rfl, by linarith⟩)⟩
      · obtain ⟨next, rescaled, nextApproximates⟩ := approximates.next (by omega) bounded
        obtain ⟨other, otherRescaled, otherNext⟩ := otherApproximates.next (by omega) bounded
        rw [combineLoop, refused]
        simp only [if_neg one, dif_neg (show ¬ target = 0 by omega), rescaled, otherRescaled]
        exact ih (target / 2) (by omega) (by omega) (by omega) nextApproximates otherNext

end Loop

section Results

/-- Both operands fit at the same halvings of their common scale. -/
def HalvedTogether (a b : MediaTime) : Prop :=
  ∀ halvings, int64.Holds (a.wholePart * (commonTimeScale a.timeScale b.timeScale / 2 ^ halvings : Nat)) ↔
    int64.Holds (b.wholePart * (commonTimeScale a.timeScale b.timeScale / 2 ^ halvings : Nat))

/-- Neither rescaling to the common scale overflows. -/
def NoGaps (a b : MediaTime) : Prop :=
  a.NoGap (commonTimeScale a.timeScale b.timeScale) ∧ b.NoGap (commonTimeScale a.timeScale b.timeScale)

variable {operation : Int → Int → Option (Option Int)} {sign : Int} {a b : MediaTime}

/-- The operands with which the loop starts. -/
theorem HalvedTogether.exists_operands (together : HalvedTogether a b) (noGaps : NoGaps a b) :
    ∃ halvings first second,
      combine operation a b = combineLoop operation first second (commonTimeScale a.timeScale b.timeScale) ∧
      Approximates a (commonTimeScale a.timeScale b.timeScale) halvings first ∧
      Approximates b (commonTimeScale a.timeScale b.timeScale) halvings second := by
  obtain ⟨positive, bounded⟩ := commonTimeScale_bounds a.scaled b.scaled
  obtain ⟨halvings, level, remains⟩ := exists_level a.fits_wholePart positive
  have otherLevel : Level b.wholePart (commonTimeScale a.timeScale b.timeScale) halvings :=
    ⟨(together halvings).mp level.fits, fun fewer less fits => level.first fewer less ((together fewer).mpr fits)⟩
  obtain ⟨first, rescaled, approximates⟩ := noGaps.1.approximates level remains bounded
  obtain ⟨second, otherRescaled, otherApproximates⟩ := noGaps.2.approximates otherLevel remains bounded
  refine ⟨halvings, first, second, ?_, approximates, otherApproximates⟩
  simp only [combine, rescaled, otherRescaled]
  rfl

theorem NoGaps.of_combine {result : MediaTime} (combined : combine operation a b = some result) : NoGaps a b := by
  obtain ⟨positive, bounded⟩ := commonTimeScale_bounds a.scaled b.scaled
  obtain ⟨first, rescaled, rest⟩ := Option.bind_eq_some_iff.mp combined
  obtain ⟨second, otherRescaled, _⟩ := Option.bind_eq_some_iff.mp rest
  exact ⟨.of_some positive bounded rescaled, .of_some positive bounded otherRescaled⟩

/-- With a left operand of less than a second, the least right operand is only halved together with it at the
scale 1. -/
theorem HalvedTogether.scale_one (together : HalvedTogether a b) (zero : a.wholePart = 0)
    (least : b.wholePart = -2 ^ 63) :
    commonTimeScale a.timeScale b.timeScale = 1 := by
  have positive := (commonTimeScale_bounds a.scaled b.scaled).1
  have fits := (together 0).mp (by simp [zero, int64_holds])
  rw [least, pow_zero, Nat.div_one] at fits
  rw [int64_holds] at fits
  omega

theorem combine_iff (sums : Sums operation sign) (finite : a.isFinite) (together : HalvedTogether a b) :
    (∃ result, combine operation a b = some result ∧ Accurate (a.seconds + sign * b.seconds) result) ↔
      NoGaps a b ∧ (sign = -1 → ¬ (a.wholePart = 0 ∧ b.wholePart = -2 ^ 63)) := by
  obtain ⟨positive, bounded⟩ := commonTimeScale_bounds a.scaled b.scaled
  constructor
  · rintro ⟨result, combined, accurate⟩
    refine ⟨.of_combine combined, ?_⟩
    rintro rfl ⟨zero, least⟩
    obtain ⟨halvings, first, second, starts, approximates, otherApproximates⟩ :=
      together.exists_operands (NoGaps.of_combine combined)
    rw [together.scale_one zero least] at starts approximates otherApproximates
    have close := abs_lt.mp (approximates.sum_close_one sums otherApproximates)
    have refused : operation first.timeValue second.timeValue = some none := by
      rcases sums.outcome _ _ first.fits second.fits with ⟨_, fits⟩ | ⟨refused, _⟩
      · rw [approximates.at_one.2, otherApproximates.at_one.2, zero, least] at fits
        exact absurd fits (by decide)
      · exact refused
    rw [starts, combineLoop_one refused, approximates.at_one.2, zero, if_neg (by decide)] at combined
    cases combined
    rw [zero, least] at close
    push_cast at close
    rcases accurate with ⟨infinite, _⟩ | ⟨positiveInfinite, _⟩ | ⟨_, small⟩
    · exact absurd infinite (by decide)
    · exact absurd positiveInfinite (by decide)
    · push_cast at small
      linarith
  · rintro ⟨noGaps, notZero⟩
    obtain ⟨halvings, first, second, starts, approximates, otherApproximates⟩ := together.exists_operands noGaps
    rw [starts]
    exact combineLoop_accurate sums finite positive bounded notZero approximates otherApproximates

theorem add_of_finite (finite : a.isFinite) (otherFinite : b.isFinite) :
    a.add b = combine (safe .add int64 int64 int64) a b := by
  simp_all [add, isFinite]

theorem sub_of_finite (finite : a.isFinite) (otherFinite : b.isFinite) :
    a.sub b = combine (safe .sub int64 int64 int64) a b := by
  simp_all [sub, isFinite]

/-- Where both operands need the same halvings of the common scale, sums and differences end and are accurate just if
neither rescaling overflows, and a difference is not of less than a second and the least whole number of seconds. -/
theorem sums_accurate_iff (finite : a.isFinite) (otherFinite : b.isFinite) (together : HalvedTogether a b) :
    ((∃ result, a.add b = some result ∧ Accurate (a.seconds + b.seconds) result) ↔ NoGaps a b) ∧
    ((∃ result, a.sub b = some result ∧ Accurate (a.seconds - b.seconds) result) ↔
      NoGaps a b ∧ ¬ (a.wholePart = 0 ∧ b.wholePart = -2 ^ 63)) := by
  have sum := combine_iff Sums.add finite together
  have difference := combine_iff Sums.sub finite together
  rw [add_of_finite finite otherFinite, sub_of_finite finite otherFinite]
  refine ⟨by simpa using sum, ?_⟩
  simpa [sub_eq_add_neg] using difference

/-- A third and a half. -/
theorem sums_accurate_third :
    ∃ result, add ⟨1, 3, { valid := true }, by decide, by decide⟩ ⟨1, 2, { valid := true }, by decide, by decide⟩ =
    some result ∧ Accurate (seconds ⟨1, 3, { valid := true }, by decide, by decide⟩ +
      seconds ⟨1, 2, { valid := true }, by decide, by decide⟩) result := by
  have common : commonTimeScale 3 2 = 6 := by decide +kernel
  refine (sums_accurate_iff (by decide) (by decide) fun halvings => ?_).1.mpr
    ⟨fun halvings _ => ?_, fun halvings _ => ?_⟩
  · show int64.Holds (0 * _) ↔ int64.Holds (0 * _)
    rw [Int.zero_mul]
  · exact @fits_tdiv_of_le 1 3 _ 6 (by decide) (common ▸ Nat.div_le_self ..) (by decide)
  · exact @fits_tdiv_of_le 1 2 _ 6 (by decide) (common ▸ Nat.div_le_self ..) (by decide)

/-- A sum of times at different scales, and a difference with the wrong sign. -/
theorem sums_inaccurate :
    add ⟨4611686018427387904, 1, { valid := true }, by decide, by decide⟩
      ⟨1099511627776, 3, { valid := true }, by decide, by decide⟩ =
      some ⟨4611687117939015680, 1, { valid := true }, by decide, by decide⟩ ∧
    ¬ |seconds ⟨4611687117939015680, 1, { valid := true }, by decide, by decide⟩ -
      (seconds ⟨4611686018427387904, 1, { valid := true }, by decide, by decide⟩ +
        seconds ⟨1099511627776, 3, { valid := true }, by decide, by decide⟩)| < 4 ∧
    sub ⟨0, 1, { valid := true }, by decide, by decide⟩ ⟨-9223372036854775808, 1, { valid := true }, by decide,
      by decide⟩ =
      some negativeInfiniteTime := by
  refine ⟨by decide +kernel, ?_, by decide +kernel⟩
  norm_num [seconds, abs_lt]

end Results

end WebNode.Wtf.MediaTime
