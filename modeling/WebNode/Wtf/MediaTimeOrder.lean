import Mathlib
import WebNode.Wtf.MediaTimeRescaling

/-!
# The order of media times

`compare` orders the times by their kind and the finite ones by their exact value.
-/

namespace WebNode.Wtf.MediaTime

open CheckedOperations

/-- The kinds of times in their order. -/
inductive Kind where
  | negativeInfinite
  | finite
  | indefinite
  | positiveInfinite
  | invalid
  deriving DecidableEq, Repr

def Kind.rank : Kind → Nat
  | negativeInfinite => 0
  | finite => 1
  | indefinite => 2
  | positiveInfinite => 3
  | invalid => 4

/-- The kind that the flags name, unless they contradict each other. -/
def kind? (self : MediaTime) : Option Kind :=
  match self.timeFlags.valid, self.timeFlags.positiveInfinite, self.timeFlags.negativeInfinite,
    self.timeFlags.indefinite with
  | false, false, false, false => some .invalid
  | true, true, false, false => some .positiveInfinite
  | true, false, true, false => some .negativeInfinite
  | true, false, false, true => some .indefinite
  | true, false, false, false => some .finite
  | _, _, _, _ => none

/-- Where a time of some kind stands in the order. -/
def place (self : MediaTime) (kind : Kind) : ℕ ×ₗ ℚ := toLex (kind.rank, if kind = .finite then self.seconds else 0)

section Finite

variable {self rhs : MediaTime}

theorem seconds_lt_iff :
    self.seconds < rhs.seconds ↔ self.timeValue * rhs.timeScale < rhs.timeValue * self.timeScale := by
  have positive : (0 : ℚ) < self.timeScale := by exact_mod_cast self.scaled.1
  have rhsPositive : (0 : ℚ) < rhs.timeScale := by exact_mod_cast rhs.scaled.1
  rw [seconds, seconds, div_lt_div_iff₀ positive rhsPositive]
  exact_mod_cast Iff.rfl

theorem seconds_eq_iff :
    self.seconds = rhs.seconds ↔ self.timeValue * rhs.timeScale = rhs.timeValue * self.timeScale := by
  have positive : (self.timeScale : ℚ) ≠ 0 := by exact_mod_cast (Nat.one_le_iff_ne_zero.mp self.scaled.1)
  have rhsPositive : (rhs.timeScale : ℚ) ≠ 0 := by exact_mod_cast (Nat.one_le_iff_ne_zero.mp rhs.scaled.1)
  rw [seconds, seconds, div_eq_div_iff positive rhsPositive]
  exact_mod_cast Iff.rfl

/-- Truncation does not change the order of different whole parts. -/
theorem wholePart_le (le : self.timeValue * rhs.timeScale ≤ rhs.timeValue * self.timeScale) :
    self.wholePart ≤ rhs.wholePart := by
  have positive := self.scaled.1
  have rhsPositive := rhs.scaled.1
  have common := Int.tdiv_le_tdiv (c := self.timeScale * rhs.timeScale) (by positivity) le
  rw [Int.mul_tdiv_mul_of_pos_left _ _ (by omega), mul_comm (self.timeScale : Int),
    Int.mul_tdiv_mul_of_pos_left _ _ (by omega)] at common
  exact common

/-- With equal whole parts the remainders decide. -/
theorem remainders_sub (same : self.wholePart = rhs.wholePart) :
    self.timeValue.tmod self.timeScale * rhs.timeScale - rhs.timeValue.tmod rhs.timeScale * self.timeScale =
      self.timeValue * rhs.timeScale - rhs.timeValue * self.timeScale := by
  have parts := Int.tmod_add_mul_tdiv self.timeValue self.timeScale
  have rhsParts := Int.tmod_add_mul_tdiv rhs.timeValue rhs.timeScale
  unfold wholePart at same
  rw [← same] at rhsParts
  linear_combination (rhs.timeScale : Int) * parts - (self.timeScale : Int) * rhsParts

theorem compare_finite (finite : self.isFinite) (rhsFinite : rhs.isFinite) :
    self.compare rhs = some (cmp self.seconds rhs.seconds) := by
  have lhsFits := @fits_tmod_mul self.timeValue _ _ self.scaled.1 self.scaled.2 rhs.scaled.2
  have rhsFits := @fits_tmod_mul rhs.timeValue _ _ rhs.scaled.1 rhs.scaled.2 self.scaled.2
  unfold isFinite at finite rhsFinite
  simp only [Bool.and_eq_true, Bool.not_eq_true'] at finite rhsFinite
  obtain ⟨⟨⟨valid, positive⟩, negative⟩, indefinite⟩ := finite
  obtain ⟨⟨⟨rhsValid, rhsPositive⟩, rhsNegative⟩, rhsIndefinite⟩ := rhsFinite
  simp only [compare, valid, positive, negative, indefinite, rhsValid, rhsPositive, rhsNegative, rhsIndefinite,
    Bool.and_false, Bool.or_false, Bool.false_eq_true, if_false, gt_iff_lt, if_pos (And.intro lhsFits rhsFits)]
  change (if rhs.wholePart < self.wholePart then _ else if self.wholePart < rhs.wholePart then _ else _) = _
  rcases lt_trichotomy self.seconds rhs.seconds with less | same | greater
  · have lt := seconds_lt_iff.mp less
    have wholes := wholePart_le lt.le
    rw [if_neg (by omega), (cmp_eq_lt_iff _ _).mpr less]
    split
    · rfl
    · have differ := remainders_sub (show self.wholePart = rhs.wholePart by omega)
      rw [if_neg (by omega), if_neg (by omega)]
  · have eq := seconds_eq_iff.mp same
    have wholes := wholePart_le eq.le
    have back := wholePart_le eq.ge
    have differ := remainders_sub (show self.wholePart = rhs.wholePart by omega)
    rw [if_neg (by omega), if_neg (by omega), if_pos (by omega), (cmp_eq_eq_iff _ _).mpr same]
  · have lt := seconds_lt_iff.mp greater
    have wholes := wholePart_le lt.le
    rw [(cmp_eq_gt_iff _ _).mpr greater]
    split
    · rfl
    · have differ := remainders_sub (show self.wholePart = rhs.wholePart by omega)
      rw [if_neg (by omega), if_neg (by omega), if_pos (by omega)]

end Finite

section Order

variable {self rhs other : MediaTime} {kind rhsKind otherKind : Kind}

theorem kind?_eq_some_iff : self.kind? = some kind ↔
    (self.isInvalid = decide (kind = .invalid)) ∧ (self.isPositiveInfinite = decide (kind = .positiveInfinite)) ∧
    (self.isNegativeInfinite = decide (kind = .negativeInfinite)) ∧
      self.isIndefinite = decide (kind = .indefinite) := by
  obtain ⟨_, _, ⟨valid, rounded, positive, negative, indefinite⟩, _, _⟩ := self
  cases valid <;> cases positive <;> cases negative <;> cases indefinite <;> cases kind <;>
    simp [kind?, isInvalid, isPositiveInfinite, isNegativeInfinite, isIndefinite]

theorem compare_eq (kindOf : self.kind? = some kind) (rhsKindOf : rhs.kind? = some rhsKind) :
    self.compare rhs = some (cmp (self.place kind) (rhs.place rhsKind)) := by
  obtain ⟨valid, positive, negative, indefinite⟩ := kind?_eq_some_iff.mp kindOf
  obtain ⟨rhsValid, rhsPositive, rhsNegative, rhsIndefinite⟩ := kind?_eq_some_iff.mp rhsKindOf
  by_cases both : kind = .finite ∧ rhsKind = .finite
  · obtain ⟨rfl, rfl⟩ := both
    rw [compare_finite (by simp [isFinite, valid, positive, negative, indefinite])
      (by simp [isFinite, rhsValid, rhsPositive, rhsNegative, rhsIndefinite])]
    simp [place, cmp, cmpUsing, Prod.Lex.lt_iff]
  · cases kind <;> cases rhsKind <;>
      simp_all [compare, place, Kind.rank, cmp, cmpUsing, Prod.Lex.lt_iff]

/-- On times of the five kinds `compare` never overflows and is a total preorder: by value on finite times, and by
kind between times of different kinds. -/
theorem compare_order (kindOf : self.kind? = some kind) (rhsKindOf : rhs.kind? = some rhsKind)
    (otherKindOf : other.kind? = some otherKind) :
    (kind = .finite → rhsKind = .finite → self.compare rhs = some (cmp self.seconds rhs.seconds)) ∧
    (kind ≠ rhsKind → self.compare rhs = some (cmp kind.rank rhsKind.rank)) ∧
    self.compare self = some .eq ∧
    (∃ order, self.compare rhs = some order ∧ rhs.compare self = some order.swap) ∧
    (self.compare rhs ≠ some .gt → rhs.compare other ≠ some .gt → self.compare other ≠ some .gt) := by
  refine ⟨?_, fun different => ?_, ?_, ⟨_, compare_eq kindOf rhsKindOf, ?_⟩, ?_⟩
  · rintro rfl rfl
    rw [compare_eq kindOf rhsKindOf]
    simp [place, cmp, cmpUsing, Prod.Lex.lt_iff]
  · rw [compare_eq kindOf rhsKindOf]
    cases kind <;> cases rhsKind <;>
      simp_all [place, Kind.rank, cmp, cmpUsing, Prod.Lex.lt_iff]
  · rw [compare_eq kindOf kindOf, cmp_self_eq_eq]
  · rw [compare_eq rhsKindOf kindOf, cmp_swap]
  · rw [compare_eq kindOf rhsKindOf, compare_eq rhsKindOf otherKindOf, compare_eq kindOf otherKindOf]
    simp only [ne_eq, Option.some.injEq, cmp_eq_gt_iff, not_lt]
    exact le_trans

/-- A finite time, an infinite one and an invalid one. -/
theorem compare_order_kinds :
    (⟨7, 2, { valid := true }, by decide, by decide⟩ : MediaTime).compare positiveInfiniteTime ≠ some .gt ∧
    positiveInfiniteTime.compare invalidTime ≠ some .gt ∧
    (⟨7, 2, { valid := true }, by decide, by decide⟩ : MediaTime).compare invalidTime ≠ some .gt := by
  have ordered :=
    @compare_order ⟨7, 2, { valid := true }, by decide, by decide⟩ positiveInfiniteTime invalidTime .finite
    .positiveInfinite .invalid rfl rfl rfl
  exact ⟨by decide +kernel, by decide +kernel, ordered.2.2.2.2 (by decide +kernel) (by decide +kernel)⟩

/-- An invalid time with the flag of infinity is equal to infinity and to the invalid time, which are not equal. -/
theorem compare_contradicting :
    positiveInfiniteTime.compare ⟨0, 1, { valid := false, positiveInfinite := true }, by decide, by decide⟩ = some .eq ∧
    (⟨0, 1, { valid := false, positiveInfinite := true }, by decide, by decide⟩ : MediaTime).compare invalidTime =
      some .eq ∧
    invalidTime.compare positiveInfiniteTime = some .gt := by
  decide +kernel

end Order

end WebNode.Wtf.MediaTime
