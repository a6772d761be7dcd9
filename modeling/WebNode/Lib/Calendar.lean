import Mathlib

/-! The proleptic Gregorian calendar. Days are counted from the first day of year 1, which is a Monday. -/
namespace WebNode.Calendar

/-- The days before a year. -/
def daysBefore (year : Int) : Int := 365 * (year - 1) + (year - 1) / 4 - (year - 1) / 100 + (year - 1) / 400

def Leap (year : Int) : Prop := 4 ∣ year ∧ (¬ 100 ∣ year ∨ 400 ∣ year)

instance (year : Int) : Decidable (Leap year) := inferInstanceAs (Decidable (_ ∧ _))

theorem daysBefore_succ (year : Int) : daysBefore (year + 1) = daysBefore year + if Leap year then 366 else 365 := by
  rw [daysBefore, daysBefore]
  split
  · next leap =>
    obtain ⟨four, century⟩ := leap
    omega
  · next plain =>
    rw [Leap] at plain
    omega

theorem daysBefore_lt {year later : Int} (less : year < later) : daysBefore year + 365 ≤ daysBefore later := by
  rw [daysBefore, daysBefore]
  omega

/-! ### Years -/

/-- The year of a day: the greatest one that has begun. -/
def yearOf (day : Int) : Int := Nat.findGreatest (fun year => daysBefore year ≤ day) (day.toNat / 365 + 1)

theorem yearOf_spec {day : Int} (nonneg : 0 ≤ day) :
    1 ≤ yearOf day ∧ daysBefore (yearOf day) ≤ day ∧ day < daysBefore (yearOf day + 1) := by
  have first : daysBefore ((1 : Nat) : Int) ≤ day := nonneg
  have bound : 1 ≤ day.toNat / 365 + 1 := by omega
  refine ⟨?_, ?_, ?_⟩
  · have := @Nat.le_findGreatest 1 (fun year => daysBefore year ≤ day) _ _ bound first
    rw [yearOf]
    omega
  · exact @Nat.findGreatest_spec 1 (fun year => daysBefore year ≤ day) _ _ bound first
  · by_contra begun
    rw [yearOf] at begun
    have le := @Nat.findGreatest_le (fun year => daysBefore year ≤ day) _ (day.toNat / 365 + 1)
    rcases Nat.lt_or_eq_of_le le with less | last
    · exact @Nat.findGreatest_is_greatest _ (fun year => daysBefore year ≤ day) _ _ (Nat.lt_succ_self _) less
        (by push_cast; omega)
    · rw [last, daysBefore] at begun
      push_cast at begun
      omega

theorem yearOf_eq {day year : Int} (nonneg : 0 ≤ day) (begun : daysBefore year ≤ day)
    (notOver : day < daysBefore (year + 1)) :
    yearOf day = year := by
  obtain ⟨-, lower, upper⟩ := yearOf_spec nonneg
  rcases lt_trichotomy (yearOf day) year with less | same | more
  · have := @daysBefore_lt (yearOf day) year less
    have := daysBefore_succ (yearOf day)
    rcases eq_or_lt_of_le (show yearOf day + 1 ≤ year from less) with rfl | less
    · omega
    · have := daysBefore_lt less
      omega
  · exact same
  · rcases eq_or_lt_of_le (show year + 1 ≤ yearOf day from more) with same | less
    · rw [← same] at lower
      omega
    · have := daysBefore_lt less
      omega

/-! ### Months, counted from zero -/

def monthLength (year : Int) : Nat → Int
  | 1 => if Leap year then 29 else 28
  | 3 | 5 | 8 | 10 => 30
  | _ => 31

/-- The days of a year before a month. -/
def daysBeforeMonth (year : Int) : Nat → Int
  | 0 => 0
  | month + 1 => daysBeforeMonth year month + monthLength year month

/-- The number of a day of a month. -/
def dayNumber (year : Int) (month : Nat) (day : Int) : Int := daysBefore year + daysBeforeMonth year month + (day - 1)

theorem monthLength_bounds (year : Int) (month : Nat) : 28 ≤ monthLength year month ∧ monthLength year month ≤ 31 := by
  unfold monthLength
  split <;> [split; skip; skip; skip; skip; skip] <;> decide

theorem daysBeforeMonth_mono (year : Int) : Monotone (daysBeforeMonth year) := by
  apply monotone_nat_of_le_succ
  intro month
  have := (monthLength_bounds year month).1
  rw [daysBeforeMonth]
  omega

theorem daysBeforeMonth_twelve (year : Int) : daysBefore year + daysBeforeMonth year 12 = daysBefore (year + 1) := by
  rw [daysBefore_succ]
  by_cases leap : Leap year <;> simp [daysBeforeMonth, monthLength, leap]

/-- A day of a month is one of its year. -/
theorem dayNumber_bounds {year day : Int} {month : Nat} (inYear : month < 12)
    (inMonth : 1 ≤ day ∧ day ≤ monthLength year month) :
    daysBefore year + daysBeforeMonth year month ≤ dayNumber year month day ∧
      dayNumber year month day < daysBefore year + daysBeforeMonth year (month + 1) ∧
      daysBefore year ≤ dayNumber year month day ∧ dayNumber year month day < daysBefore (year + 1) := by
  have first := daysBeforeMonth_mono year (Nat.zero_le month)
  have last := daysBeforeMonth_mono year (Nat.succ_le_of_lt inYear)
  have whole := daysBeforeMonth_twelve year
  rw [show daysBeforeMonth year 0 = 0 from rfl] at first
  rw [Nat.succ_eq_add_one, daysBeforeMonth] at last
  rw [dayNumber, daysBeforeMonth]
  omega

/-! ### Weeks of ISO 8601 -/

/-- The Monday of the week of a day. -/
def monday (day : Int) : Int := day - day % 7

/-- A week belongs to the year of its Thursday. -/
def weekYear (day : Int) : Int := yearOf (monday day + 3)

/-- The weeks of a year are numbered from one. -/
def weekNumber (day : Int) : Int := (monday day + 3 - daysBefore (weekYear day)) / 7 + 1

/-- The first Monday of the weeks of a year is the one of the fourth of January. -/
def firstMonday (year : Int) : Int := monday (daysBefore year + 3)

theorem week_eq {day year : Int} (nonneg : 0 ≤ day) (begun : firstMonday year ≤ day)
    (notOver : day < firstMonday (year + 1)) :
    weekYear day = year ∧ weekNumber day = (day - firstMonday year) / 7 + 1 := by
  rw [firstMonday, monday] at begun notOver
  have year_eq : weekYear day = year := by
    apply yearOf_eq <;> rw [monday] <;> omega
  refine ⟨year_eq, ?_⟩
  rw [weekNumber, year_eq, firstMonday, monday, monday]
  omega

theorem firstMonday_add_weeks (day : Int) : firstMonday (weekYear day) + (weekNumber day - 1) * 7 = monday day := by
  rw [weekNumber, firstMonday, monday, monday]
  omega

end WebNode.Calendar
