import WebNode.Lib.Calendar
import WebNode.Platform.DateComponents

/-!
# Weeks

The week of a time by Zeller's congruence, the offset of the first Monday and the number of weeks of
a year, against the rule of ISO 8601 that the year of a week is that of its Thursday.
-/

namespace WebNode.Platform.DateComponents

open Calendar (daysBefore firstMonday monday weekYear weekNumber yearOf)

/-! ### The code -/

def msPerDay : Int := 86400000

/-- The functions of `DateMath.h` are taken to be exact. -/
def msToYear (ms : Int) : Int := yearOf (ms / msPerDay + daysBefore 1970)

def dayInYear (ms year : Int) : Int := ms / msPerDay + daysBefore 1970 - daysBefore year

def dateToDaysFrom1970 (year month day : Int) : Int := Calendar.dayNumber year month.toNat day - daysBefore 1970

/-- From the first of January to the Monday of the first week. -/
def offsetTo1stWeekStart (year : Int) : Int :=
  let offset := 1 - dayOfWeek year 0 1
  if offset ≤ -4 then offset + 7 else offset

def setMillisecondsSinceEpochForWeek (date : DateComponents) (ms : Int) : Option DateComponents :=
  let year := msToYear ms
  if year < minimumYear ∨ year > maximumYear then none
  else
    let date := { date with year := year }
    let yearDay := dayInYear ms year
    let offset := offsetTo1stWeekStart year
    if yearDay < offset then
      -- the last week of the previous year
      let date := { date with year := year - 1 }
      if date.year ≤ minimumYear then none else some { date with week := date.maxWeekNumberInYear, type := .week }
    else
      let week := (yearDay - offset).tdiv 7 + 1
      let date :=
        if week > date.maxWeekNumberInYear then { date with year := year + 1, week := 1 }
        else { date with week := week }
      if date.year > maximumYear ∨ (date.year = maximumYear ∧ date.week > maximumWeekInMaximumYear) then none
      else some { date with type := .week }

def millisecondsSinceEpochForTime (date : DateComponents) : Int :=
  ((date.hour * 60 + date.minute) * 60 + date.second) * 1000 + date.millisecond

/-- An object without a type has no time. -/
def millisecondsSinceEpoch (date : DateComponents) : Option Int :=
  match date.type with
  | .date => some (dateToDaysFrom1970 date.year date.month date.monthDay * msPerDay)
  | .dateTime | .dateTimeLocal =>
    some (dateToDaysFrom1970 date.year date.month date.monthDay * msPerDay + date.millisecondsSinceEpochForTime)
  | .month => some (dateToDaysFrom1970 date.year date.month 1 * msPerDay)
  | .time => some date.millisecondsSinceEpochForTime
  | .week => some ((dateToDaysFrom1970 date.year 0 1 + offsetTo1stWeekStart date.year + (date.week - 1) * 7) * msPerDay)
  | .invalid => none

/-! ### The three rules for every year -/

theorem isLeapYear_iff (year : Int) : isLeapYear year = true ↔ Calendar.Leap year := by
  rw [isLeapYear, Calendar.Leap]
  simp only [ne_eq, Int.dvd_iff_tmod_eq_zero]
  by_cases four : year.tmod 4 = 0 <;> by_cases century : year.tmod 100 = 0 <;> by_cases quad : year.tmod 400 = 0 <;>
    simp [four, century, quad]

theorem dayOfWeek_january {year : Int} (positive : 1 ≤ year) : dayOfWeek year 0 1 = (daysBefore year + 1) % 7 := by
  have high : (year - 1).tdiv 100 = (year - 1) / 100 := Int.tdiv_eq_ediv_of_nonneg (by omega)
  have low : (year - 1).tmod 100 = (year - 1) % 100 := Int.tmod_eq_emod_of_nonneg (by omega)
  have lowQuarter : ((year - 1) % 100).tdiv 4 = (year - 1) % 100 / 4 := Int.tdiv_eq_ediv_of_nonneg (by omega)
  have highQuarter : ((year - 1) / 100).tdiv 4 = (year - 1) / 100 / 4 := Int.tdiv_eq_ediv_of_nonneg (by omega)
  rw [dayOfWeek, daysBefore]
  simp only [zero_add, show (2 : Int) ≤ 3 by decide, if_true, high, low, lowQuarter, highQuarter]
  rw [show (13 * (2 + 12) : Int).tdiv 5 = 36 from rfl]
  have quarter : (year - 1) / 4 = 25 * ((year - 1) / 100) + (year - 1) % 100 / 4 := by omega
  have quad : (year - 1) / 400 = (year - 1) / 100 / 4 := by omega
  rw [Int.tmod_eq_emod_of_nonneg (by omega), quarter, quad]
  omega

theorem offsetTo1stWeekStart_eq {year : Int} (positive : 1 ≤ year) :
    offsetTo1stWeekStart year = firstMonday year - daysBefore year := by
  rw [offsetTo1stWeekStart, dayOfWeek_january positive, firstMonday, monday]
  split <;> omega

theorem maxWeekNumberInYear_eq (date : DateComponents) (positive : 1 ≤ date.year) :
    7 * date.maxWeekNumberInYear = firstMonday (date.year + 1) - firstMonday date.year := by
  have length := Calendar.daysBefore_succ date.year
  rw [maxWeekNumberInYear, dayOfWeek_january positive, firstMonday, firstMonday, monday, monday, length,
    maximumWeekNumber]
  simp only [isLeapYear_iff]
  by_cases leap : Calendar.Leap date.year <;> simp only [leap, if_true, if_false, and_true, and_false, or_false] <;>
    split <;> omega

/-! ### The week of a time -/

/-- The 13th of September 275760. -/
def lastDay : Int := Calendar.dayNumber maximumYear 8 13

theorem firstMonday_bounds (year : Int) :
    daysBefore year - 3 ≤ firstMonday year ∧ firstMonday year ≤ daysBefore year + 3 ∧ firstMonday year % 7 = 0 := by
  rw [firstMonday, monday]
  omega

/-- The object has the week of a day. -/
structure HasWeek (date : DateComponents) (day : Int) : Prop where
  type : date.type = .week
  year : date.year = weekYear day
  week : date.week = weekNumber day

/-- What `parseWeek` accepts. -/
structure ValidWeek (date : DateComponents) : Prop where
  year : 1 ≤ date.year ∧ date.year ≤ maximumYear
  week : 1 ≤ date.week ∧ date.week ≤ date.maxWeekNumberInYear
  limit : ¬ (date.year = maximumYear ∧ date.week > maximumWeekInMaximumYear)

theorem maxWeekNumberInYear_bounds (date : DateComponents) :
    52 ≤ date.maxWeekNumberInYear ∧ date.maxWeekNumberInYear ≤ 53 := by
  rw [maxWeekNumberInYear, maximumWeekNumber]
  split <;> decide

section Set

variable {date : DateComponents} {day ms : Int}

theorem setMillisecondsSinceEpochForWeek_spec (inRange : 0 ≤ day ∧ day ≤ lastDay) (within : 0 ≤ ms ∧ ms < msPerDay) :
    ∃ week, setMillisecondsSinceEpochForWeek date ((day - daysBefore 1970) * msPerDay + ms) = some week ∧
      HasWeek week day ∧ ValidWeek week := by
  obtain ⟨nonneg, notAfter⟩ := inRange
  have last : lastDay = 100719162 := by decide
  have day_eq : ((day - daysBefore 1970) * msPerDay + ms) / msPerDay + daysBefore 1970 = day := by
    rw [msPerDay] at within ⊢
    omega
  obtain ⟨positive, begun, notOver⟩ := Calendar.yearOf_spec nonneg
  rw [setMillisecondsSinceEpochForWeek, msToYear, dayInYear, day_eq]
  generalize yearOf day = year at *
  have year_le : year ≤ maximumYear := by
    by_contra later
    have := Calendar.daysBefore_lt (not_le.mp later)
    rw [show daysBefore maximumYear = 100718906 from rfl] at this
    omega
  rw [minimumYear, if_neg (by omega), offsetTo1stWeekStart_eq positive]
  have bounds := firstMonday_bounds year
  have length := Calendar.daysBefore_succ year
  dsimp only
  split
  · next early =>
    have third : 3 ≤ year := by
      by_contra less
      rcases (show year = 1 ∨ year = 2 by omega) with rfl | rfl
      · rw [show firstMonday 1 = 0 from rfl, show daysBefore 1 = 0 from rfl] at early
        omega
      · rw [show daysBefore 2 = 365 from rfl] at begun early
        rw [show firstMonday 2 = 364 from rfl] at early
        omega
    have weeks := maxWeekNumberInYear_eq { date with year := year - 1 } (show 1 ≤ year - 1 by omega)
    have before := Calendar.daysBefore_lt (show year - 1 < year by omega)
    have bounds' := firstMonday_bounds (year - 1)
    obtain ⟨same, number⟩ := Calendar.week_eq nonneg (show firstMonday (year - 1) ≤ day by omega)
      (show day < firstMonday (year - 1 + 1) by rw [Int.sub_add_cancel]; omega)
    rw [if_neg (by omega)]
    have least := (maxWeekNumberInYear_bounds { date with year := year - 1 }).1
    refine ⟨_, rfl, ⟨rfl, same.symm, ?_⟩, ⟨show 1 ≤ year - 1 by omega, show year - 1 ≤ maximumYear by omega⟩,
      ⟨le_trans (by decide) least, le_rfl⟩, fun last => ?_⟩
    · dsimp only at weeks ⊢
      rw [Int.sub_add_cancel] at weeks
      omega
    · have : year - 1 = maximumYear := last.1
      omega
  · next late =>
    have weeks := maxWeekNumberInYear_eq { date with year := year } positive
    have bounds' := firstMonday_bounds (year + 1)
    dsimp only at weeks
    rw [Int.tdiv_eq_ediv_of_nonneg (by omega), show day - daysBefore year - (firstMonday year - daysBefore year) =
      day - firstMonday year by
      omega]
    have notLast : year = maximumYear → (day - firstMonday year) / 7 + 1 ≤ 37 := by
      rintro rfl
      rw [show firstMonday maximumYear = 100718905 from rfl]
      omega
    split
    · next past =>
      have length' := Calendar.daysBefore_succ (year + 1)
      have bounds'' := firstMonday_bounds (year + 1 + 1)
      obtain ⟨same, number⟩ := Calendar.week_eq nonneg (show firstMonday (year + 1) ≤ day by omega)
        (show day < firstMonday (year + 1 + 1) by split at length' <;> omega)
      have notMaximum : year ≠ maximumYear := by
        rintro rfl
        rw [show firstMonday maximumYear = 100718905 from rfl, show firstMonday (maximumYear + 1) = 100719269 from rfl]
          at weeks
        omega
      have limit : ¬ (year + 1 = maximumYear ∧ 1 > maximumWeekInMaximumYear) := by
        rw [maximumWeekInMaximumYear]
        omega
      rw [if_neg (by dsimp only; omega)]
      have least := (maxWeekNumberInYear_bounds { date with year := year + 1 }).1
      refine ⟨_, rfl, ⟨rfl, same.symm, ?_⟩, ⟨show 1 ≤ year + 1 by omega, show year + 1 ≤ maximumYear by omega⟩,
        ⟨le_rfl, le_trans (show (1 : Int) ≤ 52 by decide) least⟩, limit⟩
      dsimp only
      omega
    · next inside =>
      obtain ⟨same, number⟩ :=
        Calendar.week_eq nonneg (show firstMonday year ≤ day by omega) (show day < firstMonday (year + 1) by omega)
      have limit : ¬ (year = maximumYear ∧ (day - firstMonday year) / 7 + 1 > maximumWeekInMaximumYear) := by
        rw [maximumWeekInMaximumYear]
        omega
      rw [if_neg (by dsimp only; omega)]
      exact ⟨_, rfl, ⟨rfl, same.symm, number.symm⟩, ⟨positive, year_le⟩,
        ⟨show 1 ≤ (day - firstMonday year) / 7 + 1 by omega, not_lt.mp inside⟩, limit⟩

theorem millisecondsSinceEpoch_monday (nonneg : 0 ≤ day) (has : HasWeek date day) :
    date.millisecondsSinceEpoch = some ((monday day - daysBefore 1970) * msPerDay) := by
  have positive : 1 ≤ date.year := by
    rw [has.year]
    exact (Calendar.yearOf_spec (by rw [monday]; omega)).1
  rw [millisecondsSinceEpoch, has.type]
  dsimp only
  rw [offsetTo1stWeekStart_eq positive, dateToDaysFrom1970, Calendar.dayNumber, ← Calendar.firstMonday_add_weeks day,
    ← has.year, ← has.week]
  congr 2
  change _ + 0 + (1 - 1) - _ + _ + _ = _
  omega

theorem parseWeek_toString (type : date.type = .week) (valid : ValidWeek date) (format : SecondFormat)
    (other : DateComponents) :
    ∃ text, date.toString format = some text ∧
      parseWeek other text 0 =
      some ({ other with year := date.year, week := date.week, type := .week }, text.length) := by
  obtain ⟨⟨year_pos, year_le⟩, ⟨week_pos, week_le⟩, limit⟩ := valid
  have weeks := (maxWeekNumberInYear_bounds date).2
  obtain ⟨year_eq, year_digits, year_length⟩ := padded_spec 4 (show 0 ≤ date.year by omega)
  obtain ⟨week_eq, week_digits, -⟩ := padded_spec 2 (show 0 ≤ date.week by omega)
  have week_length : (padded 2 date.week).length = 2 := padded_length (by omega) (by omega)
  have year_length' : (padded 4 date.year).length ≤ 6 :=
    padded_length_le (by rw [maximumYear] at year_le; omega) (by decide)
  refine ⟨padded 4 date.year ++ 0x2D :: 0x57 :: padded 2 date.week, by rw [toString, type], ?_⟩
  generalize padded 4 date.year = year at *
  generalize padded 2 date.week = week at *
  have short : (year ++ 0x2D :: 0x57 :: week).length < 2 ^ 31 := by
    simp
    omega
  rw [parseWeek]
  simp only [↓guard_bind_eq_some_iff, bind_eq_some_iff, Option.pure_def, Option.some.injEq, Prod.mk.injEq,
    toInt_eq_some_iff short]
  refine ⟨_,
    (parseYear_eq_some_iff short).mpr
      ⟨year, @reads_of_eq _ year [] (0x2D :: 0x57 :: week) rfl, year_digits, year_length, ?_, ?_, ?_, rfl⟩, ?_⟩
  · rw [List.length_nil, Nat.zero_add, List.getElem?_append_right le_rfl, Nat.sub_self]
    rintro _ ⟨⟩
    rfl
  · omega
  · rw [maximumYear] at year_le
    omega
  · have week_reads := @reads_of_eq _ week (year ++ [0x2D, 0x57]) [] (show year ++ 0x2D :: 0x57 :: week = _ by simp)
    rw [List.length_append, week_length] at week_reads
    have weeks_eq : maxWeekNumberInYear { other with year := date.year } = date.maxWeekNumberInYear := by
      rw [maxWeekNumberInYear, maxWeekNumberInYear]
    simp only [List.length_nil, Nat.zero_add, List.length_append, List.length_cons, week_length, weeks_eq, year_eq]
    refine ⟨by omega, ?_, ?_, date.week,
      ⟨by decide, week, week_reads, week_digits, week_eq, by omega⟩, ⟨week_pos, week_le⟩, limit, rfl, trivial⟩
    · rw [List.getElem?_append_right le_rfl, Nat.sub_self]
      rfl
    · rw [List.getElem?_append_right (by omega), Nat.add_sub_cancel_left]
      rfl

end Set

/-- The week of every time follows ISO 8601, starts at its Monday, and is read back. -/
theorem week_follows_iso8601 (date : DateComponents) (day ms : Int) (inRange : 0 ≤ day ∧ day ≤ lastDay)
    (within : 0 ≤ ms ∧ ms < msPerDay) :
    ∃ week, setMillisecondsSinceEpochForWeek date ((day - daysBefore 1970) * msPerDay + ms) = some week ∧
      week.year = weekYear day ∧ week.week = weekNumber day ∧
      week.millisecondsSinceEpoch = some ((monday day - daysBefore 1970) * msPerDay) ∧
      ∀ format other, ∃ text, week.toString format = some text ∧
        parseWeek other text 0 =
        some ({ other with year := weekYear day, week := weekNumber day, type := .week }, text.length) := by
  obtain ⟨week, set, has, valid⟩ := @setMillisecondsSinceEpochForWeek_spec date day ms inRange within
  refine ⟨week, set, has.year, has.week, millisecondsSinceEpoch_monday inRange.1 has, fun format other => ?_⟩
  rw [← has.year, ← has.week]
  exact parseWeek_toString has.type valid format other

/-- The last millisecond of the first day. -/
theorem week_follows_iso8601_first :
    (setMillisecondsSinceEpochForWeek ⟨0, 0, 0, 0, 0, 0, 0, 0, .invalid⟩ (-62135510400001)).map (fun week =>
      (week.year, week.week)) =
      some (1, 1) := by
  obtain ⟨week, set, year, number, -⟩ :=
    week_follows_iso8601 ⟨0, 0, 0, 0, 0, 0, 0, 0, .invalid⟩ 0 86399999 (by decide) (by decide)
  rw [show (-62135510400001 : Int) = (0 - daysBefore 1970) * msPerDay + 86399999 from rfl, set, Option.map_some, year,
    number]
  decide

end WebNode.Platform.DateComponents
