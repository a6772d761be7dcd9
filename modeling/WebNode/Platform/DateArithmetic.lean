import WebNode.Platform.DateWeeks

/-!
# Moving a time by an offset

The carries through minutes, hours, days, months and years in both directions, with the limits that
are checked between them.
-/

namespace WebNode.Platform.DateComponents

open Calendar (daysBefore dayNumber daysBeforeMonth monthLength)

/-! ### The code -/

/-- One round of the first loop of `addDay`. -/
def nextDay (date : DateComponents) : DateComponents :=
  let day := date.monthDay + 1
  if day > maxDayOfMonth date.year date.month then
    if date.month + 1 ≥ 12 then { date with year := date.year + 1, month := 0, monthDay := 1 }
    else { date with month := date.month + 1, monthDay := 1 }
  else { date with monthDay := day }

/-- One round of the second loop. -/
def previousDay (date : DateComponents) : DateComponents :=
  let day := date.monthDay - 1
  if day < 1 then
    if date.month - 1 < 0 then
      { date with year := date.year - 1, month := 11, monthDay := maxDayOfMonth (date.year - 1) 11 }
    else { date with month := date.month - 1, monthDay := maxDayOfMonth date.year (date.month - 1) }
  else { date with monthDay := day }

def addDay (date : DateComponents) (dayDiff : Int) : Option DateComponents :=
  let day := date.monthDay + dayDiff
  let moved :=
    if day > maxDayOfMonth date.year date.month then nextDay^[dayDiff.toNat] date
    else if day < 1 then previousDay^[(-dayDiff).toNat] date
    else { date with monthDay := day }
  if withinDateLimits moved.year moved.month moved.monthDay then some moved else none

/-- A carry out of `0 .. last`, as the code computes it for minutes and for hours. The division is one of
numbers that are not negative. -/
def carry (value last : Int) : Int :=
  if value > last then value / (last + 1) else if value < 0 then -((last - value) / (last + 1)) else 0

def addMinute (date : DateComponents) (offset : Int) : Option DateComponents :=
  let minute := offset + date.minute
  let hours := carry minute 59
  let minute := minute - hours * 60
  if hours = 0 then
    let date := { date with minute := minute }
    if date.withinHTMLDateLimits then some date else none
  else
    let hour := date.hour + hours
    let days := carry hour 23
    let hour := hour - days * 24
    if days = 0 then
      let date := { date with hour := hour, minute := minute }
      if date.withinHTMLDateLimits then some date else none
    else do
      let date ← addDay date days
      let date := { date with hour := hour, minute := minute }
      if date.withinHTMLDateLimits then some date else none

/-! ### Days -/

/-- The fields of the date are those of a day. -/
structure InCalendar (date : DateComponents) : Prop where
  month : 0 ≤ date.month ∧ date.month ≤ 11
  monthDay : 1 ≤ date.monthDay ∧ date.monthDay ≤ monthLength date.year date.month.toNat

/-- The number of the day. -/
def day (date : DateComponents) : Int := dayNumber date.year date.month.toNat date.monthDay

theorem maxDayOfMonth_eq (year : Int) {month : Int} (range : 0 ≤ month ∧ month ≤ 11) :
    maxDayOfMonth year month = monthLength year month.toNat := by
  obtain ⟨lower, upper⟩ := range
  obtain ⟨month, rfl⟩ := Int.eq_ofNat_of_zero_le lower
  rw [Int.toNat_natCast, maxDayOfMonth]
  have bound : month < 12 := by omega
  have leap := isLeapYear_iff year
  by_cases february : month = 1
  · subst february
    cases isLeap : isLeapYear year <;> simp_all [monthLength]
  · rw [if_pos (by omega)]
    interval_cases month <;> first | rfl | exact absurd rfl february

section Days

variable {date : DateComponents}

/-- The times of day are the same. -/
structure SameTime (date other : DateComponents) : Prop where
  hour : date.hour = other.hour
  minute : date.minute = other.minute
  second : date.second = other.second
  millisecond : date.millisecond = other.millisecond

/-- One object is some days behind another. -/
structure Moved (days : Int) (date other : DateComponents) : Prop extends SameTime date other where
  inCalendar : InCalendar date
  day : date.day = other.day + days

theorem nextDay_moved (inCalendar : InCalendar date) : Moved 1 date.nextDay date := by
  obtain ⟨month, lower, upper⟩ := inCalendar
  rw [nextDay]
  rw [maxDayOfMonth_eq _ month]
  split
  · split
    · next notLast last =>
      have december : date.month = 11 := by omega
      have year := Calendar.daysBeforeMonth_twelve date.year
      rw [daysBeforeMonth] at year
      change _ + (_ + 31) = _ at year
      refine ⟨⟨rfl, rfl, rfl, rfl⟩, ⟨by dsimp only; omega, ⟨by dsimp only; omega, ?_⟩⟩, ?_⟩
      · exact le_trans (show (1 : Int) ≤ 28 by decide) (Calendar.monthLength_bounds _ _).1
      · rw [december] at notLast upper
        change date.monthDay ≤ 31 at upper
        change date.monthDay + 1 > 31 at notLast
        rw [DateComponents.day, DateComponents.day, december]
        change daysBefore (date.year + 1) + 0 + (1 - 1) = daysBefore date.year + daysBeforeMonth date.year 11 +
          (date.monthDay - 1) + 1
        omega
    · next notLast notDecember =>
      refine ⟨⟨rfl, rfl, rfl, rfl⟩, ⟨by dsimp only; omega, ⟨by dsimp only; omega, ?_⟩⟩, ?_⟩
      · exact le_trans (show (1 : Int) ≤ 28 by decide) (Calendar.monthLength_bounds _ _).1
      · rw [DateComponents.day, DateComponents.day, dayNumber, dayNumber,
          show (date.month + 1).toNat = date.month.toNat + 1 by omega, daysBeforeMonth]
        dsimp only
        omega
  · refine ⟨⟨rfl, rfl, rfl, rfl⟩, ⟨month, ⟨by dsimp only; omega, by dsimp only; omega⟩⟩, ?_⟩
    rw [DateComponents.day, DateComponents.day, dayNumber, dayNumber]
    dsimp only
    omega

theorem previousDay_moved (inCalendar : InCalendar date) : Moved (-1) date.previousDay date := by
  obtain ⟨month, lower, upper⟩ := inCalendar
  rw [previousDay]
  split
  · next first =>
    split
    · next january =>
      have january : date.month = 0 := by omega
      have year := Calendar.daysBeforeMonth_twelve (date.year - 1)
      rw [Int.sub_add_cancel, daysBeforeMonth] at year
      change _ + (_ + 31) = _ at year
      refine ⟨⟨rfl, rfl, rfl, rfl⟩, ⟨by dsimp only; omega, ⟨?_, ?_⟩⟩, ?_⟩
      · exact (show (1 : Int) ≤ 31 by decide)
      · exact le_rfl
      · rw [DateComponents.day, DateComponents.day, january]
        change daysBefore (date.year - 1) + daysBeforeMonth (date.year - 1) 11 + (31 - 1) =
          daysBefore date.year + 0 + (date.monthDay - 1) + -1
        omega
    · next notJanuary =>
      rw [maxDayOfMonth_eq _ (by omega)]
      have length := (Calendar.monthLength_bounds date.year (date.month - 1).toNat).1
      refine ⟨⟨rfl, rfl, rfl, rfl⟩, ⟨by dsimp only; omega, ⟨by dsimp only; omega, le_rfl⟩⟩, ?_⟩
      rw [DateComponents.day, DateComponents.day, dayNumber, dayNumber,
        show date.month.toNat = (date.month - 1).toNat + 1 by omega, daysBeforeMonth]
      dsimp only
      omega
  · refine ⟨⟨rfl, rfl, rfl, rfl⟩, ⟨month, ⟨by dsimp only; omega, by dsimp only; omega⟩⟩, ?_⟩
    rw [DateComponents.day, DateComponents.day, dayNumber, dayNumber]
    dsimp only
    omega

/-- Steps of one size, one after the other. -/
theorem iterate_moved {step : DateComponents → DateComponents} {size : Int}
    (moves : ∀ {date : DateComponents}, InCalendar date → Moved size (step date) date) (count : Nat)
    (inCalendar : InCalendar date) :
    Moved (count * size) (step^[count] date) date := by
  induction count with
  | zero => exact ⟨⟨rfl, rfl, rfl, rfl⟩, inCalendar, by simp⟩
  | succ count ih =>
    rw [Function.iterate_succ_apply']
    have next := moves ih.inCalendar
    refine ⟨⟨next.hour.trans ih.hour, next.minute.trans ih.minute, next.second.trans ih.second,
      next.millisecond.trans ih.millisecond⟩, next.inCalendar, ?_⟩
    rw [next.day, ih.day, Nat.cast_succ, add_mul, one_mul, add_assoc]

theorem addDay_moved {days : Int} {result : DateComponents} (inCalendar : InCalendar date)
    (added : addDay date days = some result) :
    Moved days result date ∧ withinDateLimits result.year result.month result.monthDay = true := by
  rw [addDay, maxDayOfMonth_eq _ inCalendar.month] at added
  obtain ⟨lower, upper⟩ := inCalendar.monthDay
  split_ifs at added with more within less within within
  all_goals
    obtain rfl := Option.some.inj added
    refine ⟨?_, within⟩
  · have moved := iterate_moved nextDay_moved days.toNat inCalendar
    rwa [mul_one, Int.toNat_of_nonneg (by omega)] at moved
  · have moved := iterate_moved previousDay_moved (-days).toNat inCalendar
    rwa [Int.toNat_of_nonneg (by omega), mul_neg, mul_one, neg_neg] at moved
  · refine ⟨⟨rfl, rfl, rfl, rfl⟩, ⟨inCalendar.month, ⟨by dsimp only; omega, by dsimp only; omega⟩⟩, ?_⟩
    rw [DateComponents.day, DateComponents.day, dayNumber, dayNumber]
    dsimp only
    omega

end Days

/-! ### Limits -/

section Limits

variable {date : DateComponents}

/-- Where a day stands against the last one. -/
theorem day_position (inCalendar : InCalendar date) :
    date.year < maximumYear ∧ date.day ≤ lastDay ∨ date.year = maximumYear ∧ date.month < 8 ∧ date.day ≤ lastDay ∨
      date.year = maximumYear ∧ date.month = 8 ∧ date.day = lastDay + (date.monthDay - 13) ∨
      date.year = maximumYear ∧ 8 < date.month ∧ lastDay + 1 < date.day ∨ maximumYear < date.year ∧
      lastDay + 1 < date.day := by
  obtain ⟨⟨lower, upper⟩, inMonth⟩ := inCalendar
  have last : lastDay = 100719162 := by decide
  have maximum : daysBefore maximumYear = 100718906 := by decide
  obtain ⟨fromMonth, beforeNext, fromYear, beforeYear⟩ :=
    Calendar.dayNumber_bounds (show date.month.toNat < 12 by omega) inMonth
  rw [← day] at *
  rcases lt_trichotomy date.year maximumYear with less | same | more
  · rcases eq_or_lt_of_le (show date.year + 1 ≤ maximumYear from less) with next | later
    · rw [next] at beforeYear
      omega
    · have := Calendar.daysBefore_lt later
      omega
  · rw [same] at fromMonth beforeNext
    rcases lt_trichotomy date.month 8 with less | september | more
    · have := Calendar.daysBeforeMonth_mono maximumYear (show date.month.toNat + 1 ≤ 8 by omega)
      rw [show daysBeforeMonth maximumYear 8 = 244 by decide] at this
      omega
    · have day_eq : date.day = daysBefore maximumYear + 244 + (date.monthDay - 1) := by
        rw [day, dayNumber, same, september, show daysBeforeMonth maximumYear (8 : Int).toNat = 244 by decide]
      omega
    · have := Calendar.daysBeforeMonth_mono maximumYear (show 9 ≤ date.month.toNat by omega)
      rw [show daysBeforeMonth maximumYear 9 = 274 by decide] at this
      omega
  · have := Calendar.daysBefore_lt more
    omega

theorem withinDateLimits_iff {year month monthDay : Int} : withinDateLimits year month monthDay = true ↔
    1 ≤ year ∧ (year < maximumYear ∨ month < 8 ∨ monthDay ≤ 13) := by
  rw [withinDateLimits, minimumYear, maximumMonthInMaximumYear, maximumDayInMaximumMonth]
  split_ifs <;> simp <;> omega

/-- A day that passes is not the one behind the last day. -/
theorem day_le_lastDay (inCalendar : InCalendar date)
    (within : withinDateLimits date.year date.month date.monthDay = true) (almost : date.day ≤ lastDay + 1) :
    date.day ≤ lastDay := by
  have limits := withinDateLimits_iff.mp within
  rcases day_position inCalendar with position | position | position | position | position <;> omega

end Limits

/-! ### Instants -/

structure ValidTime (date : DateComponents) : Prop where
  hour : 0 ≤ date.hour ∧ date.hour ≤ 23
  minute : 0 ≤ date.minute ∧ date.minute ≤ 59
  second : 0 ≤ date.second ∧ date.second ≤ 59
  millisecond : 0 ≤ date.millisecond ∧ date.millisecond ≤ 999

/-- A day from the first of January of year 1 to the last one. -/
structure ValidDate (date : DateComponents) : Prop extends InCalendar date where
  first : 1 ≤ date.year
  last : date.day ≤ lastDay

/-- Milliseconds from the first day on. -/
def instant (date : DateComponents) : Int := date.day * msPerDay + date.millisecondsSinceEpochForTime

theorem carry_minutes (value : Int) : 0 ≤ value - carry value 59 * 60 ∧ value - carry value 59 * 60 ≤ 59 := by
  rw [carry]
  split_ifs <;> omega

theorem carry_hours {value : Int} (near : -24 ≤ value ∧ value ≤ 47) :
    0 ≤ value - carry value 23 * 24 ∧ value - carry value 23 * 24 ≤ 23 ∧ -1 ≤ carry value 23 ∧ carry value 23 ≤ 1 := by
  rw [carry]
  split_ifs <;> omega

section Minutes

variable {date result : DateComponents}

theorem year_of_withinHTMLDateLimits (within : date.withinHTMLDateLimits = true) : 1 ≤ date.year := by
  by_contra less
  rw [withinHTMLDateLimits, if_pos (by rw [minimumYear]; omega)] at within
  cases within

theorem addMinute_spec {offset : Int} (valid : ValidDate date) (time : ValidTime date)
    (near : -1439 ≤ offset ∧ offset ≤ 1439) (added : addMinute date offset = some result) :
    ValidDate result ∧ ValidTime result ∧ result.instant = date.instant + offset * 60000 ∧
      result.withinHTMLDateLimits = true := by
  obtain ⟨hour, minute, second, millisecond⟩ := time
  have minutesIn := carry_minutes (offset + date.minute)
  have hoursNear : -24 ≤ carry (offset + date.minute) 59 ∧ carry (offset + date.minute) 59 ≤ 24 := by
    rw [carry]
    split_ifs <;> omega
  have daysNear := @carry_hours (date.hour + carry (offset + date.minute) 59) (by omega)
  rw [addMinute] at added
  dsimp only at added
  generalize carry (offset + date.minute) 59 = hours at *
  generalize carry (date.hour + hours) 23 = days at *
  obtain ⟨⟨month, monthDay⟩, first, last⟩ := valid
  split_ifs at added with noHours within noDays within
  · obtain rfl := Option.some.inj added
    refine ⟨⟨⟨month, monthDay⟩, first, last⟩, ⟨hour, by dsimp only; omega, second, millisecond⟩, ?_, within⟩
    rw [instant, instant, day, day, millisecondsSinceEpochForTime, millisecondsSinceEpochForTime]
    dsimp only
    omega
  · obtain rfl := Option.some.inj added
    refine ⟨⟨⟨month, monthDay⟩, first, last⟩,
      ⟨by dsimp only; omega, by dsimp only; omega, second, millisecond⟩, ?_, within⟩
    rw [instant, instant, day, day, millisecondsSinceEpochForTime, millisecondsSinceEpochForTime]
    dsimp only
    omega
  · obtain ⟨moved, added', rest⟩ := bind_eq_some_iff.mp added
    split_ifs at rest with within
    obtain rfl := Option.some.inj rest
    obtain ⟨⟨same, inCalendar, day_eq⟩, limit⟩ := addDay_moved ⟨month, monthDay⟩ added'
    have last' := day_le_lastDay inCalendar limit (by omega)
    refine ⟨⟨⟨inCalendar.month, inCalendar.monthDay⟩, year_of_withinHTMLDateLimits within, last'⟩,
      ⟨by dsimp only; omega, by dsimp only; omega, by dsimp only; rw [same.second]; exact second, by
        dsimp only; rw [same.millisecond]; exact millisecond⟩, ?_, within⟩
    rw [instant, instant, millisecondsSinceEpochForTime, millisecondsSinceEpochForTime]
    change moved.day * _ + _ = _
    rw [day_eq, msPerDay]
    dsimp only
    rw [same.second, same.millisecond]
    omega

end Minutes

end WebNode.Platform.DateComponents
