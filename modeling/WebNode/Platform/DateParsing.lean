import WebNode.Platform.DateArithmetic

/-!
# Parsing dates and times

What `parseDate`, `parseTime`, `parseDateTimeLocal` and `parseDateTime` store. The seconds of a time are
optional: where the two digits behind the second colon are too large they are not taken, but stored.
-/

namespace WebNode.Platform.DateComponents

/-! ### The code -/

/-- The optional fraction of a second. -/
def parseFraction (src : List UChar) (index : Nat) : Int × Nat :=
  if src[index]? = some 0x2E then
    let digitsLength := countDigits src (index + 1)
    if digitsLength > 0 then
      let millisecond :=
        if digitsLength = 1 then (toInt src (index + 1) 1).getD 0 * 100
        else if digitsLength = 2 then (toInt src (index + 1) 2).getD 0 * 10
        else (toInt src (index + 1) 3).getD 0
      (millisecond, index + 1 + digitsLength)
    else (0, index)
  else (0, index)

/-- The optional seconds. `toInt` writes the variable that is stored before the number is tested. -/
def parseSecond (src : List UChar) (index : Nat) : Int × Int × Nat :=
  if index + 2 < src.length ∧ src[index]? = some 0x3A then
    match toInt src (index + 1) 2 with
    | some second => if 0 ≤ second ∧ second ≤ 59 then (second, parseFraction src (index + 3)) else (second, 0, index)
    | none => (0, 0, index)
  else (0, 0, index)

def parseTime (date : DateComponents) (src : List UChar) (start : Nat) : Option (DateComponents × Nat) := do
  let hour ← toInt src start 2
  guard (0 ≤ hour ∧ hour ≤ 23)
  guard (src[start + 2]? = some 0x3A)
  let minute ← toInt src (start + 3) 2
  guard (0 ≤ minute ∧ minute ≤ 59)
  let seconds := parseSecond src (start + 5)
  return ({ date with hour := hour, minute := minute, second := seconds.1, millisecond := seconds.2.1, type := .time },
    seconds.2.2)

/-- Parses a time zone and subtracts its offset. -/
def parseTimeZone (date : DateComponents) (src : List UChar) (start : Nat) : Option (DateComponents × Nat) :=
  if src[start]? = some 0x5A then some (date, start + 1)
  else do
    guard (src[start]? = some 0x2B ∨ src[start]? = some 0x2D)
    let hour ← toInt src (start + 1) 2
    guard (0 ≤ hour ∧ hour ≤ 23)
    guard (src[start + 3]? = some 0x3A)
    let minute ← toInt src (start + 4) 2
    guard (0 ≤ minute ∧ minute ≤ 59)
    let offset := if src[start]? = some 0x2D then -hour * 60 + -minute else hour * 60 + minute
    let date ← addMinute date (-offset)
    return (date, start + 6)

def parseDateTimeLocal (date : DateComponents) (src : List UChar) (start : Nat) : Option (DateComponents × Nat) := do
  let (date, index) ← parseDate date src start
  guard (src[index]? = some 0x54)
  let (date, stop) ← parseTime date src (index + 1)
  guard (date.withinHTMLDateLimits)
  return ({ date with type := .dateTimeLocal }, stop)

def parseDateTime (date : DateComponents) (src : List UChar) (start : Nat) : Option (DateComponents × Nat) := do
  let (date, index) ← parseDate date src start
  guard (src[index]? = some 0x54)
  let (date, index) ← parseTime date src (index + 1)
  let (date, stop) ← parseTimeZone date src index
  guard (date.withinHTMLDateLimits)
  return ({ date with type := .dateTime }, stop)

/-! ### What characters denote -/

structure TwoDigits (text : List UChar) (value : Int) : Prop where
  length : text.length = 2
  digits : Digits text
  number : (number text : Int) = value

/-- A date; months are written from one on. -/
inductive DateText : List UChar → Int → Int → Int → Prop
  | mk {yearText monthText dayText : List UChar} {month day : Int} (digits : Digits yearText)
      (long : 4 ≤ yearText.length) (writtenMonth : TwoDigits monthText (month + 1))
      (writtenDay : TwoDigits dayText day) :
      DateText (yearText ++ ([0x2D] ++ (monthText ++ ([0x2D] ++ dayText)))) (number yearText) month day

/-- The milliseconds of a fraction; what is finer is dropped. -/
def milliseconds (fraction : List UChar) : Int := number ((fraction ++ [48, 48]).take 3)

/-- A time with or without seconds. -/
inductive TimeText : List UChar → Int → Int → Int → Int → Prop
  | minutes {hourText minuteText : List UChar} {hour minute : Int} (writtenHour : TwoDigits hourText hour)
      (writtenMinute : TwoDigits minuteText minute) : TimeText (hourText ++ ([0x3A] ++ minuteText)) hour minute 0 0
  | seconds {hourText minuteText secondText : List UChar} {hour minute second : Int}
      (writtenHour : TwoDigits hourText hour) (writtenMinute : TwoDigits minuteText minute)
      (writtenSecond : TwoDigits secondText second) :
      TimeText (hourText ++ ([0x3A] ++ minuteText) ++ ([0x3A] ++ secondText)) hour minute second 0
  | fraction {hourText minuteText secondText fraction : List UChar} {hour minute second : Int}
      (writtenHour : TwoDigits hourText hour) (writtenMinute : TwoDigits minuteText minute)
      (writtenSecond : TwoDigits secondText second) (nonempty : fraction ≠ []) (digits : Digits fraction) :
      TimeText (hourText ++ ([0x3A] ++ minuteText) ++ ([0x3A] ++ secondText ++ ([0x2E] ++ fraction))) hour minute second
        (milliseconds fraction)

/-- A time zone and its offset in minutes. -/
inductive ZoneText : List UChar → Int → Prop
  | utc : ZoneText [0x5A] 0
  | ahead {hourText minuteText : List UChar} {hour minute : Int} (writtenHour : TwoDigits hourText hour)
      (writtenMinute : TwoDigits minuteText minute) (hours : hour ≤ 23) (minutes : minute ≤ 59) :
      ZoneText ([0x2B] ++ (hourText ++ ([0x3A] ++ minuteText))) (hour * 60 + minute)
  | behind {hourText minuteText : List UChar} {hour minute : Int} (writtenHour : TwoDigits hourText hour)
      (writtenMinute : TwoDigits minuteText minute) (hours : hour ≤ 23) (minutes : minute ≤ 59) :
      ZoneText ([0x2D] ++ (hourText ++ ([0x3A] ++ minuteText))) (-(hour * 60 + minute))

/-! ### Numbers of two digits -/

theorem number_lt {text : List UChar} (digits : Digits text) : number text < 10 ^ text.length := by
  induction text using List.reverseRecOn with
  | nil => exact Nat.one_pos
  | append_singleton front c ih =>
    have before := ih fun d member => digits d (List.mem_append_left _ member)
    have digit := digits c (List.mem_append_right _ (List.mem_singleton_self c))
    rw [isASCIIDigit, decide_eq_true_eq] at digit
    rw [number_append, List.length_append, List.length_singleton, pow_succ]
    omega

theorem TwoDigits.bounds {text : List UChar} {value : Int} (written : TwoDigits text value) :
    0 ≤ value ∧ value ≤ 99 := by
  have := number_lt written.digits
  rw [written.length] at this
  have := written.number
  omega

theorem padded_two {value : Int} (bounds : 0 ≤ value ∧ value ≤ 99) : TwoDigits (padded 2 value) value :=
  ⟨padded_length bounds.1 (by omega), (padded_spec 2 bounds.1).2.1, (padded_spec 2 bounds.1).1⟩

theorem reads_append_iff {src text more : List UChar} {start stop : Nat} :
    Reads src start (text ++ more) stop ↔ Reads src start text (start + text.length) ∧
      Reads src (start + text.length) more stop := by
  refine ⟨fun reads => ?_, fun ⟨first, second⟩ => first.append second⟩
  have rest : src.drop (start + text.length) = more ++ src.drop stop := by
    rw [← List.drop_drop, reads.drop_eq, List.append_assoc, List.drop_left]
  refine ⟨⟨rfl, ?_⟩, ⟨?_, rest⟩⟩
  · rw [reads.drop_eq, rest, List.append_assoc]
  · rw [reads.stop_eq, List.length_append, Nat.add_assoc]

theorem withinMonthLimits_iff {year month : Int} :
    withinMonthLimits year month = true ↔ 1 ≤ year ∧ (year < maximumYear ∨ month ≤ 8) := by
  rw [withinMonthLimits, minimumYear, maximumMonthInMaximumYear]
  split_ifs <;> simp <;> omega

theorem milliseconds_bounds {fraction : List UChar} (digits : Digits fraction) :
    0 ≤ milliseconds fraction ∧ milliseconds fraction ≤ 999 := by
  have digits' : Digits ((fraction ++ [48, 48]).take 3) := by
    intro c member
    rcases List.mem_append.mp (List.mem_of_mem_take member) with member | member
    · exact digits c member
    · simp only [List.mem_cons, List.not_mem_nil, or_false, or_self] at member
      rw [member]
      rfl
  have := number_lt digits'
  have := Nat.pow_le_pow_right (show 0 < 10 by decide) (List.length_take_le 3 (fraction ++ [48, 48]))
  rw [milliseconds]
  omega

/-- Two digits from 60 on stand behind a colon. -/
def LateSecond (src : List UChar) (index : Nat) : Prop :=
  ∃ text second, Reads src index ([0x3A] ++ text) (index + 3) ∧ TwoDigits text second ∧ 60 ≤ second

section Short

variable {src : List UChar} (short : src.length < 2 ^ 31) {start stop index : Nat}

include short

theorem toInt_two_iff {value : Int} :
    toInt src start 2 = some value ↔ ∃ text, Reads src start text (start + 2) ∧ TwoDigits text value := by
  rw [toInt_eq_some_iff short]
  constructor
  · rintro ⟨-, text, reads, digits, same, -⟩
    have := reads.stop_eq
    exact ⟨text, reads, by omega, digits, same⟩
  · rintro ⟨text, reads, written⟩
    have := written.bounds
    have := written.number
    exact ⟨by decide, text, reads, written.digits, written.number, by omega⟩

/-! ### Dates -/

theorem parseMonth_eq_some_iff {date result : DateComponents} :
    parseMonth date src start = some (result, stop) ↔
      ∃ yearText monthText month, Reads src start (yearText ++ ([0x2D] ++ monthText)) stop ∧ Digits yearText ∧
        4 ≤ yearText.length ∧ TwoDigits monthText (month + 1) ∧
        (1 ≤ (number yearText : Int) ∧ (number yearText : Int) ≤ 275760) ∧ (0 ≤ month ∧ month ≤ 11) ∧
        withinMonthLimits (number yearText) month = true ∧
        result = { date with year := number yearText, month := month, type := .month } := by
  rw [parseMonth]
  simp only [↓guard_bind_eq_some_iff, bind_eq_some_iff, Option.pure_def, Option.some.injEq, Prod.mk.injEq,
    toInt_two_iff short, Prod.exists, parseYear_eq_some_iff short, ← reads_unit_iff]
  constructor
  · rintro ⟨_, index, ⟨yearText, reads, digits, long, -, lower, upper, rfl⟩, dash, month, ⟨monthText, reads', written⟩,
      range, within, rfl, rfl⟩
    refine ⟨yearText, monthText, month - 1, reads.append (dash.append reads'), digits, long, ?_, ⟨lower, upper⟩,
      by omega, within, rfl⟩
    rwa [Int.sub_add_cancel]
  · rintro ⟨yearText, monthText, month, reads, digits, long, written, ⟨lower, upper⟩, range, within, rfl⟩
    rw [reads_append_iff, reads_append_iff] at reads
    obtain ⟨first, dash, second⟩ := reads
    refine ⟨_, _, ⟨yearText, first, digits, long, ?_, lower, upper, rfl⟩, dash, month + 1, ⟨monthText, ?_, written⟩,
      by omega, ?_, ?_, ?_⟩
    · intro c next
      cases dash.unique next
      rfl
    · have := second.stop_eq
      rw [written.length] at this
      rw [this] at second
      exact second
    · rwa [Int.add_sub_cancel]
    · rw [Int.add_sub_cancel]
    · rw [second.stop_eq, written.length]
      rfl

theorem parseDate_spec {date result : DateComponents} (parsed : parseDate date src start = some (result, stop)) :
    (∃ text, Reads src start text stop ∧ DateText text result.year result.month result.monthDay) ∧ ValidDate result ∧
      SameTime result date ∧ result.type = .date := by
  rw [parseDate] at parsed
  simp only [↓guard_bind_eq_some_iff, bind_eq_some_iff, Option.pure_def, Option.some.injEq, Prod.mk.injEq,
    toInt_two_iff short, Prod.exists, parseMonth_eq_some_iff short, ← reads_unit_iff] at parsed
  obtain ⟨_, index, ⟨yearText, monthText, month, reads, digits, long, written, ⟨lower, upper⟩, range, within, rfl⟩, -,
    dash, day, ⟨dayText, reads', written'⟩, ⟨least, most⟩, within', rfl, rfl⟩ := parsed
  have inCalendar : InCalendar { date with year := number yearText, month := month, monthDay := day, type := .date } :=
    ⟨range, least, by rwa [maxDayOfMonth_eq _ range] at most⟩
  refine ⟨⟨_, reads.append (dash.append reads'), ?_⟩, ⟨inCalendar, lower, ?_⟩, ⟨rfl, rfl, rfl, rfl⟩, rfl⟩
  · rw [List.append_assoc, List.append_assoc]
    exact .mk digits long written written'
  · have first := withinMonthLimits_iff.mp within
    have second := withinDateLimits_iff.mp within'
    have position := day_position inCalendar
    rw [maximumYear] at first second position
    dsimp only at first second position ⊢
    omega

theorem parseDate_of_text {date : DateComponents} {text : List UChar} {year month day : Int}
    (reads : Reads src start text stop) (written : DateText text year month day)
    (valid : ValidDate { date with year := year, month := month, monthDay := day }) :
    parseDate date src start =
      some ({ date with year := year, month := month, monthDay := day, type := .date }, stop) := by
  obtain ⟨inCalendar, first, last⟩ := valid
  have position := day_position inCalendar
  dsimp only at position first
  cases written with
  | @mk yearText monthText dayText _ _ digits long writtenMonth writtenDay =>
    rw [parseDate]
    simp only [↓guard_bind_eq_some_iff, bind_eq_some_iff, Option.pure_def, Option.some.injEq, Prod.mk.injEq,
      toInt_two_iff short, Prod.exists, parseMonth_eq_some_iff short, ← reads_unit_iff]
    rw [← List.append_assoc [0x2D], ← List.append_assoc yearText, reads_append_iff] at reads
    obtain ⟨front, reads⟩ := reads
    obtain ⟨dash, rest⟩ := reads_append_iff.mp reads
    have stop_eq := rest.stop_eq
    rw [writtenDay.length] at stop_eq
    have inside := rest.le (List.length_pos_iff.mp (writtenDay.length.symm ▸ Nat.two_pos))
    have lengths : ([0x2D] : List UChar).length = 1 := rfl
    refine ⟨_, _,
      ⟨yearText, monthText, month, front, digits, long, writtenMonth, ⟨first, ?_⟩, inCalendar.month,
        withinMonthLimits_iff.mpr ?_, rfl⟩,
          by omega, dash, day, ⟨dayText, ?_, writtenDay⟩, ⟨inCalendar.monthDay.1, ?_⟩, withinDateLimits_iff.mpr ?_, rfl,
            ?_⟩
    · rw [maximumYear] at position
      omega
    · omega
    · rw [stop_eq] at rest
      exact rest
    · rw [maxDayOfMonth_eq _ inCalendar.month]
      exact inCalendar.monthDay.2
    · dsimp only
      omega
    · omega

/-! ### Times -/

theorem toInt_take {text : List UChar} {count : Nat} (reads : Reads src start text stop) (digits : Digits text)
    (positive : count ≠ 0) (few : count ≤ 3) (le : count ≤ text.length) :
    toInt src start count = some (number (text.take count) : Int) := by
  have split := List.take_append_drop count text
  have length : (text.take count).length = count := List.length_take_of_le le
  have digits' : Digits (text.take count) := fun c member => digits c (List.mem_of_mem_take member)
  rw [← split, reads_append_iff, length] at reads
  refine (toInt_eq_some_iff short).mpr ⟨positive, _, reads.1, digits', rfl, ?_⟩
  have := number_lt digits'
  have := Nat.pow_le_pow_right (show 0 < 10 by decide) (length.trans_le few)
  omega

theorem parseFraction_of_reads {fraction : List UChar} (reads : Reads src index ([0x2E] ++ fraction) stop)
    (nonempty : fraction ≠ []) (digits : Digits fraction)
    (notDigit : ∀ c, src[stop]? = some c → isASCIIDigit c = false) :
    parseFraction src index = (milliseconds fraction, stop) := by
  obtain ⟨dot, rest⟩ := reads_append_iff.mp reads
  change Reads src (index + 1) fraction stop at rest
  have count : countDigits src (index + 1) = fraction.length := countDigits_eq rest digits notDigit
  have positive := List.length_pos_iff.mpr nonempty
  rw [parseFraction, if_pos (reads_unit_iff.mp dot), count, if_pos positive, milliseconds, rest.stop_eq]
  split_ifs with one two
  · obtain ⟨a, rfl⟩ := List.length_eq_one_iff.mp one
    rw [toInt_take short rest digits (show 1 ≠ 0 by decide) (by decide) le_rfl]
    simp [number]
    omega
  · obtain ⟨a, b, rfl⟩ := List.length_eq_two.mp two
    rw [toInt_take short rest digits (show 2 ≠ 0 by decide) (by decide) le_rfl]
    simp [number]
  · rw [toInt_take short rest digits (show 3 ≠ 0 by decide) le_rfl (by omega), List.take_append_of_le_length (by omega)]
    rfl

/-- What is behind the index is no fraction, or one that is read. -/
theorem parseFraction_cases (index : Nat) :
    parseFraction src index = (0, index) ∨
      ∃ fraction stop, Reads src index ([0x2E] ++ fraction) stop ∧ fraction ≠ [] ∧ Digits fraction ∧
        parseFraction src index = (milliseconds fraction, stop) := by
  by_cases dot : src[index]? = some 0x2E
  · by_cases positive : countDigits src (index + 1) > 0
    · have rest := countDigits_reads src (index + 1)
      have digits : Digits ((src.drop (index + 1)).takeWhile isASCIIDigit) := List.all_eq_true.mp List.all_takeWhile
      have nonempty := List.length_pos_iff.mp positive
      have reads := (reads_unit_iff.mpr dot).append rest
      exact .inr
        ⟨_, _, reads, nonempty, digits,
          parseFraction_of_reads short reads nonempty digits (countDigits_stops src (index + 1))⟩
    · rw [parseFraction, if_pos dot, if_neg positive]
      exact .inl rfl
  · rw [parseFraction, if_neg dot]
    exact .inl rfl

theorem parseSecond_of_reads {text : List UChar} {second : Int} (reads : Reads src index ([0x3A] ++ text) (index + 3))
    (written : TwoDigits text second) :
    parseSecond src index = if second ≤ 59 then (second, parseFraction src (index + 3)) else (second, 0, index) := by
  obtain ⟨colon, rest⟩ := reads_append_iff.mp reads
  change Reads src (index + 1) text (index + 1 + 2) at rest
  have inside := reads.le (by simp)
  rw [parseSecond, if_pos ⟨by omega, reads_unit_iff.mp colon⟩, (toInt_two_iff short).mpr ⟨text, rest, written⟩]
  simp only [written.bounds.1, true_and]

theorem parseSecond_none (none : ¬ ∃ text second, Reads src index ([0x3A] ++ text) (index + 3) ∧
    TwoDigits text second) :
    parseSecond src index = (0, 0, index) := by
  rw [parseSecond]
  split
  · next colon =>
    cases read : toInt src (index + 1) 2 with
    | none => rfl
    | some second =>
      obtain ⟨text, reads, written⟩ := (toInt_two_iff short).mp read
      exact absurd ⟨text, second, (reads_unit_iff.mpr colon.2).append reads, written⟩ none
  · rfl

theorem parseTime_eq_some_iff {date result : DateComponents} :
    parseTime date src start = some (result, stop) ↔
      ∃ hourText minuteText hour minute, Reads src start (hourText ++ ([0x3A] ++ minuteText))
        (start + 5) ∧ TwoDigits hourText hour ∧ TwoDigits minuteText minute ∧ hour ≤ 23 ∧ minute ≤ 59 ∧
        result = { date with hour := hour, minute := minute, second := (parseSecond src (start + 5)).1,
                             millisecond := (parseSecond src (start + 5)).2.1, type := .time } ∧
        stop = (parseSecond src (start + 5)).2.2 := by
  rw [parseTime]
  simp only [↓guard_bind_eq_some_iff, bind_eq_some_iff, Option.pure_def, Option.some.injEq, Prod.mk.injEq,
    toInt_two_iff short, ← reads_unit_iff]
  constructor
  · rintro ⟨hour, ⟨hourText, reads, written⟩, ⟨-, hours⟩, colon, minute, ⟨minuteText, reads', written'⟩, ⟨-, minutes⟩,
      rfl, rfl⟩
    exact ⟨hourText, minuteText, hour, minute, reads.append (colon.append reads'), written, written', hours, minutes,
      rfl, rfl⟩
  · rintro ⟨hourText, minuteText, hour, minute, reads, written, written', hours, minutes, rfl, rfl⟩
    rw [reads_append_iff, reads_append_iff, written.length] at reads
    exact ⟨hour, ⟨hourText, reads.1, written⟩, ⟨written.bounds.1, hours⟩, reads.2.1, minute,
      ⟨minuteText, reads.2.2, written'⟩, ⟨written'.bounds.1, minutes⟩, rfl, rfl⟩

theorem parseTime_spec {date result : DateComponents} (parsed : parseTime date src start = some (result, stop))
    (inRange : ¬ LateSecond src (start + 5)) :
    (∃ text, Reads src start text stop ∧ TimeText text result.hour result.minute result.second result.millisecond) ∧
      ValidTime result := by
  obtain ⟨hourText, minuteText, hour, minute, reads, written, written', hours, minutes, rfl, rfl⟩ :=
    (parseTime_eq_some_iff short).mp parsed
  by_cases found : ∃ text second, Reads src (start + 5) ([0x3A] ++ text) (start + 5 + 3) ∧ TwoDigits text second
  · obtain ⟨text, second, reads', written''⟩ := found
    have small : second ≤ 59 := by
      by_contra late
      exact inRange ⟨text, second, reads', written'', by omega⟩
    rw [parseSecond_of_reads short reads' written'', if_pos small]
    rcases parseFraction_cases short (start + 5 + 3) with none | ⟨fraction, stop, reads'', nonempty, digits, some⟩
    · rw [none]
      exact ⟨⟨_, reads.append reads', .seconds written written' written''⟩, ⟨written.bounds.1, hours⟩,
        ⟨written'.bounds.1, minutes⟩, ⟨written''.bounds.1, small⟩, le_rfl, show (0 : Int) ≤ 999 by decide⟩
    · rw [some]
      exact ⟨⟨_, reads.append (reads'.append reads''), .fraction written written' written'' nonempty digits⟩,
        ⟨written.bounds.1, hours⟩, ⟨written'.bounds.1, minutes⟩, ⟨written''.bounds.1, small⟩,
          milliseconds_bounds digits⟩
  · rw [parseSecond_none short found]
    exact ⟨⟨_, reads, .minutes written written'⟩, ⟨written.bounds.1, hours⟩, ⟨written'.bounds.1, minutes⟩,
      ⟨le_rfl, show (0 : Int) ≤ 59 by decide⟩, le_rfl, show (0 : Int) ≤ 999 by decide⟩

theorem parseTime_late {date result : DateComponents} (parsed : parseTime date src start = some (result, stop))
    (late : LateSecond src (start + 5)) : 60 ≤ result.second ∧ src[stop]? = some 0x3A := by
  obtain ⟨hourText, minuteText, hour, minute, reads, written, written', hours, minutes, rfl, rfl⟩ :=
    (parseTime_eq_some_iff short).mp parsed
  obtain ⟨text, second, reads', written'', large⟩ := late
  rw [parseSecond_of_reads short reads' written'', if_neg (by omega)]
  exact ⟨large, reads_unit_iff.mp (reads_append_iff.mp reads').1⟩

/-- What may follow a printed time. -/
def Ends (src : List UChar) (stop : Nat) : Prop := ∀ c, src[stop]? = some c → c = 0x5A

theorem parseTime_of_text {date : DateComponents} {text : List UChar} {hour minute second millisecond : Int}
    (reads : Reads src start text stop) (written : TimeText text hour minute second millisecond) (hours : hour ≤ 23)
    (minutes : minute ≤ 59) (seconds : second ≤ 59) (ends : Ends src stop) :
    parseTime date src start =
      some ({ date with hour := hour, minute := minute, second := second, millisecond := millisecond, type := .time },
      stop) := by
  rw [parseTime_eq_some_iff short]
  cases written with
  | @minutes hourText minuteText _ _ writtenHour writtenMinute =>
    obtain rfl : stop = start + 5 := by
      have := reads.stop_eq
      simpa [writtenHour.length, writtenMinute.length] using this
    have none := @parseSecond_none src short (start + 5) (by
      rintro ⟨text, second, colon, -⟩
      cases ends _ (reads_unit_iff.mp (reads_append_iff.mp colon).1))
    rw [none]
    exact ⟨hourText, minuteText, hour, minute, reads, writtenHour, writtenMinute, hours, minutes, rfl, rfl⟩
  | @seconds hourText minuteText secondText _ _ _ writtenHour writtenMinute writtenSecond =>
    have five : (hourText ++ ([0x3A] ++ minuteText)).length = 5 := by simp [writtenHour.length, writtenMinute.length]
    rw [reads_append_iff, five] at reads
    obtain ⟨front, rest⟩ := reads
    obtain rfl : stop = start + 5 + 3 := by
      have := rest.stop_eq
      simpa [writtenSecond.length] using this
    have none : parseFraction src (start + 5 + 3) = (0, start + 5 + 3) := by
      rw [parseFraction, if_neg fun dot => by cases ends _ dot]
    rw [parseSecond_of_reads short rest writtenSecond, if_pos seconds, none]
    exact ⟨hourText, minuteText, hour, minute, front, writtenHour, writtenMinute, hours, minutes, rfl, rfl⟩
  | @fraction hourText minuteText secondText fraction _ _ _ writtenHour writtenMinute writtenSecond nonempty digits =>
    have five : (hourText ++ ([0x3A] ++ minuteText)).length = 5 := by simp [writtenHour.length, writtenMinute.length]
    have three : ([0x3A] ++ secondText).length = 3 := by simp [writtenSecond.length]
    rw [reads_append_iff, five] at reads
    obtain ⟨front, rest⟩ := reads
    rw [reads_append_iff, three] at rest
    have some := parseFraction_of_reads short rest.2 nonempty digits fun c next => by
      rw [ends c next]
      rfl
    rw [parseSecond_of_reads short rest.1 writtenSecond, if_pos seconds, some]
    exact ⟨hourText, minuteText, hour, minute, front, writtenHour, writtenMinute, hours, minutes, rfl, rfl⟩

/-! ### Time zones -/

theorem parseTimeZone_spec {date result : DateComponents} (valid : ValidDate date) (time : ValidTime date)
    (parsed : parseTimeZone date src start = some (result, stop)) :
    ∃ text offset, Reads src start text stop ∧ ZoneText text offset ∧ ValidDate result ∧ ValidTime result ∧
      result.instant = date.instant - offset * 60000 := by
  rw [parseTimeZone] at parsed
  split at parsed
  · next utc =>
    obtain ⟨rfl, rfl⟩ := Prod.mk.inj (Option.some.inj parsed)
    exact ⟨[0x5A], 0, reads_unit_iff.mpr utc, .utc, valid, time, by rw [zero_mul, sub_zero]⟩
  · simp only [↓guard_bind_eq_some_iff, bind_eq_some_iff, Option.pure_def, Option.some.injEq, Prod.mk.injEq,
      toInt_two_iff short, ← reads_unit_iff] at parsed
    obtain ⟨sign, hour, ⟨hourText, reads, written⟩, ⟨-, hours⟩, colon, minute, ⟨minuteText, reads', written'⟩,
      ⟨-, minutes⟩, moved, added, rfl, rfl⟩ := parsed
    have bounds := written.bounds
    have bounds' := written'.bounds
    have rest := reads.append (colon.append reads')
    split_ifs at added with minus
    · obtain ⟨valid', time', same, -⟩ := addMinute_spec valid time (by omega) added
      exact ⟨_, _, (reads_unit_iff.mpr minus).append rest, .behind written written' hours minutes, valid', time',
        by rw [same]; ring⟩
    · obtain ⟨valid', time', same, -⟩ := addMinute_spec valid time (by omega) added
      exact ⟨_, _, (sign.resolve_right fun reads => minus (reads_unit_iff.mp reads)).append rest,
        .ahead written written' hours minutes, valid', time', by rw [same]; ring⟩

end Short

/-! ### Printed text -/

section Printed

variable {date : DateComponents}

theorem dateText_printed (valid : ValidDate date) :
    DateText date.toStringForDate date.year date.month date.monthDay := by
  obtain ⟨⟨month, lower, upper⟩, first, -⟩ := valid
  obtain ⟨same, digits, long⟩ := padded_spec 4 (show 0 ≤ date.year by omega)
  have length := (Calendar.monthLength_bounds date.year date.month.toNat).2
  have text := DateText.mk digits long (padded_two (show 0 ≤ date.month + 1 ∧ date.month + 1 ≤ 99 by omega))
    (padded_two (show 0 ≤ date.monthDay ∧ date.monthDay ≤ 99 by omega))
  rw [same] at text
  simpa [toStringForDate] using text

theorem timeText_printed (valid : ValidTime date) (format : SecondFormat) :
    TimeText (date.toStringForTime format) date.hour date.minute date.second date.millisecond := by
  obtain ⟨hour, minute, second, millisecond⟩ := valid
  have writtenHour := padded_two (show 0 ≤ date.hour ∧ date.hour ≤ 99 by omega)
  have writtenMinute := padded_two (show 0 ≤ date.minute ∧ date.minute ≤ 99 by omega)
  have writtenSecond := padded_two (show 0 ≤ date.second ∧ date.second ≤ 99 by omega)
  obtain ⟨same, digits, long⟩ := padded_spec 3 millisecond.1
  have fraction :=
    TimeText.fraction writtenHour writtenMinute writtenSecond
      (List.length_pos_iff.mp (lt_of_lt_of_le (by decide) long)) digits
  have whole : milliseconds (padded 3 date.millisecond) = date.millisecond := by
    rw [milliseconds, List.take_left' (padded_length millisecond.1 (by omega)), same]
  rw [whole] at fraction
  have seconds := TimeText.seconds writtenHour writtenMinute writtenSecond
  have minutes := TimeText.minutes writtenHour writtenMinute
  rw [toStringForTime]
  by_cases noMillisecond : date.millisecond = 0
  · by_cases noSecond : date.second = 0
    · cases format
      · simpa [noMillisecond, noSecond] using minutes
      · simpa [noMillisecond, noSecond] using seconds
      · simpa [noMillisecond, noSecond] using fraction
    · cases format
      · simpa [noMillisecond, noSecond] using seconds
      · simpa [noMillisecond, noSecond] using seconds
      · simpa [noMillisecond, noSecond] using fraction
  · simpa [noMillisecond] using fraction

theorem dateText_length (valid : ValidDate date) : date.toStringForDate.length ≤ 12 := by
  obtain ⟨⟨month, lower, upper⟩, first, last⟩ := valid
  have bound := (Calendar.monthLength_bounds date.year date.month.toNat).2
  have position := day_position ⟨month, lower, upper⟩
  rw [maximumYear] at position
  have year := @padded_length_le 4 6 date.year (by omega) (by decide)
  have month := @padded_length 2 (date.month + 1) (by omega) (by omega)
  have day := @padded_length 2 date.monthDay (by omega) (by omega)
  simp [toStringForDate, month, day]
  omega

theorem timeText_length (valid : ValidTime date) (format : SecondFormat) :
    (date.toStringForTime format).length ≤ 12 := by
  obtain ⟨hour, minute, second, millisecond⟩ := valid
  have hour := @padded_length 2 date.hour (by omega) (by omega)
  have minute := @padded_length 2 date.minute (by omega) (by omega)
  have second := @padded_length 2 date.second (by omega) (by omega)
  have millisecond := @padded_length 3 date.millisecond (by omega) (by omega)
  rw [toStringForTime]
  split <;> simp [hour, minute, second, millisecond]

theorem dateText_noT {text : List UChar} {year month day : Int} (written : DateText text year month day) :
    0x54 ∉ text := by
  have notDigit {digits : List UChar} (all : Digits digits) : 0x54 ∉ digits := fun member => by cases all _ member
  cases written with
  | mk digits long writtenMonth writtenDay =>
    simp [notDigit digits, notDigit writtenMonth.digits, notDigit writtenDay.digits]

end Printed

/-! ### The four functions -/

inductive ParseKind
  | date
  | time
  | dateTimeLocal
  | dateTime

def parse : ParseKind → DateComponents → List UChar → Nat → Option (DateComponents × Nat)
  | .date => parseDate
  | .time => parseTime
  | .dateTimeLocal => parseDateTimeLocal
  | .dateTime => parseDateTime

/-- The stored fields are valid and are what the characters denote. -/
def Denotes (kind : ParseKind) (text : List UChar) (result : DateComponents) : Prop :=
  match kind with
  | .date => ValidDate result ∧ DateText text result.year result.month result.monthDay
  | .time => ValidTime result ∧ TimeText text result.hour result.minute result.second result.millisecond
  | .dateTimeLocal => ValidDate result ∧ ValidTime result ∧
    ∃ dateText timeText, text = dateText ++ ([0x54] ++ timeText) ∧
      DateText dateText result.year result.month result.monthDay ∧
      TimeText timeText result.hour result.minute result.second result.millisecond
  | .dateTime => ValidDate result ∧ ValidTime result ∧
    ∃ dateText timeText zoneText written offset, text = dateText ++ ([0x54] ++ (timeText ++ zoneText)) ∧
      ValidDate written ∧ ValidTime written ∧
      DateText dateText written.year written.month written.monthDay ∧
      TimeText timeText written.hour written.minute written.second written.millisecond ∧ ZoneText zoneText offset ∧
      result.instant = written.instant - offset * 60000

/-- The fields that a function stores. -/
structure SameFields (kind : ParseKind) (date other : DateComponents) : Prop where
  type : date.type = other.type
  day : kind ≠ .time → date.year = other.year ∧ date.month = other.month ∧ date.monthDay = other.monthDay
  time : kind ≠ .date → SameTime date other

/-- The text of an object is parsed to its fields, whatever object it is parsed into. -/
def ReadsBack (kind : ParseKind) (date : DateComponents) : Prop :=
  ∀ format other, ∃ text again, date.toString format = some text ∧ parse kind other text 0 = some (again, text.length) ∧
    SameFields kind again date

/-- The optional seconds of a time start behind `hh:mm`. -/
def secondsIndex (kind : ParseKind) (src : List UChar) (start : Nat) : Option Nat :=
  match kind with
  | .time => some (start + 5)
  | .dateTimeLocal => some (start + (src.drop start).idxOf 0x54 + 1 + 5)
  | .date | .dateTime => none

def SecondInRange (kind : ParseKind) (src : List UChar) (start : Nat) : Prop :=
  ∀ index ∈ secondsIndex kind src start, ¬ LateSecond src index

section Sound

variable {kind : ParseKind} {date result : DateComponents} {src : List UChar} {start stop : Nat}

theorem parseTimeZone_utc (utc : src[start]? = some 0x5A) : parseTimeZone date src start = some (date, start + 1) := by
  rw [parseTimeZone, if_pos utc]

theorem reads_whole (src : List UChar) : Reads src 0 src src.length := ⟨(Nat.zero_add _).symm, by simp⟩

theorem date_readsBack (valid : ValidDate result) (type : result.type = .date) : ReadsBack .date result := by
  intro format other
  have short := lt_of_le_of_lt (dateText_length valid) (show 12 < 2 ^ 31 by decide)
  refine ⟨_, _,
    by rw [toString, type], parseDate_of_text short (reads_whole _) (dateText_printed valid)
      ⟨⟨valid.month, valid.monthDay⟩, valid.first, valid.last⟩, type.symm, fun _ => ⟨rfl, rfl, rfl⟩,
        fun other => absurd rfl other⟩

theorem time_readsBack (valid : ValidTime result) (type : result.type = .time) : ReadsBack .time result := by
  intro format other
  have short := lt_of_le_of_lt (timeText_length valid format) (show 12 < 2 ^ 31 by decide)
  refine ⟨_, _,
    by rw [toString, type],
      parseTime_of_text short (reads_whole _) (timeText_printed valid format) valid.hour.2 valid.minute.2
    valid.second.2 (fun c next => ?_), type.symm, fun other => absurd rfl other, fun _ => ⟨rfl, rfl, rfl, rfl⟩⟩
  simp at next

/-- A day and a time with nothing or a `Z` behind them. -/
theorem parse_day_time {dayText timeText tail : List UChar}
    (short : (dayText ++ ([0x54] ++ (timeText ++ tail))).length < 2 ^ 31) (valid : ValidDate result)
    (time : ValidTime result) (day : DateText dayText result.year result.month result.monthDay)
    (written : TimeText timeText result.hour result.minute result.second result.millisecond)
    (utc : tail = [] ∨ tail = [0x5A]) :
    (∀ date, parseDate date (dayText ++ ([0x54] ++ (timeText ++ tail))) 0 =
      some ({ date with year := result.year, month := result.month, monthDay := result.monthDay, type := .date },
      dayText.length)) ∧
    (dayText ++ ([0x54] ++ (timeText ++ tail)))[dayText.length]? = some 0x54 ∧
    (dayText ++ ([0x54] ++ (timeText ++ tail)))[dayText.length + 1 + timeText.length]? = tail.head? ∧
    ∀ date, parseTime date (dayText ++ ([0x54] ++ (timeText ++ tail))) (dayText.length + 1) =
      some ({ date with hour := result.hour, minute := result.minute, second := result.second,
                        millisecond := result.millisecond, type := .time }, dayText.length + 1 + timeText.length) := by
  have whole := reads_whole (dayText ++ ([0x54] ++ (timeText ++ tail)))
  obtain ⟨readsDay, rest⟩ := reads_append_iff.mp whole
  obtain ⟨readsT, rest⟩ := reads_append_iff.mp rest
  obtain ⟨readsTime, -⟩ := reads_append_iff.mp rest
  rw [Nat.zero_add] at readsDay readsT readsTime
  have behind : (dayText ++ ([0x54] ++ (timeText ++ tail)))[dayText.length + 1 + timeText.length]? = tail.head? := by
    rw [← List.head?_drop, ← List.drop_drop, ← List.drop_drop, List.drop_left]
    change ((timeText ++ tail).drop timeText.length).head? = _
    rw [List.drop_left]
  refine ⟨fun date => ?_, reads_unit_iff.mp readsT, behind, fun date => ?_⟩
  · exact parseDate_of_text short readsDay day ⟨⟨valid.month, valid.monthDay⟩, valid.first, valid.last⟩
  · refine parseTime_of_text short readsTime written time.hour.2 time.minute.2 time.second.2 fun c next => ?_
    rw [behind] at next
    rcases utc with rfl | rfl
    · cases next
    · exact (Option.some.inj next).symm

/-- The fields of a date and a time, stored into an object. -/
def store (date result : DateComponents) (type : DateType) : DateComponents :=
  { date with
    year := result.year, month := result.month, monthDay := result.monthDay, hour := result.hour, minute :=
      result.minute,
    second := result.second, millisecond := result.millisecond, type := type }

theorem store_sameFields (date result : DateComponents) : SameFields kind (store date result result.type) result :=
  ⟨rfl, fun _ => ⟨rfl, rfl, rfl⟩, fun _ => ⟨rfl, rfl, rfl, rfl⟩⟩

theorem dateTimeLocal_readsBack (valid : ValidDate result) (time : ValidTime result)
    (within : result.withinHTMLDateLimits = true) (type : result.type = .dateTimeLocal) :
    ReadsBack .dateTimeLocal result := by
  intro format other
  have dayLength := dateText_length valid
  have timeLength := timeText_length time format
  obtain ⟨day, separator, -, rest⟩ :=
    @parse_day_time result result.toStringForDate (result.toStringForTime format) [] (by simp; omega) valid time
    (dateText_printed valid) (timeText_printed time format) (.inl rfl)
  rw [List.append_nil] at day separator rest
  refine ⟨_, store other result result.type, by rw [toString, type], ?_, store_sameFields other result⟩
  rw [parse, parseDateTimeLocal, type]
  simp only [↓guard_bind_eq_some_iff, bind_eq_some_iff, Option.pure_def, Option.some.injEq, Prod.mk.injEq, Prod.exists]
  exact ⟨_, _, day other, separator, _, _, rest _, within, rfl, by simp; omega⟩

theorem dateTime_readsBack (valid : ValidDate result) (time : ValidTime result)
    (within : result.withinHTMLDateLimits = true) (type : result.type = .dateTime) : ReadsBack .dateTime result := by
  intro format other
  have dayLength := dateText_length valid
  have timeLength := timeText_length time format
  obtain ⟨day, separator, utc, rest⟩ :=
    @parse_day_time result result.toStringForDate (result.toStringForTime format) [0x5A] (by simp; omega) valid
    time (dateText_printed valid) (timeText_printed time format) (.inr rfl)
  refine ⟨_, store other result result.type, by rw [toString, type], ?_, store_sameFields other result⟩
  rw [parse, parseDateTime, type]
  simp only [↓guard_bind_eq_some_iff, bind_eq_some_iff, Option.pure_def, Option.some.injEq, Prod.mk.injEq, Prod.exists]
  exact ⟨_, _, day other, separator, _, _, rest _, _, _, parseTimeZone_utc utc, within, rfl, by simp; omega⟩

/-- What was written before the time zone, or at all. -/
theorem parseTime_after_date {day : DateComponents} (short : src.length < 2 ^ 31) (valid : ValidDate day)
    (parsed : parseTime day src start = some (result, stop)) (inRange : ¬ LateSecond src (start + 5)) :
    ValidDate result ∧ ValidTime result ∧
      (result.year = day.year ∧ result.month = day.month ∧ result.monthDay = day.monthDay) ∧
      ∃ text, Reads src start text stop ∧ TimeText text result.hour result.minute result.second result.millisecond := by
  obtain ⟨text, time⟩ := parseTime_spec short parsed inRange
  obtain ⟨_, _, _, _, -, -, -, -, -, rfl, -⟩ := (parseTime_eq_some_iff short).mp parsed
  exact ⟨⟨⟨valid.month, valid.monthDay⟩, valid.first, valid.last⟩, time, ⟨rfl, rfl, rfl⟩, text⟩

/-- What the functions store is what the characters denote, and is read back, if and only if the seconds are
not too large. -/
theorem parse_denotes_iff (short : src.length < 2 ^ 31) (parsed : parse kind date src start = some (result, stop)) :
    (∃ text, Reads src start text stop ∧ Denotes kind text result) ∧ ReadsBack kind result ↔
      SecondInRange kind src start := by
  cases kind with
  | date =>
    obtain ⟨⟨text, reads, written⟩, valid, -, type⟩ := parseDate_spec short parsed
    exact iff_of_true ⟨⟨text, reads, valid, written⟩, date_readsBack valid type⟩ nofun
  | time =>
    by_cases late : LateSecond src (start + 5)
    · have large := (parseTime_late short parsed late).1
      refine iff_of_false ?_ fun inRange => inRange _ rfl late
      rintro ⟨⟨text, -, valid, -⟩, -⟩
      have := valid.second.2
      omega
    · obtain ⟨⟨text, reads, written⟩, valid⟩ := parseTime_spec short parsed late
      have type : result.type = .time := by
        obtain ⟨_, _, _, _, -, -, -, -, -, rfl, -⟩ := (parseTime_eq_some_iff short).mp parsed
        rfl
      refine iff_of_true ⟨⟨text, reads, valid, written⟩, time_readsBack valid type⟩ ?_
      rintro index ⟨⟩
      exact late
  | dateTimeLocal =>
    rw [parse, parseDateTimeLocal] at parsed
    simp only [↓guard_bind_eq_some_iff, bind_eq_some_iff, Option.pure_def, Option.some.injEq, Prod.mk.injEq,
      Prod.exists] at parsed
    obtain ⟨day, index, parsedDay, separator, time, _, parsedTime, within, rfl, rfl⟩ := parsed
    obtain ⟨⟨text, reads, written⟩, valid, -, type⟩ := parseDate_spec short parsedDay
    have readsT := reads_unit_iff.mpr separator
    have index_eq : secondsIndex .dateTimeLocal src start = some (index + 1 + 5) := by
      rw [secondsIndex, reads.drop_eq, List.idxOf_append_of_notMem (dateText_noT written), readsT.drop_eq,
        List.singleton_append, List.idxOf_cons_self, reads.stop_eq]
      rfl
    by_cases late : LateSecond src (index + 1 + 5)
    · have large := (parseTime_late short parsedTime late).1
      refine iff_of_false ?_ fun inRange => inRange _ index_eq late
      rintro ⟨⟨text, -, -, valid, -⟩, -⟩
      have := valid.second.2
      dsimp only at this
      omega
    · obtain ⟨valid', time', ⟨year, month, monthDay⟩, timeText, readsTime, writtenTime⟩ :=
        parseTime_after_date short valid parsedTime late
      rw [← year, ← month, ← monthDay] at written
      refine iff_of_true
        ⟨⟨_, reads.append (readsT.append readsTime), ⟨⟨valid'.month, valid'.monthDay⟩, valid'.first, valid'.last⟩,
          ⟨time'.hour, time'.minute, time'.second, time'.millisecond⟩, _, _, rfl, written, writtenTime⟩, ?_⟩ ?_
      · exact dateTimeLocal_readsBack ⟨⟨valid'.month, valid'.monthDay⟩, valid'.first, valid'.last⟩
          ⟨time'.hour, time'.minute, time'.second, time'.millisecond⟩ within rfl
      · intro seconds member
        rw [index_eq] at member
        cases member
        exact late
  | dateTime =>
    rw [parse, parseDateTime] at parsed
    simp only [↓guard_bind_eq_some_iff, bind_eq_some_iff, Option.pure_def, Option.some.injEq, Prod.mk.injEq,
      Prod.exists] at parsed
    obtain ⟨day, index, parsedDay, separator, time, middle, parsedTime, zone, _, parsedZone, within, rfl, rfl⟩ := parsed
    obtain ⟨⟨text, reads, written⟩, valid, -, type⟩ := parseDate_spec short parsedDay
    have inRange : ¬ LateSecond src (index + 1 + 5) := by
      intro late
      rw [parseTimeZone, (parseTime_late short parsedTime late).2] at parsedZone
      simp [guard] at parsedZone
    obtain ⟨valid', time', ⟨year, month, monthDay⟩, timeText, readsTime, writtenTime⟩ :=
      parseTime_after_date short valid parsedTime inRange
    rw [← year, ← month, ← monthDay] at written
    obtain ⟨zoneText, offset, readsZone, writtenZone, valid'', time'', same⟩ :=
      parseTimeZone_spec short valid' time' parsedZone
    refine iff_of_true ⟨⟨_, reads.append ((reads_unit_iff.mpr separator).append (readsTime.append readsZone)),
      ⟨⟨valid''.month, valid''.monthDay⟩, valid''.first, valid''.last⟩,
        ⟨time''.hour, time''.minute, time''.second, time''.millisecond⟩,
      _, _, _, time, offset, rfl, valid', time', written, writtenTime, writtenZone, same⟩, ?_⟩ nofun
    exact dateTime_readsBack ⟨⟨valid''.month, valid''.monthDay⟩, valid''.first, valid''.last⟩
      ⟨time''.hour, time''.minute, time''.second, time''.millisecond⟩ within rfl

end Sound

/-- An object as it is constructed. -/
def empty : DateComponents := ⟨0, 0, 0, 0, 0, 0, 0, 0, .invalid⟩

/-- The characters `2000-02-29T23:30-01:00`. -/
def leapNight : List UChar :=
  [0x32, 0x30, 0x30, 0x30, 0x2D, 0x30, 0x32, 0x2D, 0x32, 0x39, 0x54, 0x32, 0x33, 0x3A, 0x33, 0x30, 0x2D, 0x30, 0x31,
    0x3A, 0x30, 0x30]

/-- The offset carries into March. -/
theorem parse_denotes_leapNight :
    (∃ text, Reads leapNight 0 text 22 ∧ Denotes .dateTime text ⟨0, 0, 30, 0, 1, 2, 2000, 0, .dateTime⟩) ∧
      ReadsBack .dateTime ⟨0, 0, 30, 0, 1, 2, 2000, 0, .dateTime⟩ :=
  (parse_denotes_iff (by decide) (show parse .dateTime empty leapNight 0 =
    some (⟨0, 0, 30, 0, 1, 2, 2000, 0, .dateTime⟩, 22) by decide)).mpr nofun

/-- Of the characters `12:34:75` the first five are taken, and 75 seconds are stored. -/
theorem parseTime_stores_late :
    parse .time empty [0x31, 0x32, 0x3A, 0x33, 0x34, 0x3A, 0x37, 0x35] 0 =
      some (⟨0, 75, 34, 12, 0, 0, 0, 0, .time⟩, 5) := by
  decide

end WebNode.Platform.DateComponents
