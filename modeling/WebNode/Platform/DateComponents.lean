import Mathlib.Algebra.Order.Ring.Int
import Mathlib.Data.Nat.Digits.Lemmas
import Mathlib.Logic.Function.Iterate

/-!
# Dates and times

The fields of a date, time, month or week, how they are read from characters and how they are written.
A function that parses returns the changed object and the index behind the last character it took;
where the source returns false there is no result.
-/

namespace WebNode.Platform

abbrev UChar := UInt16

inductive DateType
  | invalid
  | date
  | dateTime
  | dateTimeLocal
  | month
  | time
  | week
deriving DecidableEq

inductive SecondFormat
  | none
  | second
  | millisecond
deriving DecidableEq

/-- `month` is counted from zero. -/
structure DateComponents where
  millisecond : Int
  second : Int
  minute : Int
  hour : Int
  monthDay : Int
  month : Int
  year : Int
  week : Int
  type : DateType
deriving DecidableEq

namespace DateComponents

/-! ### The calendar of the code -/

def minimumYear : Int := 1

def maximumYear : Int := 275760

def minimumWeekNumber : Int := 1

def maximumWeekNumber : Int := 53

def maximumMonthInMaximumYear : Int := 8

def maximumDayInMaximumMonth : Int := 13

def maximumWeekInMaximumYear : Int := 37

def daysInMonth : List Int := [31, 28, 31, 30, 31, 30, 31, 31, 30, 31, 30, 31]

def isLeapYear (year : Int) : Bool :=
  if year.tmod 4 ≠ 0 then false
  else if year.tmod 400 = 0 then true
  else if year.tmod 100 = 0 then false
  else true

def maxDayOfMonth (year month : Int) : Int :=
  if month ≠ 1 then daysInMonth.getD month.toNat 0
  else if isLeapYear year then 29 else 28

/-- Zeller's congruence. Sunday is zero. -/
def dayOfWeek (year month day : Int) : Int :=
  let shiftedMonth := month + 2
  let (shiftedMonth, year) := if shiftedMonth ≤ 3 then (shiftedMonth + 12, year - 1) else (shiftedMonth, year)
  let highYear := year.tdiv 100
  let lowYear := year.tmod 100
  (day + (13 * shiftedMonth).tdiv 5 + lowYear + lowYear.tdiv 4 + highYear.tdiv 4 + 5 * highYear + 6).tmod 7

def maxWeekNumberInYear (date : DateComponents) : Int :=
  let day := dayOfWeek date.year 0 1
  if day = 4 ∨ (day = 3 ∧ isLeapYear date.year) then maximumWeekNumber else maximumWeekNumber - 1

def withinMonthLimits (year month : Int) : Bool :=
  if year < minimumYear then false
  else if year < maximumYear then true
  else month ≤ maximumMonthInMaximumYear

def withinDateLimits (year month monthDay : Int) : Bool :=
  if year < minimumYear then false
  else if year < maximumYear then true
  else if month < maximumMonthInMaximumYear then true
  else monthDay ≤ maximumDayInMaximumMonth

def withinHTMLDateLimits (date : DateComponents) : Bool :=
  if date.year < minimumYear then false
  else if date.year < maximumYear then true
  else if date.month < maximumMonthInMaximumYear then true
  else if date.monthDay < maximumDayInMaximumMonth then true
  else if date.monthDay > maximumDayInMaximumMonth then false
  else date.hour = 0 ∧ date.minute = 0 ∧ date.second = 0 ∧ date.millisecond = 0

/-! ### Numerals -/

def isASCIIDigit (c : UChar) : Bool := 48 ≤ c.toNat ∧ c.toNat ≤ 57

def countDigits (src : List UChar) (start : Nat) : Nat := ((src.drop start).takeWhile isASCIIDigit).length

/-- The loop of `toInt`, with its check for overflow. -/
def toIntLoop (value : Nat) : List UChar → Option Nat
  | [] => some value
  | c :: rest =>
    if isASCIIDigit c then
      let digit := c.toNat - 48
      if value > (2147483647 - digit) / 10 then none else toIntLoop (value * 10 + digit) rest
    else none

/-- The sum is an `unsigned`, so that a start behind the characters can pass the test. A read there is
undefined; it gives no result here. -/
def toInt (src : List UChar) (parseStart parseLength : Nat) : Option Int :=
  if (parseStart + parseLength) % 2 ^ 32 > src.length ∨ parseLength = 0 then none
  else
    let characters := (src.drop parseStart).take parseLength
    if characters.length < parseLength then none else (toIntLoop 0 characters).map Int.ofNat

/-! ### Parsing -/

def parseYear (date : DateComponents) (src : List UChar) (start : Nat) : Option (DateComponents × Nat) := do
  let digitsLength := countDigits src start
  guard (4 ≤ digitsLength)
  let year ← toInt src start digitsLength
  guard (minimumYear ≤ year ∧ year ≤ maximumYear)
  return ({ date with year := year }, start + digitsLength)

def parseMonth (date : DateComponents) (src : List UChar) (start : Nat) : Option (DateComponents × Nat) := do
  let (date, index) ← parseYear date src start
  guard (src[index]? = some 0x2D)
  let index := index + 1
  let month ← toInt src index 2
  guard (1 ≤ month ∧ month ≤ 12)
  let month := month - 1
  guard (withinMonthLimits date.year month)
  return ({ date with month := month, type := .month }, index + 2)

def parseDate (date : DateComponents) (src : List UChar) (start : Nat) : Option (DateComponents × Nat) := do
  let (date, index) ← parseMonth date src start
  guard (index + 2 < src.length)
  guard (src[index]? = some 0x2D)
  let index := index + 1
  let day ← toInt src index 2
  guard (1 ≤ day ∧ day ≤ maxDayOfMonth date.year date.month)
  guard (withinDateLimits date.year date.month day)
  return ({ date with monthDay := day, type := .date }, index + 2)

def parseWeek (date : DateComponents) (src : List UChar) (start : Nat) : Option (DateComponents × Nat) := do
  let (date, index) ← parseYear date src start
  guard (index + 3 < src.length)
  guard (src[index]? = some 0x2D)
  let index := index + 1
  guard (src[index]? = some 0x57)
  let index := index + 1
  let week ← toInt src index 2
  guard (minimumWeekNumber ≤ week ∧ week ≤ date.maxWeekNumberInYear)
  guard (¬ (date.year = maximumYear ∧ week > maximumWeekInMaximumYear))
  return ({ date with week := week, type := .week }, index + 2)

/-! ### Writing -/

/-- A number with at least `width` digits. -/
def padded (width : Nat) (number : Int) : List UChar :=
  let digits := (Nat.digits 10 number.toNat).reverse.map fun digit => UInt16.ofNat (48 + digit)
  List.replicate (width - digits.length) 48 ++ digits

def toStringForTime (date : DateComponents) (format : SecondFormat) : List UChar :=
  let effectiveFormat :=
    if date.millisecond ≠ 0 then .millisecond
    else if format = .none ∧ date.second ≠ 0 then .second
    else format
  match effectiveFormat with
  | .none => padded 2 date.hour ++ 0x3A :: padded 2 date.minute
  | .second => padded 2 date.hour ++ 0x3A :: padded 2 date.minute ++ 0x3A :: padded 2 date.second
  | .millisecond =>
    padded 2 date.hour ++ 0x3A :: padded 2 date.minute ++ 0x3A :: padded 2 date.second ++
      0x2E :: padded 3 date.millisecond

/-- The day, as it is printed for three of the types. -/
def toStringForDate (date : DateComponents) : List UChar :=
  padded 4 date.year ++ 0x2D :: padded 2 (date.month + 1) ++ 0x2D :: padded 2 date.monthDay

/-- An object without a type has no text. -/
def toString (date : DateComponents) (format : SecondFormat) : Option (List UChar) :=
  match date.type with
  | .date => some date.toStringForDate
  | .dateTime => some (date.toStringForDate ++ ([0x54] ++ (date.toStringForTime format ++ [0x5A])))
  | .dateTimeLocal => some (date.toStringForDate ++ ([0x54] ++ date.toStringForTime format))
  | .month => some (padded 4 date.year ++ 0x2D :: padded 2 (date.month + 1))
  | .time => some (date.toStringForTime format)
  | .week => some (padded 4 date.year ++ 0x2D :: 0x57 :: padded 2 date.week)
  | .invalid => none

/-! ### Reading characters -/

/-- The characters from one index to another. -/
structure Reads (src : List UChar) (start : Nat) (text : List UChar) (stop : Nat) : Prop where
  stop_eq : stop = start + text.length
  drop_eq : src.drop start = text ++ src.drop stop

section Reads

variable {src text more : List UChar} {start middle stop : Nat}

theorem Reads.append (first : Reads src start text middle) (second : Reads src middle more stop) :
    Reads src start (text ++ more) stop := by
  refine ⟨?_, ?_⟩
  · rw [second.stop_eq, first.stop_eq, List.length_append, Nat.add_assoc]
  · rw [first.drop_eq, second.drop_eq, List.append_assoc]

theorem reads_of_eq {before after : List UChar} (src_eq : src = before ++ (text ++ after)) :
    Reads src before.length text (before.length + text.length) := by
  refine ⟨rfl, ?_⟩
  rw [src_eq, List.drop_left, ← List.append_assoc, ← List.length_append, List.drop_left]

theorem reads_unit_iff {c : UChar} : Reads src start [c] (start + 1) ↔ src[start]? = some c := by
  rw [← List.head?_drop]
  constructor
  · intro reads
    rw [reads.drop_eq]
    rfl
  · intro head
    refine ⟨rfl, ?_⟩
    rw [← List.tail_drop, List.singleton_append]
    exact (List.cons_head?_tail head).symm

theorem Reads.le (reads : Reads src start text stop) (some : text ≠ []) : stop ≤ src.length := by
  have lengths := congrArg List.length reads.drop_eq
  have := reads.stop_eq
  have := List.length_pos_iff.mpr some
  rw [List.length_append, List.length_drop, List.length_drop] at lengths
  omega

theorem Reads.unique (reads : Reads src start text stop) (reads' : Reads src start more stop) : text = more := by
  have same := reads.drop_eq.symm.trans reads'.drop_eq
  exact List.append_cancel_right same

end Reads

/-! ### Numbers in characters -/

def Digits (text : List UChar) : Prop := ∀ c ∈ text, isASCIIDigit c = true

/-- The number that digits write. -/
def number (text : List UChar) : Nat := text.foldl (fun value c => value * 10 + (c.toNat - 48)) 0

theorem foldl_ge (text : List UChar) (value : Nat) :
    value ≤ text.foldl (fun value c => value * 10 + (c.toNat - 48)) value := by
  induction text generalizing value with
  | nil => exact le_rfl
  | cons c rest ih => exact le_trans (by omega) (ih (value * 10 + (c.toNat - 48)))

theorem toIntLoop_eq_some_iff {text : List UChar} {value result : Nat} (fits : value ≤ 2147483647) :
    toIntLoop value text = some result ↔
      Digits text ∧ text.foldl (fun value c => value * 10 + (c.toNat - 48)) value = result ∧ result ≤ 2147483647 := by
  induction text generalizing value with
  | nil =>
    rw [toIntLoop, Option.some.injEq]
    exact ⟨fun same => ⟨nofun, same, same ▸ fits⟩, fun ⟨_, same, _⟩ => same⟩
  | cons c rest ih =>
    rw [toIntLoop, Digits, List.forall_mem_cons, List.foldl_cons]
    cases digit : isASCIIDigit c with
    | false => simp
    | true =>
      have small : c.toNat ≤ 57 := by
        rw [isASCIIDigit, decide_eq_true_eq] at digit
        exact digit.2
      simp only [if_true, true_and]
      by_cases more : value > (2147483647 - (c.toNat - 48)) / 10
      · rw [if_pos more]
        refine iff_of_false nofun fun ⟨_, same, bound⟩ => ?_
        have := foldl_ge rest (value * 10 + (c.toNat - 48))
        omega
      · rw [if_neg more, ih (by omega)]
        rfl

theorem countDigits_reads (src : List UChar) (start : Nat) :
    Reads src start ((src.drop start).takeWhile isASCIIDigit) (start + countDigits src start) := by
  have split := @List.takeWhile_append_dropWhile _ isASCIIDigit (src.drop start)
  refine ⟨rfl, ?_⟩
  rw [← List.drop_drop, countDigits]
  nth_rewrite 4 [← split]
  rw [List.drop_left, split]

theorem countDigits_stops (src : List UChar) (start : Nat) :
    ∀ c, src[start + countDigits src start]? = some c → isASCIIDigit c = false := by
  intro c head
  have split := @List.takeWhile_append_dropWhile _ isASCIIDigit (src.drop start)
  rw [← List.head?_drop, ← List.drop_drop, ← split, countDigits, List.drop_left] at head
  have := List.head?_dropWhile_not isASCIIDigit (src.drop start)
  rwa [head] at this

theorem countDigits_eq {src text : List UChar} {start stop : Nat} (reads : Reads src start text stop)
    (digits : Digits text) (notDigit : ∀ c, src[stop]? = some c → isASCIIDigit c = false) :
    countDigits src start = text.length := by
  have rest : (src.drop stop).takeWhile isASCIIDigit = [] := by
    rw [← List.head?_drop] at notDigit
    cases found : src.drop stop with
    | nil => rfl
    | cons c rest => rw [List.takeWhile_cons, notDigit c (by rw [found]; rfl), if_neg Bool.false_ne_true]
  rw [countDigits, reads.drop_eq, List.takeWhile_append_of_pos digits, rest, List.append_nil]

theorem bind_eq_some_iff {α β : Type} {first : Option α} {next : α → Option β} {result : β} :
    (first >>= next) = some result ↔ ∃ value, first = some value ∧ next value = some result :=
  Option.bind_eq_some_iff

theorem guard_bind_eq_some_iff {α : Type} {p : Prop} [Decidable p] {next : Unit → Option α} {result : α} :
    (guard p >>= next) = some result ↔ p ∧ next () = some result := by
  by_cases holds : p <;> simp [guard, holds]

section Short

variable {src : List UChar} (short : src.length < 2 ^ 31) {start count stop : Nat}

include short

theorem toInt_eq_some_iff {value : Int} :
    toInt src start count = some value ↔
      count ≠ 0 ∧ ∃ text, Reads src start text (start + count) ∧ Digits text ∧ (number text : Int) = value ∧
      number text ≤ 2147483647 := by
  rw [toInt]
  by_cases inside : start + count ≤ src.length ∧ count ≠ 0
  · have length : ((src.drop start).take count).length = count := by
      rw [List.length_take, List.length_drop]
      omega
    rw [if_neg (by omega)]
    simp only [length, lt_irrefl, if_false, Option.map_eq_some_iff, toIntLoop_eq_some_iff (Nat.zero_le _)]
    have reads : Reads src start ((src.drop start).take count) (start + count) :=
      ⟨by rw [length], by rw [← List.drop_drop, List.take_append_drop]⟩
    constructor
    · rintro ⟨result, ⟨digits, same, bound⟩, rfl⟩
      exact ⟨inside.2, _, reads, digits, congrArg Int.ofNat same, same.trans_le bound⟩
    · rintro ⟨_, text, reads', digits, rfl, bound⟩
      rw [reads.unique reads']
      exact ⟨number text, ⟨digits, rfl, bound⟩, rfl⟩
  · refine iff_of_false ?_ ?_
    · split
      · nofun
      · rw [if_pos]
        · nofun
        · rw [List.length_take, List.length_drop]
          omega
    · rintro ⟨some, text, reads, -⟩
      have := reads.stop_eq
      exact inside ⟨reads.le (by rintro rfl; simp at this; omega), some⟩

theorem parseYear_eq_some_iff {date result : DateComponents} :
    parseYear date src start = some (result, stop) ↔
      ∃ text, Reads src start text stop ∧ Digits text ∧ 4 ≤ text.length ∧
        (∀ c, src[stop]? = some c → isASCIIDigit c = false) ∧ 1 ≤ (number text : Int) ∧ (number text : Int) ≤ 275760 ∧
        result = { date with year := number text } := by
  rw [parseYear]
  simp only [↓guard_bind_eq_some_iff, bind_eq_some_iff, Option.pure_def, Option.some.injEq, Prod.mk.injEq,
    toInt_eq_some_iff short]
  constructor
  · rintro ⟨least, _, ⟨-, text, reads, digits, rfl, -⟩, ⟨lower, upper⟩, rfl, rfl⟩
    refine ⟨text, reads, digits, ?_, countDigits_stops src start, lower, upper, rfl⟩
    have := reads.stop_eq
    omega
  · rintro ⟨text, reads, digits, least, notDigit, lower, upper, rfl⟩
    rw [countDigits_eq reads digits notDigit, ← reads.stop_eq]
    exact ⟨least, _, ⟨by omega, text, reads, digits, rfl, by omega⟩, ⟨lower, upper⟩, rfl, rfl⟩

end Short

/-! ### Printed numbers -/

theorem number_append (text : List UChar) (c : UChar) : number (text ++ [c]) = number text * 10 + (c.toNat - 48) := by
  rw [number, List.foldl_append]
  rfl

theorem number_digits (digits : List Nat) (small : ∀ digit ∈ digits, digit < 10) :
    number (digits.reverse.map fun digit => UInt16.ofNat (48 + digit)) = Nat.ofDigits 10 digits ∧
      Digits (digits.reverse.map fun digit => UInt16.ofNat (48 + digit)) := by
  induction digits with
  | nil => exact ⟨rfl, nofun⟩
  | cons digit rest ih =>
    obtain ⟨value, digits⟩ := ih fun digit member => small digit (List.mem_cons_of_mem _ member)
    have lt := small digit List.mem_cons_self
    have unit : (UInt16.ofNat (48 + digit)).toNat = 48 + digit := by
      rw [UInt16.toNat_ofNat']
      omega
    rw [List.reverse_cons, List.map_append, List.map_singleton]
    refine ⟨?_, ?_⟩
    · rw [number_append, value, unit, Nat.ofDigits_cons]
      omega
    · intro c member
      rcases List.mem_append.mp member with member | member
      · exact digits c member
      · rw [List.mem_singleton.mp member, isASCIIDigit, unit, decide_eq_true_eq]
        omega

theorem number_zeros (count : Nat) (text : List UChar) : number (List.replicate count 48 ++ text) = number text := by
  induction count with
  | zero => rfl
  | succ count ih => exact ih

theorem padded_spec (width : Nat) {value : Int} (nonneg : 0 ≤ value) :
    (number (padded width value) : Int) = value ∧ Digits (padded width value) ∧
      width ≤ (padded width value).length := by
  obtain ⟨same, digits⟩ :=
    number_digits (Nat.digits 10 value.toNat) fun digit member => Nat.digits_lt_base (by decide) member
  refine ⟨?_, ?_, ?_⟩
  · rw [padded, number_zeros, same, Nat.ofDigits_digits, Int.toNat_of_nonneg nonneg]
  · intro c member
    rcases List.mem_append.mp member with member | member
    · rw [List.eq_of_mem_replicate member]
      rfl
    · exact digits c member
  · rw [padded, List.length_append, List.length_replicate]
    omega

theorem padded_length_le {width bound : Nat} {value : Int} (small : value < 10 ^ bound) (le : width ≤ bound) :
    (padded width value).length ≤ bound := by
  have power : ((10 ^ bound : Nat) : Int) = 10 ^ bound := by push_cast; rfl
  have positive : 0 < 10 ^ bound := Nat.pos_of_ne_zero (by simp)
  have := (Nat.digits_length_le_iff (show 1 < 10 by decide) value.toNat).mpr (show value.toNat < 10 ^ bound by omega)
  rw [padded, List.length_append, List.length_replicate]
  simp only [List.length_map, List.length_reverse]
  omega

theorem padded_length {width : Nat} {value : Int} (nonneg : 0 ≤ value) (small : value < 10 ^ width) :
    (padded width value).length = width :=
  le_antisymm (padded_length_le small le_rfl) (padded_spec width nonneg).2.2

end DateComponents

end WebNode.Platform
