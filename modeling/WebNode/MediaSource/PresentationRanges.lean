import Mathlib.Data.List.TakeWhile
import Mathlib.Order.Basic
import Mathlib.Algebra.Order.Ring.Int

/-!
# Presentation ranges

The queries of `PresentationOrderSampleMap`. An iterator is a position from the begin,
    a reverse iterator one from the end;
`std::equal_range` gives the ends of the two parts that its comparator makes of a sequence.
-/

namespace WebNode.MediaSource

section Algorithms

variable {α : Type}

/-- What a predicate holds of stands before the rest. -/
def IsPartitioned (p : α → Bool) (xs : List α) : Prop := xs.Pairwise fun x y => p y = true → p x = true

/-- `std::equal_range`: the first position that is not before the value, and the first that is behind it. -/
def equalRange (before behind : α → Bool) (xs : List α) : Nat × Nat :=
  ((xs.takeWhile before).length, (xs.takeWhile (!behind ·)).length)

/-- What `std::equal_range` requires of a sequence. -/
structure AllowsEqualRange (before behind : α → Bool) (xs : List α) : Prop where
  low : IsPartitioned before xs
  high : IsPartitioned (!behind ·) xs
  apart : ∀ x ∈ xs, before x = true → behind x = false

variable {p q : α → Bool} {xs : List α}

theorem IsPartitioned.lt_iff (partitioned : IsPartitioned p xs) {i : Nat} (inside : i < xs.length) :
    i < (xs.takeWhile p).length ↔ p xs[i] = true := by
  induction xs generalizing i with
  | nil => exact absurd inside (Nat.not_lt_zero i)
  | cons x rest ih =>
    obtain ⟨first, others⟩ := List.pairwise_cons.mp partitioned
    cases holds : p x with
    | true =>
      rw [List.takeWhile_cons_of_pos holds]
      cases i with
      | zero => simp [holds]
      | succ i => simpa using ih others (Nat.lt_of_succ_lt_succ inside)
    | false =>
      rw [List.takeWhile_cons_of_neg (by simp [holds])]
      have fails : p ((x :: rest)[i]) = false := by
        cases i with
        | zero => exact holds
        | succ i => exact Bool.eq_false_iff.mpr fun later => by simp [first _ (List.getElem_mem _) later] at holds
      simp [fails]

/-- From the end, the first position that a predicate holds of. -/
theorem IsPartitioned.findIdx_reverse (partitioned : IsPartitioned p xs) :
    xs.length - xs.reverse.findIdx p = (xs.takeWhile p).length := by
  induction xs with
  | nil => rfl
  | cons x rest ih =>
    obtain ⟨first, others⟩ := List.pairwise_cons.mp partitioned
    have shorter := ih others
    have bound : rest.reverse.findIdx p ≤ rest.reverse.length := List.findIdx_le_length
    rw [List.length_reverse] at bound
    rw [List.reverse_cons, List.findIdx_append, List.length_reverse, List.length_cons]
    cases holds : p x with
    | true =>
      rw [List.takeWhile_cons_of_pos holds, List.length_cons, ← shorter]
      simp only [List.findIdx_singleton, holds, if_true]
      split <;> omega
    | false =>
      have none : rest.reverse.findIdx p = rest.length := by
        rw [← List.length_reverse]
        refine List.findIdx_eq_length.mpr fun y member => ?_
        exact Bool.eq_false_iff.mpr fun later => by simp [first y (List.mem_reverse.mp member) later] at holds
      rw [List.takeWhile_cons_of_neg (by simp [holds])]
      simp [none, List.findIdx_singleton, holds, Nat.add_comm]

/-- The positions from the first to the second are exactly those of the elements with a property. -/
def IsRange (xs : List α) (range : Nat × Nat) (property : α → Prop) : Prop :=
  range.1 ≤ range.2 ∧ range.2 ≤ xs.length ∧ ∀ i (inside : i < xs.length), range.1 ≤ i ∧ i < range.2 ↔ property xs[i]

/-- What `equalRange` gives is the range of the elements that are neither before nor behind. -/
theorem AllowsEqualRange.isRange {before behind : α → Bool} {property : α → Prop}
    (allowed : AllowsEqualRange before behind xs) (same : ∀ x ∈ xs, before x = false ∧ behind x = false ↔ property x) :
    IsRange xs (equalRange before behind xs) property := by
  have bound : (xs.takeWhile before).length ≤ xs.length := (List.takeWhile_prefix _).length_le
  refine ⟨?_, (List.takeWhile_prefix _).length_le, fun i inside => ?_⟩
  · by_contra inverted
    have inside : (xs.takeWhile (!behind ·)).length < xs.length := Nat.lt_of_lt_of_le (Nat.not_le.mp inverted) bound
    have low := (allowed.low.lt_iff inside).mp (Nat.not_le.mp inverted)
    have high := mt (allowed.high.lt_iff inside).mpr (Nat.lt_irrefl _)
    simp [allowed.apart _ (List.getElem_mem inside) low] at high
  · rw [equalRange, ← Nat.not_lt, allowed.low.lt_iff inside, allowed.high.lt_iff inside,
      ← same _ (List.getElem_mem inside)]
    simp

/-- The begin of a range of at most one element. -/
theorem IsRange.single {range : Nat × Nat} {property : α → Prop} (isRange : IsRange xs range property)
    (unique : xs.Pairwise fun x y => ¬ (property x ∧ property y)) (i : Nat) :
    (if range.1 = range.2 then none else some range.1) = some i ↔ ∃ inside : i < xs.length, property xs[i] := by
  obtain ⟨ascending, bounded, members⟩ := isRange
  constructor
  · intro found
    split at found
    · cases found
    · next nonempty =>
      cases found
      exact ⟨by omega, (members _ (by omega)).mp ⟨le_rfl, by omega⟩⟩
  · rintro ⟨inside, holds⟩
    have within := (members i inside).mpr holds
    rw [if_neg (by omega), Option.some.injEq]
    by_contra different
    have first := (members range.1 (by omega)).mp ⟨le_rfl, by omega⟩
    exact List.pairwise_iff_getElem.mp unique range.1 i (by omega) inside (by omega) ⟨first, holds⟩

end Algorithms

/-- A sample that is presented for a time. -/
structure TimedSample (Time : Type) where
  presentationTime : Time
  duration : Time

/-- The map `m_samples`, in the order of its keys. -/
structure PresentationOrder (Time : Type) [LinearOrder Time] where
  samples : List (Time × TimedSample Time)
  sorted : samples.Pairwise fun one other => one.1 < other.1
  keys : ∀ value ∈ samples, value.1 = value.2.presentationTime

namespace PresentationOrder

variable {Time : Type} [LinearOrder Time]

section Queries

variable [Add Time] (order : PresentationOrder Time)

def presentationEndTime (value : Time × TimedSample Time) : Time := value.2.presentationTime + value.2.duration

/-- `SampleIsLessThanMediaTimeComparator`: the sample before the time, and the time before the sample. -/
def endsBefore (time : Time) (value : Time × TimedSample Time) : Bool := presentationEndTime value ≤ time

def startsBehind (time : Time) (value : Time × TimedSample Time) : Bool := time < value.2.presentationTime

/-- The position of the sample that contains a time, or `none` for `end()`. -/
def findSampleContainingPresentationTime (time : Time) : Option Nat :=
  let range := equalRange (endsBefore time) (startsBehind time) order.samples
  if range.1 = range.2 then none else some range.1

/-- A position from the end, or `none` for `rend()`. The comparator is `SampleIsGreaterThanMediaTimeComparator`. -/
def reverseFindSampleContainingPresentationTime (time : Time) : Option Nat :=
  let range := equalRange (startsBehind time) (endsBefore time) order.samples.reverse
  if range.1 = range.2 then none else some range.1

omit [Add Time]

/-- The comparator is `SamplePresentationTimeIsInsideRangeComparator`. -/
def findSamplesBetweenPresentationTimes (beginTime endTime : Time) : Nat × Nat :=
  equalRange (fun value => value.1 ≤ beginTime) (fun value => endTime < value.1) order.samples

/-- The comparator is `SamplePresentationTimeIsWithinRangeComparator`. -/
def findSamplesWithinPresentationRange (beginTime endTime : Time) : Nat × Nat :=
  equalRange (fun value => value.1 < beginTime) (fun value => endTime ≤ value.1) order.samples

/-- Two searches from the end. The base of a reverse iterator is the position behind it. -/
def findSamplesWithinPresentationRangeFromEnd (beginTime endTime : Time) : Nat × Nat :=
  let rangeEnd := order.samples.reverse.findIdx fun value => value.2.presentationTime ≤ beginTime
  let rangeStart := (order.samples.reverse.take rangeEnd).findIdx fun value => value.2.presentationTime ≤ endTime
  (order.samples.length - rangeStart, order.samples.length - rangeEnd)

end Queries

section Ranges

variable {order : PresentationOrder Time} {beginTime endTime : Time}

/-- A comparator that bounds the keys from both sides. -/
theorem allowsEqualRange_keys (low high : Time → Bool) (lowDown : ∀ a b, a < b → low b = true → low a = true)
    (highUp : ∀ a b, a < b → high a = true → high b = true) (apart : ∀ a, low a = true → high a = false) :
    AllowsEqualRange (fun value => low value.1) (fun value => high value.1) order.samples where
  low := order.sorted.imp fun less => lowDown _ _ less
  high := by
    refine order.sorted.imp fun {one other} less notHigh => ?_
    cases known : high one.1 with
    | false => simp [known]
    | true => simp [highUp _ _ less known] at notHigh
  apart value _ := apart value.1

theorem allows_between (before : beginTime < endTime) :
    AllowsEqualRange (fun value => decide (value.1 ≤ beginTime))
    (fun value => decide (endTime < value.1)) order.samples := by
  apply allowsEqualRange_keys (fun key => decide (key ≤ beginTime)) (fun key => decide (endTime < key))
  · exact fun a b less => by simpa using less.le.trans
  · exact fun a b less => by simpa using fun beyond => beyond.trans less
  · exact fun a => by simpa using fun inside => inside.trans before.le

theorem allows_within (before : beginTime < endTime) :
    AllowsEqualRange (fun value => decide (value.1 < beginTime))
    (fun value => decide (endTime ≤ value.1)) order.samples := by
  apply allowsEqualRange_keys (fun key => decide (key < beginTime)) (fun key => decide (endTime ≤ key))
  · exact fun a b less => by simpa using less.trans
  · exact fun a b less => by simpa using fun beyond => beyond.trans less.le
  · exact fun a => by simpa using fun inside => inside.trans before

theorem isPartitioned_presentationTime (time : Time) :
    IsPartitioned (fun value => decide (value.2.presentationTime ≤ time)) order.samples := by
  refine order.sorted.imp_of_mem fun {one other} member memberToo less => ?_
  rw [order.keys one member, order.keys other memberToo] at less
  simpa using less.le.trans

/-- The searches from the end give the end of the range first. -/
theorem findSamplesWithinPresentationRangeFromEnd_eq (before : beginTime < endTime) :
    order.findSamplesWithinPresentationRangeFromEnd beginTime endTime =
      ((order.samples.takeWhile fun value => decide (value.2.presentationTime ≤ endTime)).length,
        (order.samples.takeWhile fun value => decide (value.2.presentationTime ≤ beginTime)).length) := by
  rw [findSamplesWithinPresentationRangeFromEnd]
  rw [List.findIdx_take, Nat.min_eq_right, (isPartitioned_presentationTime _).findIdx_reverse,
    (isPartitioned_presentationTime _).findIdx_reverse]
  refine List.findIdx_le_findIdx fun value _ => ?_
  simpa using fun inside => inside.trans before.le

theorem isRange_fromEnd_iff (before : beginTime < endTime) :
    IsRange order.samples (order.findSamplesWithinPresentationRangeFromEnd beginTime endTime)
        (fun value => beginTime < value.2.presentationTime ∧ value.2.presentationTime ≤ endTime) ↔
      ∀ value ∈ order.samples, ¬ (beginTime < value.2.presentationTime ∧ value.2.presentationTime ≤ endTime) := by
  rw [findSamplesWithinPresentationRangeFromEnd_eq before]
  have low := fun {i} => @IsPartitioned.lt_iff _ _ order.samples (isPartitioned_presentationTime beginTime) i
  have high := fun {i} => @IsPartitioned.lt_iff _ _ order.samples (isPartitioned_presentationTime endTime) i
  constructor
  · rintro ⟨descending, -, members⟩ value member inside
    obtain ⟨i, bounded, rfl⟩ := List.getElem_of_mem member
    have within := (members i bounded).mpr inside
    exact absurd ((low bounded).mp within.2) (by simpa using inside.1)
  · intro none
    refine ⟨?_, (List.takeWhile_prefix _).length_le, fun i bounded => ?_⟩
    · by_contra descending
      have bounded := Nat.lt_of_lt_of_le (Nat.not_le.mp descending) (List.takeWhile_prefix _).length_le
      have reached := (high bounded).mp (Nat.not_le.mp descending)
      have missed := mt (low bounded).mpr (Nat.lt_irrefl _)
      exact none _ (List.getElem_mem bounded) ⟨by simpa using missed, by simpa using reached⟩
    · refine iff_of_false (fun within => ?_) (none _ (List.getElem_mem bounded))
      have below := (low bounded).mp within.2
      have reached := (high bounded).mpr (by simpa using (by simpa using below : _ ≤ beginTime).trans before.le)
      exact absurd within.1 (Nat.not_le.mpr reached)

end Ranges

section Containing

variable [Add Time] {order : PresentationOrder Time} {beginTime endTime time : Time}

/-- The intervals of the samples do not overlap. -/
structure NonOverlapping (order : PresentationOrder Time) : Prop where
  intervals : ∀ value ∈ order.samples, value.2.presentationTime ≤ presentationEndTime value
  apart : order.samples.Pairwise fun one other => presentationEndTime one ≤ other.2.presentationTime

def Contains (time : Time) (value : Time × TimedSample Time) : Prop :=
  value.2.presentationTime ≤ time ∧ time < presentationEndTime value

theorem NonOverlapping.allows (nonOverlapping : order.NonOverlapping) (time : Time) :
    AllowsEqualRange (endsBefore time) (startsBehind time) order.samples ∧
      AllowsEqualRange (startsBehind time) (endsBefore time) order.samples.reverse := by
  have ends : order.samples.Pairwise fun one other => presentationEndTime one ≤ presentationEndTime other :=
    nonOverlapping.apart.imp_of_mem fun _ memberToo apart => apart.trans (nonOverlapping.intervals _ memberToo)
  have starts : order.samples.Pairwise fun one other => one.2.presentationTime ≤ other.2.presentationTime :=
    nonOverlapping.apart.imp_of_mem fun member _ apart => (nonOverlapping.intervals _ member).trans apart
  have exclusive : ∀ value ∈ order.samples, endsBefore time value = true → startsBehind time value = false := by
    intro value member
    simpa [endsBefore, startsBehind] using (nonOverlapping.intervals value member).trans
  refine ⟨⟨?_, ?_, exclusive⟩, ⟨List.pairwise_reverse.mpr ?_, List.pairwise_reverse.mpr ?_, fun value member => ?_⟩⟩
  · exact ends.imp fun less => by simpa [endsBefore] using less.trans
  · exact starts.imp fun less => by simpa [startsBehind] using less.trans
  · exact starts.imp fun less => by simpa [startsBehind] using fun beyond => beyond.trans_le less
  · exact ends.imp fun less => by simpa [endsBefore] using fun beyond => beyond.trans_le less
  · have other := exclusive value (List.mem_reverse.mp member)
    intro behind
    rw [← Bool.not_eq_true]
    exact fun ends => by simp [other ends] at behind

theorem NonOverlapping.unique (nonOverlapping : order.NonOverlapping) (time : Time) :
    order.samples.Pairwise fun one other => ¬ (Contains time one ∧ Contains time other) :=
  nonOverlapping.apart.imp fun apart ⟨first, second⟩ => absurd (first.2.trans_le apart) (not_lt.mpr second.1)

theorem contains_iff (value : Time × TimedSample Time) :
    endsBefore time value = false ∧ startsBehind time value = false ↔ Contains time value := by
  simp [endsBefore, startsBehind, Contains, and_comm]

/-- The requirements of the searches are met, and every query gives an ascending range of the right samples. The
range from the end does so exactly if it is empty, since it is inverted otherwise. -/
structure QueriesRight (order : PresentationOrder Time) (beginTime endTime time : Time) : Prop where
  allowed :
    AllowsEqualRange (fun value => decide (value.1 ≤ beginTime))
      (fun value => decide (endTime < value.1)) order.samples ∧
    AllowsEqualRange (fun value => decide (value.1 < beginTime))
      (fun value => decide (endTime ≤ value.1)) order.samples ∧
    AllowsEqualRange (endsBefore time) (startsBehind time) order.samples ∧
    AllowsEqualRange (startsBehind time) (endsBefore time) order.samples.reverse
  between : IsRange order.samples (order.findSamplesBetweenPresentationTimes beginTime endTime)
    fun value => beginTime < value.2.presentationTime ∧ value.2.presentationTime ≤ endTime
  fromEnd : IsRange order.samples (order.findSamplesWithinPresentationRangeFromEnd beginTime endTime)
    (fun value => beginTime < value.2.presentationTime ∧ value.2.presentationTime ≤ endTime) ↔
      ∀ value ∈ order.samples, ¬ (beginTime < value.2.presentationTime ∧ value.2.presentationTime ≤ endTime)
  within : IsRange order.samples (order.findSamplesWithinPresentationRange beginTime endTime)
    fun value => beginTime ≤ value.2.presentationTime ∧ value.2.presentationTime < endTime
  containing : ∀ i, order.findSampleContainingPresentationTime time = some i ↔
    ∃ inside : i < order.samples.length, Contains time order.samples[i]
  reverseContaining : ∀ i, order.reverseFindSampleContainingPresentationTime time = some i ↔
    ∃ inside : i < order.samples.reverse.length, Contains time order.samples.reverse[i]

theorem queriesRight (nonOverlapping : order.NonOverlapping) (before : beginTime < endTime) (time : Time) :
    order.QueriesRight beginTime endTime time := by
  obtain ⟨forward, backward⟩ := nonOverlapping.allows time
  have unique := nonOverlapping.unique time
  have uniqueToo : order.samples.reverse.Pairwise fun one other => ¬ (Contains time one ∧ Contains time other) :=
    List.pairwise_reverse.mpr (unique.imp fun apart both => apart both.symm)
  refine ⟨⟨allows_between before, allows_within before, forward, backward⟩, ?_, isRange_fromEnd_iff before, ?_, ?_, ?_⟩
  · exact (allows_between before).isRange fun value member => by simp [order.keys value member]
  · exact (allows_within before).isRange fun value member => by simp [order.keys value member]
  · exact (forward.isRange fun value _ => contains_iff value).single unique
  · exact (backward.isRange fun value _ => and_comm.trans (contains_iff value)).single uniqueToo

end Containing

/-- Three samples of ten ticks. -/
def threeSamples : PresentationOrder Nat where
  samples := [(0, ⟨0, 10⟩), (10, ⟨10, 10⟩), (20, ⟨20, 10⟩)]
  sorted := by decide
  keys := by decide

/-- Two of the samples are in the range, and one contains the time. -/
theorem queriesRight_two : threeSamples.QueriesRight 5 25 12 :=
  queriesRight ⟨by decide, by decide⟩ (by decide) 12

theorem fromEnd_inverted :
    threeSamples.findSamplesBetweenPresentationTimes 5 25 = (1, 3) ∧
      threeSamples.findSamplesWithinPresentationRangeFromEnd 5 25 = (3, 1) := by
  decide

end PresentationOrder

end WebNode.MediaSource
