import Mathlib.Data.List.InsertIdx
import Mathlib.Data.Set.Lattice
import Mathlib.Order.Interval.Set.Basic
import Mathlib.Order.BoundedOrder.Basic
import Mathlib.Order.Fin.Basic
import Mathlib.Order.MinMax
import Mathlib.Tactic.Order
import WebNode.Lib.Boundary

/-! The time ranges of media, after `PlatformTimeRanges.cpp`: lists of half-open ranges over
a linear order with two infinite times. -/
namespace WebNode.Graphics

/-- `[start, end[`. -/
structure TimeRange (Time : Type*) where
  start : Time
  endTime : Time
  deriving DecidableEq, Repr

namespace TimeRange

variable {Time : Type*} [LinearOrder Time]

def isPointInRange (range : TimeRange Time) (point : Time) : Bool :=
  decide (range.start ≤ point) && decide (point < range.endTime)

def isOverlappingRange (self range : TimeRange Time) : Bool :=
  self.isPointInRange range.start || self.isPointInRange range.endTime || range.isPointInRange self.start

def isContiguousWithRange (self range : TimeRange Time) : Bool :=
  range.start == self.endTime || range.endTime == self.start

def unionWithOverlappingOrContiguousRange (self range : TimeRange Time) : TimeRange Time :=
  ⟨min self.start range.start, max self.endTime range.endTime⟩

def isBeforeRange (self range : TimeRange Time) : Bool := decide (range.start ≥ self.endTime)

/-- The times of a range. -/
def times (range : TimeRange Time) : Set Time := Set.Ico range.start range.endTime

end TimeRange

/-- The ranges in the order of the vector. -/
structure PlatformTimeRanges (Time : Type*) where
  ranges : List (TimeRange Time)
  deriving DecidableEq, Repr

namespace PlatformTimeRanges

section Code

variable {Time : Type*} [LinearOrder Time]

/-- The loop of `add` and the insertion after it. A range that is merged is removed, and the
index, decremented and incremented again, is that of the range after it. -/
def addFrom (ranges : List (TimeRange Time)) (overlappingArcIndex : Nat) (addedRange : TimeRange Time) :
    List (TimeRange Time) :=
  if inside : overlappingArcIndex < ranges.length then
    let range := ranges[overlappingArcIndex]
    if addedRange.isOverlappingRange range || addedRange.isContiguousWithRange range then
      addFrom (ranges.eraseIdx overlappingArcIndex) overlappingArcIndex
        (addedRange.unionWithOverlappingOrContiguousRange range)
    else if overlappingArcIndex = 0 then
      if addedRange.isBeforeRange range then ranges.insertIdx overlappingArcIndex addedRange
      else addFrom ranges (overlappingArcIndex + 1) addedRange
    else if ranges[overlappingArcIndex - 1].isBeforeRange addedRange && addedRange.isBeforeRange range then
      ranges.insertIdx overlappingArcIndex addedRange
    else addFrom ranges (overlappingArcIndex + 1) addedRange
  else ranges.insertIdx overlappingArcIndex addedRange
termination_by ranges.length - overlappingArcIndex
decreasing_by
  · rw [List.length_eraseIdx_of_lt inside]
    omega
  all_goals omega

def add (self : PlatformTimeRanges Time) (start endTime : Time) : PlatformTimeRanges Time :=
  ⟨addFrom self.ranges 0 ⟨start, endTime⟩⟩

/-- The loops that add the given ranges one after the other. -/
def addAll (self : PlatformTimeRanges Time) : List (TimeRange Time) → PlatformTimeRanges Time
  | [] => self
  | range :: rest => (self.add range.start range.endTime).addAll rest

/-- The copy constructor. -/
def copy (other : PlatformTimeRanges Time) : PlatformTimeRanges Time := addAll ⟨[]⟩ other.ranges

def unionWith (self other : PlatformTimeRanges Time) : PlatformTimeRanges Time := self.copy.addAll other.ranges

variable [BoundedOrder Time]

/-- The loop of `invert` over the gaps between two ranges. -/
def addGaps (inverted : PlatformTimeRanges Time) : List (TimeRange Time) → PlatformTimeRanges Time
  | range :: next :: rest => (inverted.add range.endTime next.start).addGaps (next :: rest)
  | _ => inverted

def invert (self : PlatformTimeRanges Time) : PlatformTimeRanges Time :=
  match self.ranges.head?, self.ranges.getLast? with
  | some first, some last =>
    let inverted : PlatformTimeRanges Time := ⟨[]⟩
    let inverted := if first.start ≠ ⊥ then inverted.add ⊥ first.start else inverted
    let inverted := inverted.addGaps self.ranges
    if last.endTime ≠ ⊤ then inverted.add last.endTime ⊤ else inverted
  | _, _ => add ⟨[]⟩ ⊥ ⊤

def intersectWith (self other : PlatformTimeRanges Time) : PlatformTimeRanges Time :=
  let invertedOther := other.copy.invert
  (self.invert.unionWith invertedOther).invert

end Code

/-- The times in one of the ranges. -/
def times {Time : Type*} [LinearOrder Time] (self : PlatformTimeRanges Time) : Set Time :=
  { time | ∃ range ∈ self.ranges, time ∈ range.times }

/-- Sorted, disjoint, not contiguous, and no range is empty. -/
structure Normal {Time : Type*} [LinearOrder Time] (ranges : List (TimeRange Time)) : Prop where
  proper : ∀ range ∈ ranges, range.start < range.endTime
  apart : ranges.Pairwise fun range later => range.endTime < later.start

/-- Sorted, disjoint and not contiguous, but a range may be one time alone. -/
structure Apart {Time : Type*} [LinearOrder Time] (ranges : List (TimeRange Time)) : Prop where
  ordered : ∀ range ∈ ranges, range.start ≤ range.endTime
  apart : ranges.Pairwise fun range later => range.endTime < later.start

theorem Normal.toApart {Time : Type*} [LinearOrder Time] {ranges : List (TimeRange Time)} (normal : Normal ranges) :
    Apart ranges := ⟨fun range member => (normal.proper range member).le, normal.apart⟩

section Merging

variable {Time : Type*} [LinearOrder Time] {added range : TimeRange Time}

/-- Ranges are merged unless there is a gap between them. -/
theorem touching_iff (ordered : added.start ≤ added.endTime) (rangeOrdered : range.start ≤ range.endTime) :
    (added.isOverlappingRange range || added.isContiguousWithRange range) = true ↔
      range.start ≤ added.endTime ∧ added.start ≤ range.endTime := by
  simp only [TimeRange.isOverlappingRange, TimeRange.isContiguousWithRange, TimeRange.isPointInRange, Bool.or_eq_true,
    Bool.and_eq_true, decide_eq_true_eq, beq_iff_eq]
  constructor
  · rintro (((⟨_, before⟩ | ⟨after, before⟩) | ⟨after, before⟩) | same | same)
    · exact ⟨before.le, by order⟩
    · exact ⟨by order, after⟩
    · exact ⟨by order, before.le⟩
    · exact ⟨same.le, by order⟩
    · exact ⟨by order, same.ge⟩
  · rintro ⟨started, ended⟩
    rcases le_or_gt added.start range.start with first | later
    · rcases started.lt_or_eq with inside | same
      · exact .inl (.inl (.inl ⟨first, inside⟩))
      · exact .inr (.inl same)
    · rcases ended.lt_or_eq with inside | same
      · exact .inl (.inr ⟨later.le, inside⟩)
      · exact .inr (.inr same.symm)

theorem times_union (touching : range.start ≤ added.endTime ∧ added.start ≤ range.endTime) :
    (added.unionWithOverlappingOrContiguousRange range).times = added.times ∪ range.times := by
  ext time
  simp only [TimeRange.times, TimeRange.unionWithOverlappingOrContiguousRange, Set.mem_Ico, Set.mem_union,
    min_le_iff, lt_max_iff]
  constructor
  · rintro ⟨started | started, ended | ended⟩
    · exact .inl ⟨started, ended⟩
    · rcases lt_or_ge time added.endTime with inside | past
      · exact .inl ⟨started, inside⟩
      · exact .inr ⟨touching.1.trans past, ended⟩
    · rcases lt_or_ge time range.endTime with inside | past
      · exact .inr ⟨started, inside⟩
      · exact .inl ⟨touching.2.trans past, ended⟩
    · exact .inr ⟨started, ended⟩
  · rintro (⟨started, ended⟩ | ⟨started, ended⟩)
    · exact ⟨.inl started, .inl ended⟩
    · exact ⟨.inr started, .inr ended⟩

end Merging

section Adding

variable {Time : Type*} [LinearOrder Time]

theorem times_append (front rest : List (TimeRange Time)) :
    times ⟨front ++ rest⟩ = times ⟨front⟩ ∪ times ⟨rest⟩ := by
  ext time
  simp only [times, Set.mem_ofPred_eq, List.mem_append, or_and_right, exists_or, Set.mem_union]

theorem times_cons (range : TimeRange Time) (rest : List (TimeRange Time)) :
    times ⟨range :: rest⟩ = range.times ∪ times ⟨rest⟩ := by
  ext time
  simp [times]

theorem times_nil : times (⟨[]⟩ : PlatformTimeRanges Time) = ∅ := by
  ext time
  simp [times]

section Loop

variable {front rest : List (TimeRange Time)} {added range : TimeRange Time}

theorem Apart.append_iff : Apart (front ++ rest) ↔
    Apart front ∧ Apart rest ∧ ∀ range ∈ front, ∀ later ∈ rest, range.endTime < later.start := by
  constructor
  · intro apart
    obtain ⟨frontApart, restApart, across⟩ := List.pairwise_append.mp apart.apart
    exact ⟨⟨fun range member => apart.ordered range (by simp [member]), frontApart⟩,
      ⟨fun range member => apart.ordered range (by simp [member]), restApart⟩, across⟩
  · rintro ⟨apart, restApart, across⟩
    refine ⟨fun range member => ?_, List.pairwise_append.mpr ⟨apart.apart, restApart.apart, across⟩⟩
    rcases List.mem_append.mp member with earlier | later
    · exact apart.ordered range earlier
    · exact restApart.ordered range later

theorem Apart.cons_iff : Apart (range :: rest) ↔
    range.start ≤ range.endTime ∧ Apart rest ∧ ∀ later ∈ rest, range.endTime < later.start := by
  constructor
  · intro apart
    obtain ⟨across, restApart⟩ := List.pairwise_cons.mp apart.apart
    exact ⟨apart.ordered range (by simp), ⟨fun later member => apart.ordered later (by simp [member]), restApart⟩,
      across⟩
  · rintro ⟨ordered, apart, across⟩
    exact ⟨List.forall_mem_cons.mpr ⟨ordered, apart.ordered⟩, List.pairwise_cons.mpr ⟨across, apart.apart⟩⟩

theorem Normal.cons_iff : Normal (range :: rest) ↔
    range.start < range.endTime ∧ Normal rest ∧ ∀ later ∈ rest, range.endTime < later.start := by
  constructor
  · intro normal
    obtain ⟨proper, restProper⟩ := List.forall_mem_cons.mp normal.proper
    obtain ⟨across, restApart⟩ := List.pairwise_cons.mp normal.apart
    exact ⟨proper, ⟨restProper, restApart⟩, across⟩
  · rintro ⟨proper, normal, across⟩
    exact ⟨List.forall_mem_cons.mpr ⟨proper, normal.proper⟩, List.pairwise_cons.mpr ⟨across, normal.apart⟩⟩

omit [LinearOrder Time] in
theorem insertIdx_middle (front rest : List (TimeRange Time)) (added : TimeRange Time) :
    (front ++ rest).insertIdx front.length added = front ++ added :: rest := by
  induction front with
  | nil => rfl
  | cons first others ih => simp [ih]

/-- The loop stops where everything before ends earlier and everything after starts later. -/
theorem addFrom_insert (ordered : added.start ≤ added.endTime) (before : ∀ range ∈ front, range.endTime < added.start)
    (restOrdered : ∀ range ∈ rest, range.start ≤ range.endTime) (after : ∀ range ∈ rest, added.endTime < range.start) :
    addFrom (front ++ rest) front.length added = front ++ added :: rest := by
  rw [addFrom, insertIdx_middle]
  cases rest with
  | nil => rw [dif_neg (by simp)]
  | cons range later =>
    have behind := after range (by simp)
    have apart : ¬ (added.isOverlappingRange range || added.isContiguousWithRange range) = true := fun touching =>
      absurd ((touching_iff ordered (restOrdered range (by simp))).mp touching).1 (not_le.mpr behind)
    have isBefore : added.isBeforeRange range = true := decide_eq_true behind.le
    rw [dif_pos (by simp)]
    simp only [List.getElem_append_right, le_refl, Nat.sub_self, List.getElem_cons_zero, if_neg apart, isBefore,
      Bool.and_true, if_true]
    by_cases top : front.length = 0
    · rw [if_pos top]
    · have previous : (front ++ range :: later)[front.length - 1].isBeforeRange added = true := by
        rw [List.getElem_append_left (by omega)]
        exact decide_eq_true (before _ (List.getElem_mem _)).le
      rw [if_neg top, if_pos previous]

/-- The loop passes a range that ends before the added one starts. -/
theorem addFrom_pass (ordered : added.start ≤ added.endTime) (rangeOrdered : range.start ≤ range.endTime)
    (ended : range.endTime < added.start) :
    addFrom (front ++ range :: rest) front.length added = addFrom ((front ++ [range]) ++ rest)
    (front ++ [range]).length added := by
  have apart : ¬ (added.isOverlappingRange range || added.isContiguousWithRange range) = true := fun touching =>
    absurd ((touching_iff ordered rangeOrdered).mp touching).2 (not_le.mpr ended)
  have notBefore : added.isBeforeRange range = false := by
    simp only [TimeRange.isBeforeRange, ge_iff_le, decide_eq_false_iff_not, not_le]
    order
  have current : (front ++ range :: rest)[front.length] = range := by simp
  rw [addFrom, dif_pos (by simp)]
  simp only [current, if_neg apart, notBefore, Bool.and_false, Bool.false_eq_true, if_false, ite_self,
    List.append_assoc, List.singleton_append, List.length_append, List.length_singleton]

/-- A range without a gap to the added one is merged into it. -/
theorem addFrom_merge (ordered : added.start ≤ added.endTime) (rangeOrdered : range.start ≤ range.endTime)
    (touching : range.start ≤ added.endTime ∧ added.start ≤ range.endTime) :
    addFrom (front ++ range :: rest) front.length added =
      addFrom (front ++ rest) front.length (added.unionWithOverlappingOrContiguousRange range) := by
  have current : (front ++ range :: rest)[front.length] = range := by simp
  have erased : (front ++ range :: rest).eraseIdx front.length = front ++ rest := by
    simp [List.eraseIdx_append_of_length_le]
  rw [addFrom, dif_pos (by simp)]
  simp only [current, if_pos ((touching_iff ordered rangeOrdered).mpr touching), erased]

theorem insert_spec (apart : Apart (front ++ rest)) (ordered : added.start ≤ added.endTime)
    (before : ∀ range ∈ front, range.endTime < added.start) (after : ∀ range ∈ rest, added.endTime < range.start) :
    Apart (front ++ added :: rest) ∧ times ⟨front ++ added :: rest⟩ = times ⟨front ++ rest⟩ ∪ added.times := by
  obtain ⟨frontApart, restApart, across⟩ := Apart.append_iff.mp apart
  refine ⟨Apart.append_iff.mpr ⟨frontApart, Apart.cons_iff.mpr ⟨ordered, restApart, after⟩, ?_⟩, ?_⟩
  · intro range member
    exact List.forall_mem_cons.mpr ⟨before range member, across range member⟩
  · rw [times_append, times_append, times_cons, Set.union_comm added.times, Set.union_assoc]

/-- The loop keeps what it passed, all of it before the added range. -/
theorem addFrom_spec (apart : Apart (front ++ rest)) (ordered : added.start ≤ added.endTime)
    (before : ∀ range ∈ front, range.endTime < added.start) :
    Apart (addFrom (front ++ rest) front.length added) ∧
      times ⟨addFrom (front ++ rest) front.length added⟩ = times ⟨front ++ rest⟩ ∪ added.times := by
  induction rest generalizing front added with
  | nil =>
    rw [addFrom_insert ordered before (by simp) (by simp)]
    exact insert_spec apart ordered before (by simp)
  | cons range rest ih =>
    obtain ⟨frontApart, restApart, across⟩ := Apart.append_iff.mp apart
    obtain ⟨rangeOrdered, laterApart, rangeBefore⟩ := Apart.cons_iff.mp restApart
    rcases le_or_gt range.start added.endTime with started | behind
    · rcases le_or_gt added.start range.endTime with touching | ended
      · have unionOrdered : (added.unionWithOverlappingOrContiguousRange range).start ≤
            (added.unionWithOverlappingOrContiguousRange range).endTime :=
          (min_le_left ..).trans (ordered.trans (le_max_left ..))
        have merged := ih (Apart.append_iff.mpr ⟨frontApart, laterApart, fun earlier member later next =>
          across earlier member later (by simp [next])⟩) unionOrdered
          fun earlier member => lt_min (before earlier member) (across earlier member range (by simp))
        rw [addFrom_merge ordered rangeOrdered ⟨started, touching⟩]
        refine ⟨merged.1, ?_⟩
        rw [merged.2, times_union ⟨started, touching⟩, times_append, times_append, times_cons]
        ac_rfl
      · have split : front ++ range :: rest = (front ++ [range]) ++ rest := by simp
        rw [addFrom_pass ordered rangeOrdered ended, split]
        exact ih (split ▸ apart) ordered (by simpa [or_imp, forall_and] using And.intro before ended)
    · have after : ∀ later ∈ range :: rest, added.endTime < later.start := List.forall_mem_cons.mpr
        ⟨behind, fun later member => behind.trans (rangeOrdered.trans_lt (rangeBefore later member))⟩
      rw [addFrom_insert ordered before restApart.ordered after]
      exact insert_spec apart ordered before after

theorem addFrom_proper {ranges : List (TimeRange Time)} {index : Nat}
    (all : ∀ range ∈ ranges, range.start < range.endTime) (proper : added.start < added.endTime) :
    ∀ range ∈ addFrom ranges index added, range.start < range.endTime := by
  fun_induction addFrom ranges index added with
  | case1 ranges index added inside range touching ih =>
    exact ih (fun other member => all other (List.mem_of_mem_eraseIdx member))
      ((min_le_left ..).trans_lt (proper.trans_le (le_max_left ..)))
  | case3 ranges added inside range apart before ih => exact ih all proper
  | case5 ranges index added inside range apart top before ih => exact ih all proper
  | _ =>
    intro other member
    rcases List.eq_or_mem_of_mem_insertIdx member with rfl | old
    · exact proper
    · exact all other old

end Loop

variable {self other : PlatformTimeRanges Time}

theorem add_apart (apart : Apart self.ranges) {start endTime : Time} (ordered : start ≤ endTime) :
    Apart (self.add start endTime).ranges ∧ (self.add start endTime).times = self.times ∪ Set.Ico start endTime :=
  addFrom_spec (show Apart ([] ++ self.ranges) from apart) ordered (by simp)

theorem addAll_apart {intervals : List (TimeRange Time)} (apart : Apart self.ranges)
    (ordered : ∀ interval ∈ intervals, interval.start ≤ interval.endTime) :
    Apart (self.addAll intervals).ranges ∧ (self.addAll intervals).times = self.times ∪ times ⟨intervals⟩ := by
  induction intervals generalizing self with
  | nil => exact ⟨apart, by rw [addAll, times_nil, Set.union_empty]⟩
  | cons interval rest ih =>
    obtain ⟨first, later⟩ := List.forall_mem_cons.mp ordered
    obtain ⟨added, addedTimes⟩ := add_apart apart first
    obtain ⟨all, allTimes⟩ := ih added later
    refine ⟨all, ?_⟩
    rw [addAll, allTimes, addedTimes, times_cons, Set.union_assoc]
    rfl

theorem add_spec (normal : Normal self.ranges) {start endTime : Time} (proper : start < endTime) :
    Normal (self.add start endTime).ranges ∧ (self.add start endTime).times = self.times ∪ Set.Ico start endTime := by
  obtain ⟨apart, addedTimes⟩ := add_apart normal.toApart proper.le
  exact ⟨⟨addFrom_proper normal.proper proper, apart.apart⟩, addedTimes⟩

theorem addAll_spec {intervals : List (TimeRange Time)} (normal : Normal self.ranges)
    (proper : ∀ interval ∈ intervals, interval.start < interval.endTime) :
    Normal (self.addAll intervals).ranges ∧ (self.addAll intervals).times = self.times ∪ times ⟨intervals⟩ := by
  refine ⟨?_, (addAll_apart normal.toApart fun interval member => (proper interval member).le).2⟩
  induction intervals generalizing self with
  | nil => exact normal
  | cons interval rest ih =>
    obtain ⟨first, later⟩ := List.forall_mem_cons.mp proper
    exact ih (add_spec normal first).1 later

theorem Normal.nil : Normal ([] : List (TimeRange Time)) := ⟨by simp, .nil⟩

theorem copy_spec (normal : Normal self.ranges) : Normal self.copy.ranges ∧ self.copy.times = self.times := by
  have empty : Normal (⟨[]⟩ : PlatformTimeRanges Time).ranges := Normal.nil
  obtain ⟨copied, copiedTimes⟩ := addAll_spec empty normal.proper
  exact ⟨copied, copiedTimes.trans (by rw [times_nil, Set.empty_union])⟩

theorem unionWith_spec (normal : Normal self.ranges) (otherNormal : Normal other.ranges) :
    Normal (self.unionWith other).ranges ∧ (self.unionWith other).times = self.times ∪ other.times := by
  obtain ⟨copied, copiedTimes⟩ := copy_spec normal
  obtain ⟨united, unitedTimes⟩ := addAll_spec copied otherNormal.proper
  exact ⟨united, unitedTimes.trans (by rw [copiedTimes])⟩

end Adding

section Uniqueness

variable {Time : Type*} [LinearOrder Time]

/-- The ends of all ranges in their order. -/
def bounds : List (TimeRange Time) → List Time
  | [] => []
  | range :: rest => range.start :: range.endTime :: bounds rest

theorem le_of_mem_bounds {low : Time} {ranges : List (TimeRange Time)} (normal : Normal ranges)
    (above : ∀ range ∈ ranges, low < range.start) : ∀ bound ∈ bounds ranges, low < bound := by
  induction ranges with
  | nil => simp [bounds]
  | cons range rest ih =>
    obtain ⟨proper, restNormal, _⟩ := Normal.cons_iff.mp normal
    obtain ⟨first, later⟩ := List.forall_mem_cons.mp above
    exact List.forall_mem_cons.mpr ⟨first, List.forall_mem_cons.mpr ⟨first.trans proper, ih restNormal later⟩⟩

theorem Normal.covering {ranges : List (TimeRange Time)} (normal : Normal ranges) :
    Boundary.Covering (bounds ranges) := by
  induction ranges with
  | nil => exact .nil
  | cons range rest ih =>
    obtain ⟨proper, restNormal, before⟩ := Normal.cons_iff.mp normal
    have later := le_of_mem_bounds restNormal before
    obtain ⟨increasing, even⟩ := ih restNormal
    refine ⟨List.pairwise_cons.mpr ⟨?_, List.pairwise_cons.mpr ⟨later, increasing⟩⟩, ?_⟩
    · exact List.forall_mem_cons.mpr ⟨proper, fun bound member => proper.trans (later bound member)⟩
    · simp only [bounds, List.length_cons]
      omega

theorem mem_times_iff {ranges : List (TimeRange Time)} (normal : Normal ranges) (time : Time) :
    time ∈ times ⟨ranges⟩ ↔ Boundary.inside (bounds ranges) time = true := by
  induction ranges with
  | nil => simp [times_nil, bounds]
  | cons range rest ih =>
    rw [times_cons, bounds, normal.covering.inside_pair, ← ih (Normal.cons_iff.mp normal).2.1]
    rfl

omit [LinearOrder Time] in
theorem bounds_injective {ranges others : List (TimeRange Time)} (same : bounds ranges = bounds others) :
    ranges = others := by
  induction ranges generalizing others with
  | nil =>
    cases others with
    | nil => rfl
    | cons other remaining => cases same
  | cons range rest ih =>
    cases others with
    | nil => cases same
    | cons other remaining =>
      obtain ⟨start, tail⟩ := List.cons.inj same
      obtain ⟨ends, later⟩ := List.cons.inj tail
      rw [ih later, show range = other from by cases range; cases other; simp_all]

/-- The ranges are determined by their times. -/
theorem Normal.unique {self other : PlatformTimeRanges Time} (normal : Normal self.ranges)
    (otherNormal : Normal other.ranges) (same : self.times = other.times) : self = other := by
  have bounds := Boundary.inside_injective normal.covering.increasing otherNormal.covering.increasing fun time => by
    rw [Bool.eq_iff_iff, ← mem_times_iff normal, ← mem_times_iff otherNormal]
    exact Set.ext_iff.mp same time
  cases self
  cases other
  rw [mk.injEq]
  exact bounds_injective bounds

end Uniqueness

section Inverting

variable {Time : Type*} [LinearOrder Time] [BoundedOrder Time] {self other : PlatformTimeRanges Time}

/-- The gaps from a time on. -/
def gapsFrom (low : Time) : List (TimeRange Time) → List (TimeRange Time)
  | [] => if low ≠ ⊤ then [⟨low, ⊤⟩] else []
  | range :: rest => (if low ≠ range.start then [⟨low, range.start⟩] else []) ++ gapsFrom range.endTime rest

/-- The loop over the gaps with the last one after it. -/
theorem addGaps_last {inverted : PlatformTimeRanges Time} {range last : TimeRange Time} {rest : List (TimeRange Time)}
    (apart : Apart (range :: rest)) (ends : (range :: rest).getLast? = some last) :
    (if last.endTime ≠ ⊤ then (inverted.addGaps (range :: rest)).add last.endTime ⊤
      else inverted.addGaps (range :: rest)) = inverted.addAll (gapsFrom range.endTime rest) := by
  induction rest generalizing inverted range with
  | nil =>
    obtain rfl : range = last := by simpa using ends
    simp only [gapsFrom, addGaps]
    split_ifs <;> rfl
  | cons next others ih =>
    obtain ⟨_, restApart, before⟩ := Apart.cons_iff.mp apart
    have gap : range.endTime ≠ next.start := (before next (by simp)).ne
    rw [gapsFrom, if_pos gap, addGaps]
    exact ih restApart (by simpa using ends)

theorem invert_eq [Nontrivial Time] (apart : Apart self.ranges) :
    self.invert = addAll ⟨[]⟩ (gapsFrom ⊥ self.ranges) := by
  obtain ⟨ranges⟩ := self
  cases ranges with
  | nil => simp [invert, gapsFrom, addAll]
  | cons first rest =>
    have ends : (first :: rest).getLast? = some ((first :: rest).getLast (by simp)) := List.getLast?_eq_some_getLast _
    simp only [invert, List.head?_cons, ends, gapsFrom]
    rw [addGaps_last apart ends]
    by_cases start : first.start = ⊥
    · simp [start]
    · simp [start, Ne.symm start, addAll]

theorem gapsFrom_proper {low : Time} {ranges : List (TimeRange Time)} (apart : Apart ranges)
    (above : ∀ range ∈ ranges, low ≤ range.start) : ∀ gap ∈ gapsFrom low ranges, gap.start < gap.endTime := by
  induction ranges generalizing low with
  | nil =>
    intro gap member
    unfold gapsFrom at member
    split_ifs at member with notTop
    · rw [List.mem_singleton.mp member]
      exact lt_top_iff_ne_top.mpr notTop
    · cases member
  | cons range rest ih =>
    obtain ⟨_, restApart, before⟩ := Apart.cons_iff.mp apart
    intro gap member
    rcases List.mem_append.mp member with first | later
    · split_ifs at first with different
      · rw [List.mem_singleton.mp first]
        exact lt_of_le_of_ne (above range (by simp)) different
      · cases first
    · exact ih restApart (fun next inside => (before next inside).le) gap later

/-- The gaps are the times before the end that no range has. -/
theorem times_gapsFrom {low : Time} {ranges : List (TimeRange Time)} (apart : Apart ranges)
    (above : ∀ range ∈ ranges, low ≤ range.start) :
    times ⟨gapsFrom low ranges⟩ = Set.Ico low ⊤ \ times ⟨ranges⟩ := by
  induction ranges generalizing low with
  | nil =>
    rw [times_nil, Set.sdiff_empty, gapsFrom]
    split_ifs with notTop
    · rw [times_cons, times_nil, Set.union_empty, TimeRange.times]
    · rw [times_nil, not_not.mp notTop, Set.Ico_self]
  | cons range rest ih =>
    obtain ⟨ordered, restApart, before⟩ := Apart.cons_iff.mp apart
    have first : times ⟨if low ≠ range.start then [⟨low, range.start⟩] else []⟩ = Set.Ico low range.start := by
      split_ifs with different
      · rw [times_cons, times_nil, Set.union_empty, TimeRange.times]
      · rw [times_nil, not_not.mp different, Set.Ico_self]
    have later : ∀ time ∈ times ⟨rest⟩, range.endTime < time := by
      rintro time ⟨next, member, started, _⟩
      exact (before next member).trans_le started
    have lowStart := above range (by simp)
    rw [gapsFrom, times_append, first, ih restApart fun next inside => (before next inside).le, times_cons]
    ext time
    have notLater : time ≤ range.endTime → time ∉ times ⟨rest⟩ := fun early inside =>
      absurd (later time inside) (not_lt.mpr early)
    have top : range.endTime ≤ ⊤ := le_top
    simp only [TimeRange.times, Set.mem_union, Set.mem_sdiff, Set.mem_Ico, not_or, not_and, not_lt]
    constructor
    · rintro (⟨started, ended⟩ | ⟨⟨started, ended⟩, none⟩)
      · exact ⟨⟨started, by order⟩, fun _ => by order, notLater (by order)⟩
      · exact ⟨⟨by order, ended⟩, fun _ => started, none⟩
    · rintro ⟨⟨started, ended⟩, outside, none⟩
      rcases lt_or_ge time range.start with early | late
      · exact .inl ⟨started, early⟩
      · exact .inr ⟨⟨outside late, ended⟩, none⟩

theorem invert_spec [Nontrivial Time] (normal : Normal self.ranges) :
    Normal self.invert.ranges ∧ self.invert.times = Set.Iio ⊤ \ self.times := by
  have above : ∀ range ∈ self.ranges, ⊥ ≤ range.start := fun _ _ => bot_le
  obtain ⟨inverted, invertedTimes⟩ := addAll_spec Normal.nil (gapsFrom_proper normal.toApart above)
  rw [invert_eq normal.toApart]
  refine ⟨inverted, ?_⟩
  rw [invertedTimes, times_nil, Set.empty_union, times_gapsFrom normal.toApart above, Set.Ico_bot]

theorem times_subset (self : PlatformTimeRanges Time) : self.times ⊆ Set.Iio ⊤ := by
  rintro time ⟨range, _, _, ended⟩
  exact ended.trans_le le_top

theorem intersectWith_spec [Nontrivial Time] (normal : Normal self.ranges) (otherNormal : Normal other.ranges) :
    Normal (self.intersectWith other).ranges ∧ (self.intersectWith other).times = self.times ∩ other.times := by
  obtain ⟨copied, copiedTimes⟩ := copy_spec otherNormal
  obtain ⟨otherInverted, otherTimes⟩ := invert_spec copied
  obtain ⟨inverted, selfTimes⟩ := invert_spec normal
  obtain ⟨united, unitedTimes⟩ := unionWith_spec inverted otherInverted
  obtain ⟨back, backTimes⟩ := invert_spec united
  refine ⟨back, ?_⟩
  have inside := times_subset self
  have otherInside := times_subset other
  rw [intersectWith, backTimes, unitedTimes, selfTimes, otherTimes, copiedTimes, ← Set.sdiff_inter,
    Set.sdiff_sdiff_cancel_left]
  exact Set.inter_subset_left.trans inside

end Inverting

section Results

variable {Time : Type*} [LinearOrder Time] [BoundedOrder Time]

/-- Ranges that some calls built, with the times that the same calls make of sets. A set of
times never has the positive infinite one, which no half-open range has. -/
inductive Built : PlatformTimeRanges Time → Set Time → Prop
  | empty : Built ⟨[]⟩ ∅
  | add {self : PlatformTimeRanges Time} {set : Set Time} (built : Built self set) {start endTime : Time}
      (proper : start < endTime) : Built (self.add start endTime) (set ∪ Set.Ico start endTime)
  | unionWith {self other : PlatformTimeRanges Time} {set otherSet : Set Time} (built : Built self set)
      (otherBuilt : Built other otherSet) : Built (self.unionWith other) (set ∪ otherSet)
  | intersectWith {self other : PlatformTimeRanges Time} {set otherSet : Set Time} (built : Built self set)
      (otherBuilt : Built other otherSet) : Built (self.intersectWith other) (set ∩ otherSet)
  | invert {self : PlatformTimeRanges Time} {set : Set Time} (built : Built self set) :
      Built self.invert (Set.Iio ⊤ \ set)

theorem Built.spec [Nontrivial Time] {self : PlatformTimeRanges Time} {set : Set Time} (built : Built self set) :
    Normal self.ranges ∧ self.times = set := by
  induction built with
  | empty => exact ⟨.nil, times_nil⟩
  | add _ proper ih =>
    obtain ⟨normal, rfl⟩ := ih
    exact add_spec normal proper
  | unionWith _ _ ih otherIh =>
    obtain ⟨normal, rfl⟩ := ih
    obtain ⟨otherNormal, rfl⟩ := otherIh
    exact unionWith_spec normal otherNormal
  | intersectWith _ _ ih otherIh =>
    obtain ⟨normal, rfl⟩ := ih
    obtain ⟨otherNormal, rfl⟩ := otherIh
    exact intersectWith_spec normal otherNormal
  | invert _ ih =>
    obtain ⟨normal, rfl⟩ := ih
    exact invert_spec normal

omit [BoundedOrder Time] in
theorem times_perm {intervals others : List (TimeRange Time)} (order : intervals.Perm others) :
    times ⟨intervals⟩ = times ⟨others⟩ := by
  ext time
  simp only [times, Set.mem_ofPred_eq, order.mem_iff]

/-- The calls keep the ranges normal and do to their times what they do to sets; so the
ranges depend on the set alone, and not on the order in which intervals are added. -/
theorem Built.timeAlgebra [Nontrivial Time] {self : PlatformTimeRanges Time} {set : Set Time}
    (built : Built self set) :
    Normal self.ranges ∧ self.times = set ∧ (∀ other, Built other set → other = self) ∧
      ∀ intervals others : List (TimeRange Time), (∀ interval ∈ intervals, interval.start < interval.endTime) →
        intervals.Perm others → self.addAll intervals = self.addAll others := by
  obtain ⟨normal, same⟩ := built.spec
  refine ⟨normal, same, fun other otherBuilt => ?_, fun intervals others proper order => ?_⟩
  · obtain ⟨otherNormal, otherSame⟩ := otherBuilt.spec
    exact otherNormal.unique normal (otherSame.trans same.symm)
  · obtain ⟨added, addedTimes⟩ := addAll_spec normal proper
    obtain ⟨otherAdded, otherTimes⟩ := addAll_spec normal fun interval member =>
      proper interval (order.mem_iff.mpr member)
    exact added.unique otherAdded (by rw [addedTimes, otherTimes, times_perm order])

/-- Two ranges added in either order to an empty object, and the gap between them. -/
theorem Built.timeAlgebra_gap :
    ((⟨[]⟩ : PlatformTimeRanges (Fin 8)).addAll [⟨1, 3⟩, ⟨5, 6⟩] = addAll ⟨[]⟩ [⟨5, 6⟩, ⟨1, 3⟩]) ∧
      ((PlatformTimeRanges.add ⟨[]⟩ 1 3 : PlatformTimeRanges (Fin 8)).invert.intersectWith
        (PlatformTimeRanges.add ⟨[]⟩ 0 5)).times = (Set.Iio ⊤ \ (∅ ∪ Set.Ico 1 3)) ∩ (∅ ∪ Set.Ico 0 5) := by
  have start : Built (⟨[]⟩ : PlatformTimeRanges (Fin 8)) ∅ := .empty
  have built := Built.add start (show (1 : Fin 8) < 3 by decide)
  have other := Built.add start (show (0 : Fin 8) < 5 by decide)
  exact ⟨(Built.timeAlgebra start).2.2.2 [⟨1, 3⟩, ⟨5, 6⟩] [⟨5, 6⟩, ⟨1, 3⟩] (by decide) (.swap ..),
    (Built.timeAlgebra (.intersectWith (.invert built) other)).2.1⟩

end Results

end PlatformTimeRanges

end WebNode.Graphics
