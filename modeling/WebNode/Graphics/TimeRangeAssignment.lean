import WebNode.Graphics.TimeRanges

/-!
# Assignment of time ranges

`operator=` shares the helper of the copy constructor, which adds the other ranges to those that are there.
-/

namespace WebNode.Graphics.PlatformTimeRanges

section Code

variable {Time : Type*} [LinearOrder Time]

/-- `operator=`. -/
def assign (self other : PlatformTimeRanges Time) : PlatformTimeRanges Time := self.addAll other.ranges

end Code

section Covering

variable {Time : Type*} [LinearOrder Time] {self : PlatformTimeRanges Time} {ranges front rest : List (TimeRange Time)}
  {added range : TimeRange Time}

/-- One of the ranges reaches from the start to the end of the given one. -/
def Within (range : TimeRange Time) (ranges : List (TimeRange Time)) : Prop :=
  ∃ other ∈ ranges, other.start ≤ range.start ∧ range.endTime ≤ other.endTime

theorem Within.of_mem (member : range ∈ ranges) : Within range ranges := ⟨range, member, le_rfl, le_rfl⟩

theorem Within.trans {others : List (TimeRange Time)} (within : Within range ranges)
    (all : ∀ range ∈ ranges, Within range others) : Within range others := by
  obtain ⟨other, member, started, ended⟩ := within
  obtain ⟨outer, outerMember, outerStarted, outerEnded⟩ := all other member
  exact ⟨outer, outerMember, outerStarted.trans started, ended.trans outerEnded⟩

theorem Within.insertIdx {index : Nat} (inside : index ≤ ranges.length) :
    ∀ range ∈ added :: ranges, Within range (ranges.insertIdx index added) := fun _ member =>
  .of_mem ((List.mem_insertIdx inside).mpr (List.mem_cons.mp member))

/-- Merging only makes ranges longer. -/
theorem addFrom_within {index : Nat} (inside : index ≤ ranges.length) :
    ∀ range ∈ added :: ranges, Within range (addFrom ranges index added) := by
  fun_induction addFrom ranges index added with
  | case1 ranges index added bounded range touching ih =>
    have erased : (ranges.eraseIdx index).length = ranges.length - 1 := List.length_eraseIdx_of_lt bounded
    have merged := ih (by omega)
    obtain ⟨⟨union, member, started, ended⟩, others⟩ := List.forall_mem_cons.mp merged
    obtain ⟨addedStarted, rangeStarted⟩ := le_min_iff.mp started
    obtain ⟨addedEnded, rangeEnded⟩ := max_le_iff.mp ended
    refine List.forall_mem_cons.mpr ⟨⟨union, member, addedStarted, addedEnded⟩, fun other old => ?_⟩
    obtain ⟨place, valid, rfl⟩ := List.mem_iff_getElem.mp old
    by_cases same : place = index
    · subst same
      exact ⟨union, member, rangeStarted, rangeEnded⟩
    · exact others _ (List.mem_eraseIdx_iff_getElem.mpr ⟨place, valid, same, rfl⟩)
  | case3 ranges added bounded range apart before ih => exact ih (by omega)
  | case5 ranges index added bounded range apart top before ih => exact ih (by omega)
  | _ => exact Within.insertIdx (by omega)

theorem addAll_within {intervals : List (TimeRange Time)} :
    ∀ range ∈ self.ranges, Within range (self.addAll intervals).ranges := by
  induction intervals generalizing self with
  | nil => exact fun range member => .of_mem member
  | cons interval rest ih =>
    intro range member
    exact Within.trans (addFrom_within (Nat.zero_le _) range (by simp [member])) ih

theorem addFrom_passAll {passed : List (TimeRange Time)} (ordered : added.start ≤ added.endTime)
    (frontOrdered : ∀ range ∈ front, range.start ≤ range.endTime)
    (before : ∀ range ∈ front, range.endTime < added.start) :
    addFrom (passed ++ (front ++ rest)) passed.length added = addFrom (passed ++ front ++ rest)
    (passed ++ front).length added := by
  induction front generalizing passed with
  | nil => simp
  | cons range others ih =>
    obtain ⟨rangeOrdered, othersOrdered⟩ := List.forall_mem_cons.mp frontOrdered
    obtain ⟨ended, othersBefore⟩ := List.forall_mem_cons.mp before
    rw [List.cons_append, addFrom_pass ordered rangeOrdered ended, ih othersOrdered othersBefore]
    simp only [List.append_assoc, List.singleton_append]

/-- Ranges inside the added one are merged away, and those after it are left. -/
theorem addFrom_absorb {inner outer : List (TimeRange Time)} (ordered : added.start ≤ added.endTime)
    (before : ∀ range ∈ front, range.endTime < added.start)
    (innerOrdered : ∀ range ∈ inner, range.start ≤ range.endTime)
    (within : ∀ range ∈ inner, added.start ≤ range.start ∧ range.endTime ≤ added.endTime)
    (outerOrdered : ∀ range ∈ outer, range.start ≤ range.endTime)
    (after : ∀ range ∈ outer, added.endTime < range.start) :
    addFrom (front ++ (inner ++ outer)) front.length added = front ++ added :: outer := by
  induction inner with
  | nil => exact addFrom_insert ordered before outerOrdered after
  | cons range others ih =>
    obtain ⟨rangeOrdered, othersOrdered⟩ := List.forall_mem_cons.mp innerOrdered
    obtain ⟨⟨started, ended⟩, othersWithin⟩ := List.forall_mem_cons.mp within
    have union : added.unionWithOverlappingOrContiguousRange range = added := by
      rw [TimeRange.unionWithOverlappingOrContiguousRange, min_eq_left started, max_eq_left ended]
    rw [List.cons_append, addFrom_merge ordered rangeOrdered ⟨rangeOrdered.trans ended, started.trans rangeOrdered⟩,
      union]
    exact ih othersOrdered othersWithin

/-- A sorted list is cut after the ranges that start within the given one. -/
theorem Apart.split (apart : Apart ranges) (bound : Time) : ∃ inner outer, ranges = inner ++ outer ∧
    (∀ range ∈ inner, range.start ≤ bound) ∧ ∀ range ∈ outer, bound < range.start := by
  induction ranges with
  | nil => exact ⟨[], [], rfl, by simp, by simp⟩
  | cons range rest ih =>
    obtain ⟨ordered, restApart, across⟩ := Apart.cons_iff.mp apart
    rcases le_or_gt range.start bound with early | late
    · obtain ⟨inner, outer, rfl, before, after⟩ := ih restApart
      exact ⟨range :: inner, outer, rfl, List.forall_mem_cons.mpr ⟨early, before⟩, after⟩
    · exact ⟨[], range :: rest, rfl, by simp, List.forall_mem_cons.mpr
        ⟨late, fun later member => late.trans (ordered.trans_lt (across later member))⟩⟩

/-- Adding ranges that cover all that is behind the first ones replaces it. -/
theorem addAll_covering {others : List (TimeRange Time)} (apart : Apart (front ++ others)) (restApart : Apart rest)
    (within : ∀ range ∈ rest, Within range others) : addAll ⟨front ++ rest⟩ others = ⟨front ++ others⟩ := by
  induction others generalizing front rest with
  | nil =>
    cases rest with
    | nil => rfl
    | cons range later =>
      obtain ⟨other, member, _⟩ := within range (by simp)
      cases member
  | cons added others ih =>
    obtain ⟨frontApart, addedApart, across⟩ := Apart.append_iff.mp apart
    obtain ⟨ordered, othersApart, later⟩ := Apart.cons_iff.mp addedApart
    have before : ∀ range ∈ front, range.endTime < added.start :=
      fun range member => across range member added (by simp)
    obtain ⟨inner, outer, rfl, early, late⟩ := restApart.split added.endTime
    obtain ⟨innerApart, outerApart, _⟩ := Apart.append_iff.mp restApart
    have innerWithin : ∀ range ∈ inner, added.start ≤ range.start ∧ range.endTime ≤ added.endTime := by
      intro range member
      obtain ⟨other, otherMember, started, ended⟩ := within range (by simp [member])
      rcases List.mem_cons.mp otherMember with rfl | other_later
      · exact ⟨started, ended⟩
      · exact absurd (early range member) (not_le.mpr ((later other other_later).trans_le started))
    have outerWithin : ∀ range ∈ outer, Within range others := by
      intro range member
      obtain ⟨other, otherMember, started, ended⟩ := within range (by simp [member])
      rcases List.mem_cons.mp otherMember with rfl | other_later
      · exact absurd ((outerApart.ordered range member).trans ended) (not_le.mpr (late range member))
      · exact ⟨other, other_later, started, ended⟩
    have once : addFrom (front ++ (inner ++ outer)) 0 added = front ++ added :: outer := by
      have passed := @addFrom_passAll _ _ front (inner ++ outer) added [] ordered frontApart.ordered before
      rw [List.nil_append, List.nil_append, List.length_nil] at passed
      rw [passed, addFrom_absorb ordered before innerApart.ordered innerWithin outerApart.ordered late]
    have next := @ih (front ++ [added]) outer (by simpa using apart) outerApart outerWithin
    rw [addAll, add, once]
    simpa using next

/-- Assignment replaces the ranges just if each old one lies within a new one. -/
theorem assign_eq_iff {other : PlatformTimeRanges Time} (apart : Apart self.ranges) (otherApart : Apart other.ranges) :
    (self.assign other).ranges = other.ranges ↔ ∀ range ∈ self.ranges, Within range other.ranges := by
  constructor
  · intro same range member
    rw [← same]
    exact addAll_within range member
  · intro within
    exact congrArg ranges (@addAll_covering _ _ [] self.ranges other.ranges otherApart apart within)

end Covering

section Results

variable {Time : Type*} [LinearOrder Time] [BoundedOrder Time]

/-- Ranges that calls built, with an `add` of one time alone among them. -/
inductive Formed : PlatformTimeRanges Time → Prop
  | empty : Formed ⟨[]⟩
  | add {self : PlatformTimeRanges Time} (formed : Formed self) {start endTime : Time} (ordered : start ≤ endTime) :
      Formed (self.add start endTime)
  | unionWith {self other : PlatformTimeRanges Time} (formed : Formed self) (otherFormed : Formed other) :
      Formed (self.unionWith other)
  | intersectWith {self other : PlatformTimeRanges Time} (formed : Formed self) (otherFormed : Formed other) :
      Formed (self.intersectWith other)
  | invert {self : PlatformTimeRanges Time} (formed : Formed self) : Formed self.invert
  | assign {self other : PlatformTimeRanges Time} (formed : Formed self) (otherFormed : Formed other) :
      Formed (self.assign other)

omit [BoundedOrder Time] in
theorem Apart.unionWith {self other : PlatformTimeRanges Time} (apart : Apart self.ranges)
    (otherApart : Apart other.ranges) :
    Apart (self.unionWith other).ranges :=
  (addAll_apart (addAll_apart Normal.nil.toApart apart.ordered).1 otherApart.ordered).1

theorem Apart.invert [Nontrivial Time] {self : PlatformTimeRanges Time} (apart : Apart self.ranges) :
    Apart self.invert.ranges := by
  rw [invert_eq apart]
  exact (addAll_apart Normal.nil.toApart fun gap member => (gapsFrom_proper apart (fun _ _ => bot_le) gap member).le).1

theorem Formed.apart [Nontrivial Time] {self : PlatformTimeRanges Time} (formed : Formed self) : Apart self.ranges := by
  induction formed with
  | empty => exact Normal.nil.toApart
  | add _ ordered ih => exact (add_apart ih ordered).1
  | unionWith _ _ ih otherIh => exact ih.unionWith otherIh
  | intersectWith _ _ ih otherIh =>
    exact (ih.invert.unionWith (addAll_apart Normal.nil.toApart otherIh.ordered).1.invert).invert
  | invert _ ih => exact ih.invert
  | assign _ _ ih otherIh => exact (addAll_apart ih otherIh.ordered).1

/-- After `a = b` the ranges of `a` are those of `b` just if each range that `a` held lies within one of `b`. -/
theorem Formed.assign_iff [Nontrivial Time] {self other : PlatformTimeRanges Time} (formed : Formed self)
    (otherFormed : Formed other) :
    (self.assign other).ranges = other.ranges ↔ ∀ range ∈ self.ranges, Within range other.ranges :=
  assign_eq_iff formed.apart otherFormed.apart

theorem Formed.assign_longer :
    ((PlatformTimeRanges.add ⟨[]⟩ 1 2 : PlatformTimeRanges (Fin 8)).assign (PlatformTimeRanges.add ⟨[]⟩ 1 3)).ranges =
      (PlatformTimeRanges.add ⟨[]⟩ 1 3).ranges :=
  (Formed.assign_iff (.add .empty (show (1 : Fin 8) ≤ 2 by decide)) (.add .empty (show (1 : Fin 8) ≤ 3 by decide))).mpr
    (by unfold Within; decide +kernel)

/-- What was held before is still there after an assignment. -/
theorem assign_keeps : Formed (PlatformTimeRanges.add ⟨[]⟩ 5 6 : PlatformTimeRanges (Fin 8)) ∧
    ((PlatformTimeRanges.add ⟨[]⟩ 5 6 : PlatformTimeRanges (Fin 8)).assign (.add ⟨[]⟩ 1 3)).ranges = [⟨1, 3⟩, ⟨5, 6⟩] ∧
    (PlatformTimeRanges.add ⟨[]⟩ 1 3 : PlatformTimeRanges (Fin 8)).ranges = [⟨1, 3⟩] :=
  ⟨.add .empty (by decide), by decide +kernel, by decide +kernel⟩

end Results

end WebNode.Graphics.PlatformTimeRanges
