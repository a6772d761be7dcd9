import WebNode.Bmalloc.Counted

/-! Refilling a range cache: the merged ranges hold exactly the objects of the free
lines of a page, and use up all of its lines. -/
namespace WebNode.Bmalloc

open PageHeap

/-- The objects that a bump allocator will hand out from a range. -/
def BumpRange.objects (c : Nat) (range : BumpRange) : List Object :=
  (List.range range.objectCount).map fun index => ⟨range.begin + index * objectSize c, objectSize c⟩

def cacheObjects (c : Nat) (cache : List BumpRange) : List Object := cache.flatMap (BumpRange.objects c)

section Ranges

variable {kind : Kind} {c page : Nat}

theorem cacheObjects_pushRange (cache : List BumpRange) (range : Option BumpRange) :
    cacheObjects c (pushRange cache range) = cacheObjects c range.toList ++ cacheObjects c cache := by
  cases range <;> simp [pushRange, cacheObjects]

/-- A range over the objects of a page that ends before the given line. -/
def EndsAt (kind : Kind) (c page lineNumber : Nat) (range : BumpRange) : Prop :=
  ∃ first, range.begin = page * vmPageSize + first * objectSize c ∧
    first + range.objectCount = firstObject kind c lineNumber

/-- Merging a line into the range that ends before it adds its objects. -/
theorem EndsAt.objects_merge {lineNumber : Nat} {range : BumpRange}
    (ends : EndsAt kind c page lineNumber range) :
    BumpRange.objects c { range with objectCount := range.objectCount + lineObjectCount kind c lineNumber } =
      range.objects c ++ lineObjects kind c page lineNumber := by
  obtain ⟨first, start, stop⟩ := ends
  simp only [BumpRange.objects, List.range_add, List.map_append, List.map_map, lineObjects]
  congr 1
  apply List.map_congr_left
  intro index _
  simp only [Function.comp_apply, objectAt, start, ← stop, Object.mk.injEq, and_true]
  rw [Nat.add_assoc, ← Nat.add_mul, Nat.add_assoc]

theorem EndsAt.merge {lineNumber : Nat} {range : BumpRange} (ends : EndsAt kind c page lineNumber range)
    (notLast : lineNumber < kind.lineCount - 1) :
    EndsAt kind c page (lineNumber + 1)
      { range with objectCount := range.objectCount + lineObjectCount kind c lineNumber } := by
  obtain ⟨first, start, stop⟩ := ends
  exact ⟨first, start, by rw [firstObject_succ kind c notLast, ← stop, Nat.add_assoc]⟩

/-- The empty range at the first object of a line. -/
theorem ValidClass.endsAt_line (valid : ValidClass kind c) (lineNumber : Nat) :
    EndsAt kind c page lineNumber
      ⟨Line.begin kind (Page.begin kind page + lineNumber) + (lineMetadata kind c lineNumber).startOffset, 0⟩ := by
  refine ⟨firstObject kind c lineNumber, ?_, rfl⟩
  rw [valid.firstObject_mul, lineMetadata_startOffset, Line.begin, Page.begin, Nat.add_mul, Nat.mul_assoc,
    kind.lineCount_mul, Nat.add_assoc]

theorem usableLines_le (kind : Kind) (c : Nat) : usableLines kind c ≤ kind.lineCount := by
  unfold usableLines
  split <;> omega

theorem ValidClass.usable_count (valid : ValidClass kind c) {lineNumber : Nat}
    (usable : lineNumber < usableLines kind c) : 0 < lineObjectCount kind c lineNumber := by
  unfold usableLines at usable
  split at usable
  · exact valid.lineObjectCount_pos usable
  · rename_i holds
    rcases Nat.lt_or_ge lineNumber (kind.lineCount - 1) with notLast | last
    · exact valid.lineObjectCount_pos notLast
    · obtain rfl : lineNumber = kind.lineCount - 1 := by omega
      exact Nat.pos_of_ne_zero holds

/-- The lines that fit an object are those that a refill looks at. -/
theorem usable_of_count {lineNumber : Nat} (inPage : lineNumber < kind.lineCount)
    (holds : lineObjectCount kind c lineNumber ≠ 0) : lineNumber < usableLines kind c := by
  unfold usableLines
  split
  · rename_i none
    rcases Nat.lt_or_ge lineNumber (kind.lineCount - 1) with notLast | last
    · exact notLast
    · obtain rfl : lineNumber = kind.lineCount - 1 := by omega
      exact absurd none holds
  · exact inPage

end Ranges

section Refill

variable {kind : Kind} {c page : Nat}

theorem refillLines_used {lineNumber : Nat} {rest : List Nat} {heap : PageHeap} {range : Option BumpRange}
    {cache : List BumpRange} (used : heap.lineRefs (Page.begin kind page + lineNumber) ≠ 0) :
    refillLines kind c page (lineNumber :: rest) heap range cache =
      refillLines kind c page rest heap none (pushRange cache range) := by
  rw [refillLines, if_pos used]

theorem refillLines_free {lineNumber : Nat} {rest : List Nat} {heap : PageHeap} {range : Option BumpRange}
    {cache : List BumpRange} (free : heap.lineRefs (Page.begin kind page + lineNumber) = 0) :
    refillLines kind c page (lineNumber :: rest) heap range cache =
      refillLines kind c page rest
        (heap.refLine (Page.begin kind page + lineNumber) page (lineObjectCount kind c lineNumber))
        (some (mergeLine kind c page lineNumber range)) cache := by
  rw [refillLines, if_neg (by simpa using free)]
  rfl

theorem ValidClass.mergeLine_objects (valid : ValidClass kind c) {lineNumber : Nat} {range : Option BumpRange}
    (ends : ∀ opened, range = some opened → EndsAt kind c page lineNumber opened) :
    (mergeLine kind c page lineNumber range).objects c =
      cacheObjects c range.toList ++ lineObjects kind c page lineNumber := by
  cases range with
  | none =>
    have opening : EndsAt kind c page lineNumber _ := valid.endsAt_line lineNumber
    simpa [cacheObjects, mergeLine, BumpRange.objects, lineObjectCount] using opening.objects_merge
  | some opened =>
    simpa [cacheObjects, mergeLine, lineObjectCount] using (ends opened rfl).objects_merge

theorem ValidClass.mergeLine_endsAt (valid : ValidClass kind c) {lineNumber : Nat} {range : Option BumpRange}
    (ends : ∀ opened, range = some opened → EndsAt kind c page lineNumber opened)
    (notLast : lineNumber < kind.lineCount - 1) :
    EndsAt kind c page (lineNumber + 1) (mergeLine kind c page lineNumber range) := by
  cases range with
  | none =>
    have opening : EndsAt kind c page lineNumber _ := valid.endsAt_line lineNumber
    simpa [mergeLine, lineObjectCount] using opening.merge notLast
  | some opened => exact (ends opened rfl).merge notLast

/-- The ranges of a refill hold the objects of the free lines, and the counts count
them. -/
theorem ValidClass.refillLines_counted (valid : ValidClass kind c) {objects : List Object} {start count : Nat}
    (usable : start + count ≤ usableLines kind c) {heap : PageHeap} (assigned : heap.pageClass page = c)
    {range : Option BumpRange} {cache : List BumpRange}
    (ends : ∀ opened, range = some opened → 0 < count → EndsAt kind c page start opened)
    (counted : Counted kind heap (cacheObjects c range.toList ++ cacheObjects c cache ++ objects)) :
    Counted kind (refillLines kind c page (List.range' start count) heap range cache).1
      (cacheObjects c (refillLines kind c page (List.range' start count) heap range cache).2 ++ objects) := by
  induction count generalizing start heap range cache with
  | zero =>
    rw [List.range'_zero, refillLines, cacheObjects_pushRange]
    exact counted
  | succ count ih =>
    rw [List.range'_succ]
    by_cases free : heap.lineRefs (Page.begin kind page + start) = 0
    · have atStart : ∀ opened, range = some opened → EndsAt kind c page start opened :=
        fun opened same => ends opened same (by omega)
      have inPage : start < kind.lineCount := by
        have bounded := usableLines_le kind c
        omega
      rw [refillLines_free free]
      refine ih (show start + 1 + count ≤ _ by omega) ?_ ?_ ?_
      · exact assigned
      · intro opened same more
        have bounded := usableLines_le kind c
        obtain rfl := Option.some.inj same
        exact valid.mergeLine_endsAt atStart (by omega)
      · have taken := counted.refLine valid assigned inPage free (valid.usable_count (by omega))
        refine taken.perm ?_
        have single : cacheObjects c (some (mergeLine kind c page start range)).toList =
            (mergeLine kind c page start range).objects c := by simp [cacheObjects]
        rw [single, valid.mergeLine_objects atStart]
        simp only [← List.append_assoc]
        exact (List.perm_append_comm.append_right _).append_right _
    · rw [refillLines_used free]
      refine ih (show start + 1 + count ≤ _ by omega) assigned (by simp) ?_
      rwa [cacheObjects_pushRange]

/-- The objects of a refill are those of lines of the page. -/
theorem ValidClass.refillLines_mem (valid : ValidClass kind c) {start count : Nat}
    (inPage : start + count ≤ kind.lineCount) {heap : PageHeap} {range : Option BumpRange}
    {cache : List BumpRange}
    (ends : ∀ opened, range = some opened → 0 < count → EndsAt kind c page start opened) {object : Object}
    (member : object ∈ cacheObjects c (refillLines kind c page (List.range' start count) heap range cache).2) :
    object ∈ cacheObjects c range.toList ++ cacheObjects c cache ∨
      ∃ lineNumber < kind.lineCount, object ∈ lineObjects kind c page lineNumber := by
  induction count generalizing start heap range cache with
  | zero =>
    rw [List.range'_zero, refillLines, cacheObjects_pushRange] at member
    exact .inl member
  | succ count ih =>
    rw [List.range'_succ] at member
    by_cases free : heap.lineRefs (Page.begin kind page + start) = 0
    · have atStart : ∀ opened, range = some opened → EndsAt kind c page start opened :=
        fun opened same => ends opened same (by omega)
      have next : ∀ opened, some (mergeLine kind c page start range) = some opened → 0 < count →
          EndsAt kind c page (start + 1) opened := by
        intro opened same more
        obtain rfl := Option.some.inj same
        exact valid.mergeLine_endsAt atStart (by omega)
      rw [refillLines_free free] at member
      rcases ih (show start + 1 + count ≤ _ by omega) next member with held | inLine
      · rcases List.mem_append.mp held with merged | cached
        · have opened : object ∈ (mergeLine kind c page start range).objects c := by
            simpa [cacheObjects] using merged
          rw [valid.mergeLine_objects atStart] at opened
          rcases List.mem_append.mp opened with before | here
          · exact .inl (List.mem_append_left _ before)
          · exact .inr ⟨start, by omega, here⟩
        · exact .inl (List.mem_append_right _ cached)
      · exact .inr inLine
    · rw [refillLines_used free] at member
      rcases ih (show start + 1 + count ≤ _ by omega) (by simp) member with held | inLine
      · rw [Option.toList_none, cacheObjects_pushRange] at held
        exact .inl (by simpa [cacheObjects] using held)
      · exact .inr inLine

/-- A refill changes nothing but the counts of the page and its lines. -/
structure SameLists (heap later : PageHeap) : Prop where
  pageClass : later.pageClass = heap.pageClass
  pagesWithFreeLines : later.pagesWithFreeLines = heap.pagesWithFreeLines
  pages : later.pages = heap.pages
  vmPages : later.vmPages = heap.vmPages
  scavenged : later.scavenged = heap.scavenged

variable {lines : List Nat} {heap : PageHeap} {range : Option BumpRange} {cache : List BumpRange}

/-- What each line that is taken keeps, a refill keeps. -/
theorem refillLines_invariant {H : PageHeap → Prop} (start : H heap)
    (keeps : ∀ lineNumber ∈ lines, ∀ before : PageHeap, before.lineRefs (Page.begin kind page + lineNumber) = 0 →
      H before → H (before.refLine (Page.begin kind page + lineNumber) page (lineObjectCount kind c lineNumber))) :
    H (refillLines kind c page lines heap range cache).1 := by
  induction lines generalizing heap range cache with
  | nil => exact start
  | cons lineNumber rest ih =>
    have later := fun other inside => keeps other (List.mem_cons_of_mem _ inside)
    by_cases free : heap.lineRefs (Page.begin kind page + lineNumber) = 0
    · rw [refillLines_free free]
      exact ih (keeps lineNumber List.mem_cons_self heap free start) later
    · rw [refillLines_used free]
      exact ih start later

theorem refillLines_lists : SameLists heap (refillLines kind c page lines heap range cache).1 :=
  refillLines_invariant ⟨rfl, rfl, rfl, rfl, rfl⟩ fun _ _ _ _ ⟨pageClass, withFree, pages, vmPages, scavenged⟩ =>
    ⟨pageClass, withFree, pages, vmPages, scavenged⟩

/-- A line in use keeps its count. -/
theorem refillLines_keeps {line : Nat} (used : heap.lineRefs line ≠ 0) :
    (refillLines kind c page lines heap range cache).1.lineRefs line = heap.lineRefs line := by
  refine refillLines_invariant (H := fun later => later.lineRefs line = heap.lineRefs line) rfl ?_
  intro lineNumber _ before free same
  have different : line ≠ Page.begin kind page + lineNumber := fun taken => used (same ▸ taken ▸ free)
  exact (Function.update_of_ne different ..).trans same

/-- After a refill every line it looked at is in use. -/
theorem refillLines_fills (holds : ∀ lineNumber ∈ lines, 0 < lineObjectCount kind c lineNumber)
    {lineNumber : Nat} (member : lineNumber ∈ lines) :
    (refillLines kind c page lines heap range cache).1.lineRefs (Page.begin kind page + lineNumber) ≠ 0 := by
  induction lines generalizing heap range cache with
  | nil => simp at member
  | cons first rest ih =>
    have later : ∀ lineNumber ∈ rest, 0 < lineObjectCount kind c lineNumber :=
      fun other inside => holds other (by simp [inside])
    rcases List.mem_cons.mp member with same | inside
    · subst same
      by_cases free : heap.lineRefs (Page.begin kind page + lineNumber) = 0
      · have taken : (heap.refLine (Page.begin kind page + lineNumber) page
            (lineObjectCount kind c lineNumber)).lineRefs (Page.begin kind page + lineNumber) ≠ 0 := by
          simpa [PageHeap.refLine] using Nat.ne_of_gt (holds lineNumber (by simp))
        rw [refillLines_free free, refillLines_keeps taken]
        exact taken
      · rw [refillLines_used free, refillLines_keeps free]
        exact free
    · by_cases free : heap.lineRefs (Page.begin kind page + first) = 0
      · rw [refillLines_free free]
        exact ih later inside
      · rw [refillLines_used free]
        exact ih later inside

theorem refillLines_pageRefs {other : Nat} (different : other ≠ page) :
    (refillLines kind c page lines heap range cache).1.pageRefs other = heap.pageRefs other :=
  refillLines_invariant (H := fun later => later.pageRefs other = heap.pageRefs other) rfl
    fun _ _ _ _ same => (Function.update_of_ne different ..).trans same

/-- The lines of other pages are not touched. -/
theorem refillLines_lineRefs {line : Nat} (inPage : ∀ lineNumber ∈ lines, lineNumber < kind.lineCount)
    (different : Page.get kind line ≠ page) :
    (refillLines kind c page lines heap range cache).1.lineRefs line = heap.lineRefs line := by
  refine refillLines_invariant (H := fun later => later.lineRefs line = heap.lineRefs line) rfl ?_
  intro lineNumber inside before _ same
  have elsewhere : line ≠ Page.begin kind page + lineNumber := by
    rintro rfl
    exact different (Page.get_begin (inPage lineNumber inside))
  exact (Function.update_of_ne elsewhere ..).trans same

/-- No range of a refill is empty. -/
theorem refillLines_positive (holds : ∀ lineNumber ∈ lines, 0 < lineObjectCount kind c lineNumber)
    (opened : ∀ first, range = some first → 0 < first.objectCount)
    (cached : ∀ old ∈ cache, 0 < old.objectCount) :
    ∀ new ∈ (refillLines kind c page lines heap range cache).2, 0 < new.objectCount := by
  have pushed {range : Option BumpRange} {cache : List BumpRange}
      (opened : ∀ first, range = some first → 0 < first.objectCount)
      (cached : ∀ old ∈ cache, 0 < old.objectCount) :
      ∀ new ∈ pushRange cache range, 0 < new.objectCount := by
    cases range with
    | none => exact cached
    | some first => simpa [pushRange] using ⟨opened first rfl, cached⟩
  induction lines generalizing heap range cache with
  | nil => exact pushed opened cached
  | cons lineNumber rest ih =>
    have later : ∀ lineNumber ∈ rest, 0 < lineObjectCount kind c lineNumber :=
      fun other inside => holds other (by simp [inside])
    by_cases free : heap.lineRefs (Page.begin kind page + lineNumber) = 0
    · rw [refillLines_free free]
      refine ih later ?_ cached
      intro merged same
      obtain rfl := Option.some.inj same
      have here : 0 < (lineMetadata kind c lineNumber).objectCount := holds lineNumber (by simp)
      cases range with
      | none => exact here
      | some first => exact Nat.add_pos_right _ here
    · rw [refillLines_used free]
      exact ih later (by simp) (pushed opened cached)

/-- Between two ranges there is a line in use, so there are at most half as many
ranges as lines. -/
theorem refillLines_length : (refillLines kind c page lines heap range cache).2.length ≤
    cache.length + (lines.length + 1 + range.toList.length) / 2 := by
  induction lines generalizing heap range cache with
  | nil =>
    rw [refillLines]
    cases range <;> simp [pushRange]
  | cons lineNumber rest ih =>
    by_cases free : heap.lineRefs (Page.begin kind page + lineNumber) = 0
    · rw [refillLines_free free]
      refine Nat.le_trans ih ?_
      simp only [List.length_cons, Option.toList_some, List.length_nil]
      omega
    · rw [refillLines_used free]
      refine Nat.le_trans ih ?_
      cases range with
      | none => simp [pushRange]; omega
      | some opened => simp [pushRange]; omega

/-- An open range or a free line leaves a range in the cache. -/
theorem refillLines_ne_nil (some : range ≠ none ∨ cache ≠ [] ∨
    ∃ lineNumber ∈ lines, heap.lineRefs (Page.begin kind page + lineNumber) = 0) :
    (refillLines kind c page lines heap range cache).2 ≠ [] := by
  induction lines generalizing heap range cache with
  | nil =>
    rw [refillLines]
    cases range with
    | none => simpa [pushRange] using some
    | some opened => simp [pushRange]
  | cons lineNumber rest ih =>
    by_cases free : heap.lineRefs (Page.begin kind page + lineNumber) = 0
    · rw [refillLines_free free]
      exact ih (.inl (by simp))
    · rw [refillLines_used free]
      apply ih
      rcases some with opened | cached | ⟨other, member, unused⟩
      · cases range with
        | none => exact absurd rfl opened
        | some opened => exact .inr (.inl (by simp [pushRange]))
      · cases range with
        | none => exact .inr (.inl cached)
        | some opened => exact .inr (.inl (by simp [pushRange]))
      · rcases List.mem_cons.mp member with same | inside
        · exact absurd (same ▸ unused) free
        · exact .inr (.inr ⟨other, inside, unused⟩)

end Refill

end WebNode.Bmalloc
