import WebNode.Bmalloc.Refill

/-! The page lists: which pages are listed as having free lines, and which lie idle. -/
namespace WebNode.Bmalloc

open PageHeap

/-- A page with a line that can serve an allocation. -/
def HasFreeLine (kind : Kind) (heap : PageHeap) (page : Nat) : Prop :=
  ∃ lineNumber < kind.lineCount, heap.lineRefs (Page.begin kind page + lineNumber) = 0 ∧
    lineObjectCount kind (heap.pageClass page) lineNumber ≠ 0

/-- A size class whose objects fit the last line of a page. -/
def FitsLastLine (kind : Kind) (c : Nat) : Prop := lineObjectCount kind c (kind.lineCount - 1) ≠ 0

/-- An entry of the list of a size class that is not stale. -/
def Active (heap : PageHeap) (c page : Nat) : Prop := heap.pageRefs page ≠ 0 ∧ heap.pageClass page = c

instance (heap : PageHeap) (c page : Nat) : Decidable (Active heap c page) :=
  inferInstanceAs (Decidable (_ ∧ _))

/-- Pages out of use, in one of the lists or in the hands of a scavenger. -/
def PageHeap.idlePages (heap : PageHeap) : List Nat := heap.pages ++ heap.vmPages ++ heap.scavenged

/-- The super chunk of a page and the quarter of it that holds pages of a kind. -/
structure InRegion (kind : Kind) (superChunks : List Nat) (page : Nat) : Prop where
  superChunk : page * vmPageSize / superChunkSize ∈ superChunks
  quarter : page * vmPageSize / Kind.chunkSize % 4 = kind.chunkOffset / Kind.chunkSize

/-- What the lists of pages with free lines keep. An entry that is not stale is
there once, and its page has a free line; all such pages are listed whose size class
fits the last line; the other size classes list none. -/
structure Listed (kind : Kind) (heap : PageHeap) : Prop where
  unique : ∀ c, ((heap.pagesWithFreeLines c).filter fun page => Active heap c page).Nodup
  useful : ∀ c, ∀ page ∈ heap.pagesWithFreeLines c, Active heap c page → HasFreeLine kind heap page
  complete : ∀ page, heap.pageRefs page ≠ 0 → HasFreeLine kind heap page →
    FitsLastLine kind (heap.pageClass page) → page ∈ heap.pagesWithFreeLines (heap.pageClass page)
  silent : ∀ c, ¬ FitsLastLine kind c → heap.pagesWithFreeLines c = []

structure Idle (kind : Kind) (heap : PageHeap) (superChunks : List Nat) : Prop where
  unused : ∀ page ∈ heap.idlePages, heap.pageRefs page = 0
  distinct : heap.idlePages.Nodup
  region : ∀ page ∈ heap.idlePages, InRegion kind superChunks page

/-- The invariant of one kind of pages. -/
structure PagesInvariant (kind : Kind) (heap : PageHeap) (objects : List Object) (superChunks : List Nat) :
    Prop where
  counted : Counted kind heap objects
  listed : Listed kind heap
  idle : Idle kind heap superChunks
  region : ∀ object ∈ objects, InRegion kind superChunks (object.address / vmPageSize)

section Deref

variable {kind : Kind} {heap : PageHeap} {objects : List Object} {superChunks : List Nat}

theorem usedLines_eq_lineCount_iff {lineRefs : Nat → Nat} {page : Nat} :
    usedLines kind lineRefs page = kind.lineCount ↔
      ∀ lineNumber < kind.lineCount, lineRefs (Page.begin kind page + lineNumber) ≠ 0 := by
  have length : (List.range kind.lineCount).length = kind.lineCount := List.length_range
  rw [usedLines]
  nth_rewrite 2 [← length]
  rw [List.countP_eq_length]
  simp

/-- A page all of whose lines are in use has no free line, and its objects fit the
last line. -/
theorem Counted.full_page (counted : Counted kind heap objects) {page : Nat}
    (full : heap.pageRefs page = kind.lineCount) :
    ¬ HasFreeLine kind heap page ∧ FitsLastLine kind (heap.pageClass page) := by
  rw [counted.pages, usedLines_eq_lineCount_iff] at full
  constructor
  · rintro ⟨lineNumber, inPage, free, _⟩
    exact full lineNumber inPage free
  · have positive := kind.lineCount_pos
    have used := full (kind.lineCount - 1) (by omega)
    rw [counted.lines, ← Nat.pos_iff_ne_zero, List.countP_pos_iff] at used
    obtain ⟨object, member, atLine⟩ := used
    obtain ⟨valid, lineNumber, inPage, inLine⟩ := counted.onGrid object member
    have line := valid.line_get inPage inLine
    obtain ⟨rfl, rfl⟩ := Page.begin_add_inj inPage (by omega : kind.lineCount - 1 < kind.lineCount)
      (line.symm.trans (by simpa using atLine))
    obtain ⟨index, inCount, _⟩ := mem_lineObjects.mp inLine
    exact Nat.ne_of_gt (Nat.zero_lt_of_lt inCount)

/-- A page not all of whose lines are in use has a line that can serve, if its size
class fits the last line. -/
theorem Counted.hasFreeLine (counted : Counted kind heap objects) {page : Nat}
    (valid : ValidClass kind (heap.pageClass page)) (fits : FitsLastLine kind (heap.pageClass page))
    (notFull : heap.pageRefs page ≠ kind.lineCount) : HasFreeLine kind heap page := by
  rw [counted.pages, Ne, usedLines_eq_lineCount_iff] at notFull
  push Not at notFull
  obtain ⟨lineNumber, inPage, free⟩ := notFull
  refine ⟨lineNumber, inPage, free, ?_⟩
  rcases Nat.lt_or_ge lineNumber (kind.lineCount - 1) with notLast | last
  · exact Nat.ne_of_gt (valid.lineObjectCount_pos notLast)
  · obtain rfl : lineNumber = kind.lineCount - 1 := by omega
    exact fits

/-- What freeing an object does, by whether it was the last one of its line, and
then whether its page was full or had no other line in use. -/
theorem derefLine_cases (kind : Kind) (heap : PageHeap) (line : Nat) :
    (heap.lineRefs line - 1 ≠ 0 ∧ heap.derefLine kind line =
      { heap with lineRefs := Function.update heap.lineRefs line (heap.lineRefs line - 1) }) ∨
    (heap.lineRefs line - 1 = 0 ∧ heap.pageRefs (Page.get kind line) = kind.lineCount ∧
      heap.derefLine kind line =
        { heap with
          lineRefs := Function.update heap.lineRefs line 0
          pageRefs := Function.update heap.pageRefs (Page.get kind line) (kind.lineCount - 1)
          pagesWithFreeLines := Function.update heap.pagesWithFreeLines (heap.pageClass (Page.get kind line))
            (Page.get kind line :: heap.pagesWithFreeLines (heap.pageClass (Page.get kind line))) }) ∨
    (heap.lineRefs line - 1 = 0 ∧ heap.pageRefs (Page.get kind line) = 1 ∧ heap.derefLine kind line =
        { heap with
          lineRefs := Function.update heap.lineRefs line 0
          pageRefs := Function.update heap.pageRefs (Page.get kind line) 0
          pages := Page.get kind line :: heap.pages }) ∨
    (heap.lineRefs line - 1 = 0 ∧ heap.pageRefs (Page.get kind line) ≠ kind.lineCount ∧
      heap.pageRefs (Page.get kind line) ≠ 1 ∧ heap.derefLine kind line =
        { heap with
          lineRefs := Function.update heap.lineRefs line 0
          pageRefs := Function.update heap.pageRefs (Page.get kind line)
            (heap.pageRefs (Page.get kind line) - 1) }) := by
  by_cases more : heap.lineRefs line - 1 = 0
  · right
    by_cases full : heap.pageRefs (Page.get kind line) = kind.lineCount
    · left
      refine ⟨more, full, ?_⟩
      simp [PageHeap.derefLine, deallocateLine, more, full, setPagesWithFreeLines]
    · right
      by_cases single : heap.pageRefs (Page.get kind line) = 1
      · left
        have notFull : 1 ≠ kind.lineCount := Nat.ne_of_lt kind.lineCount_pos
        refine ⟨more, single, ?_⟩
        simp [PageHeap.derefLine, deallocateLine, more, single, notFull]
      · right
        refine ⟨more, full, single, ?_⟩
        simp [PageHeap.derefLine, deallocateLine, more, full, single]
  · left
    refine ⟨more, ?_⟩
    simp [PageHeap.derefLine, more]

theorem hasFreeLine_congr {heap later : PageHeap} {page : Nat} (sameClass : later.pageClass page = heap.pageClass page)
    (sameLines : ∀ lineNumber < kind.lineCount, later.lineRefs (Page.begin kind page + lineNumber) = 0 ↔
      heap.lineRefs (Page.begin kind page + lineNumber) = 0) :
    HasFreeLine kind later page ↔ HasFreeLine kind heap page := by
  unfold HasFreeLine
  rw [sameClass]
  constructor
  · rintro ⟨lineNumber, inPage, free, holds⟩
    exact ⟨lineNumber, inPage, (sameLines lineNumber inPage).mp free, holds⟩
  · rintro ⟨lineNumber, inPage, free, holds⟩
    exact ⟨lineNumber, inPage, (sameLines lineNumber inPage).mpr free, holds⟩

/-- A change to one line leaves the free lines of other pages. -/
theorem hasFreeLine_elsewhere {heap later : PageHeap} {page lineNumber count other : Nat}
    (inPage : lineNumber < kind.lineCount) (sameClass : later.pageClass = heap.pageClass)
    (changed : later.lineRefs = Function.update heap.lineRefs (Page.begin kind page + lineNumber) count)
    (different : other ≠ page) : HasFreeLine kind later other ↔ HasFreeLine kind heap other := by
  refine hasFreeLine_congr (by rw [sameClass]) fun otherLine otherInPage => ?_
  have elsewhere : Page.begin kind other + otherLine ≠ Page.begin kind page + lineNumber := fun equal =>
    different (Page.begin_add_inj otherInPage inPage equal).1
  rw [changed, Function.update_of_ne elsewhere]

/-- Fewer active entries of the same lists are listed once, too. -/
theorem unique_of_imp {heap later : PageHeap} {c : Nat} {list : List Nat}
    (imp : ∀ page ∈ list, Active later c page → Active heap c page)
    (unique : (list.filter fun page => Active heap c page).Nodup) :
    (list.filter fun page => Active later c page).Nodup := by
  have nested : (list.filter fun page => Active later c page) =
      (list.filter fun page => Active heap c page).filter fun page => Active later c page := by
    rw [List.filter_filter]
    apply List.filter_congr
    intro page member
    by_cases active : Active later c page
    · simp [active, imp page member active]
    · simp [active]
  rw [nested]
  exact unique.sublist List.filter_sublist

/-- Lists stay right when no page in use changes its class, its use, or its free
lines. -/
theorem Listed.congr {heap later : PageHeap} (listed : Listed kind heap)
    (sameClass : ∀ page, heap.pageRefs page ≠ 0 → later.pageClass page = heap.pageClass page)
    (sameUse : ∀ page, later.pageRefs page = 0 ↔ heap.pageRefs page = 0)
    (sameLists : later.pagesWithFreeLines = heap.pagesWithFreeLines)
    (sameFree : ∀ page, heap.pageRefs page ≠ 0 → FitsLastLine kind (heap.pageClass page) →
      (HasFreeLine kind later page ↔ HasFreeLine kind heap page)) : Listed kind later := by
  have active {c page : Nat} (isActive : Active later c page) : Active heap c page := by
    have inUse : heap.pageRefs page ≠ 0 := fun zero => isActive.1 ((sameUse page).mpr zero)
    exact ⟨inUse, sameClass page inUse ▸ isActive.2⟩
  constructor
  · intro c
    rw [sameLists]
    exact unique_of_imp (fun _ _ => active) (listed.unique c)
  · intro c page member isActive
    rw [sameLists] at member
    have before := active isActive
    by_cases fits : FitsLastLine kind c
    · exact (sameFree page before.1 (before.2 ▸ fits)).mpr (listed.useful c page member before)
    · rw [listed.silent c fits] at member
      cases member
  · intro page inUse free fits
    rw [Ne, sameUse] at inUse
    rw [sameClass page inUse] at fits ⊢
    rw [sameLists]
    exact listed.complete page inUse ((sameFree page inUse fits).mp free) fits
  · intro c none
    rw [sameLists]
    exact listed.silent c none

/-- Listing a page that had no free line and now has one. -/
theorem Listed.push {heap later : PageHeap} (listed : Listed kind heap) {page : Nat}
    (notFree : ¬ HasFreeLine kind heap page) (fits : FitsLastLine kind (heap.pageClass page))
    (sameClass : later.pageClass = heap.pageClass)
    (sameUse : ∀ page, later.pageRefs page = 0 ↔ heap.pageRefs page = 0)
    (pushed : later.pagesWithFreeLines = Function.update heap.pagesWithFreeLines (heap.pageClass page)
      (page :: heap.pagesWithFreeLines (heap.pageClass page)))
    (free : HasFreeLine kind later page)
    (sameFree : ∀ other, other ≠ page → (HasFreeLine kind later other ↔ HasFreeLine kind heap other)) :
    Listed kind later := by
  have active (c other : Nat) : Active later c other ↔ Active heap c other := by
    rw [Active, Active, sameClass, Ne, sameUse]
  have member (c other : Nat) : other ∈ later.pagesWithFreeLines c ↔
      other ∈ heap.pagesWithFreeLines c ∨ (c = heap.pageClass page ∧ other = page) := by
    rw [pushed, Function.update_apply]
    split
    · rename_i here
      simp [here, or_comm]
    · rename_i elsewhere
      simp [elsewhere]
  constructor
  · intro c
    have before := unique_of_imp (fun other _ => (active c other).mp) (listed.unique c)
    rw [pushed, Function.update_apply]
    split
    · rename_i here
      subst here
      rw [List.filter_cons]
      split
      · refine List.nodup_cons.mpr ⟨?_, before⟩
        intro present
        obtain ⟨inList, isActive⟩ := List.mem_filter.mp present
        exact notFree (listed.useful _ page inList ((active _ page).mp (by simpa using isActive)))
      · exact before
    · exact before
  · intro c other inList isActive
    by_cases same : other = page
    · exact same ▸ free
    · rcases (member c other).mp inList with old | ⟨_, new⟩
      · exact (sameFree other same).mpr (listed.useful c other old ((active c other).mp isActive))
      · exact absurd new same
  · intro other inUse otherFree otherFits
    rw [sameClass] at otherFits ⊢
    rw [Ne, sameUse] at inUse
    rw [member]
    by_cases same : other = page
    · exact .inr ⟨by rw [same], same⟩
    · exact .inl (listed.complete other inUse ((sameFree other same).mp otherFree) otherFits)
  · intro c none
    rw [pushed, Function.update_of_ne]
    · exact listed.silent c none
    · rintro rfl
      exact none fits

/-- A page that goes out of use leaves stale entries at most. -/
theorem Listed.retire {heap later : PageHeap} (listed : Listed kind heap) (page : Nat)
    (unused : later.pageRefs page = 0) (sameClass : later.pageClass = heap.pageClass)
    (sameUse : ∀ other, other ≠ page → later.pageRefs other = heap.pageRefs other)
    (sameLists : later.pagesWithFreeLines = heap.pagesWithFreeLines)
    (sameFree : ∀ other, other ≠ page → (HasFreeLine kind later other ↔ HasFreeLine kind heap other)) :
    Listed kind later := by
  have inUse {other : Nat} (positive : later.pageRefs other ≠ 0) :
      other ≠ page ∧ heap.pageRefs other ≠ 0 := by
    have different : other ≠ page := fun same => positive (same ▸ unused)
    exact ⟨different, sameUse other different ▸ positive⟩
  have active {c other : Nat} (isActive : Active later c other) : Active heap c other :=
    ⟨(inUse isActive.1).2, sameClass ▸ isActive.2⟩
  constructor
  · intro c
    rw [sameLists]
    exact unique_of_imp (fun _ _ => active) (listed.unique c)
  · intro c other inList isActive
    rw [sameLists] at inList
    exact (sameFree other (inUse isActive.1).1).mpr (listed.useful c other inList (active isActive))
  · intro other positive free fits
    rw [sameClass] at fits ⊢
    rw [sameLists]
    obtain ⟨different, before⟩ := inUse positive
    exact listed.complete other before ((sameFree other different).mp free) fits
  · intro c none
    rw [sameLists]
    exact listed.silent c none

variable {object : Object}

/-- Freeing an object keeps the lists right: a full page is listed with its first
free line. -/
theorem Listed.derefLine (listed : Listed kind heap) (counted : Counted kind heap (object :: objects)) :
    Listed kind (heap.derefLine kind (Line.get kind object.address)) := by
  obtain ⟨valid, lineNumber, inPage, inLine⟩ := counted.onGrid object (by simp)
  have atLine := valid.line_get inPage inLine
  have holds : lineObjectCount kind (heap.pageClass (object.address / vmPageSize)) lineNumber ≠ 0 := by
    obtain ⟨index, inCount, _⟩ := mem_lineObjects.mp inLine
    exact Nat.ne_of_gt (Nat.zero_lt_of_lt inCount)
  have used : heap.lineRefs (Line.get kind object.address) ≠ 0 := fun zero =>
    counted.free_line zero (by simp) rfl
  have inUse : heap.pageRefs (object.address / vmPageSize) ≠ 0 := fun zero =>
    counted.free_page zero (by simp) rfl
  have page : Page.get kind (Line.get kind object.address) = object.address / vmPageSize := by
    rw [atLine, Page.get_begin inPage]
  rcases derefLine_cases kind heap (Line.get kind object.address) with
    ⟨more, same⟩ | ⟨last, full, same⟩ | ⟨last, single, same⟩ | ⟨last, notFull, notSingle, same⟩
  · rw [same]
    refine listed.congr (fun _ _ => rfl) (fun _ => Iff.rfl) rfl fun other _ _ => hasFreeLine_congr rfl ?_
    intro otherLine _
    simp only [Function.update_apply]
    split
    · rename_i here
      rw [here]
      exact ⟨fun zero => absurd zero more, fun zero => absurd zero used⟩
    · rfl
  · -- the first free line of a full page, which is not listed as long as it is full
    rw [page] at full
    rw [same, page, atLine]
    obtain ⟨notFree, fits⟩ := counted.full_page full
    have positive := kind.lineCount_pos
    refine listed.push notFree fits rfl ?_ rfl ⟨lineNumber, inPage, by simp, holds⟩
      fun other different => hasFreeLine_elsewhere inPage rfl rfl different
    intro other
    simp only [Function.update_apply]
    split
    · rename_i here
      rw [here]
      omega
    · rfl
  · rw [same, page, atLine]
    refine listed.retire (object.address / vmPageSize) (by simp) rfl ?_ rfl
      fun other different => hasFreeLine_elsewhere inPage rfl rfl different
    intro other different
    simp [different]
  · rw [page] at notFull notSingle
    rw [same, page, atLine]
    refine listed.congr (fun _ _ => rfl) ?_ rfl ?_
    · intro other
      simp only [Function.update_apply]
      split
      · rename_i here
        rw [here]
        omega
      · rfl
    · intro other _ fits
      by_cases here : other = object.address / vmPageSize
      · subst here
        refine ⟨fun _ => counted.hasFreeLine valid fits notFull, fun _ => ?_⟩
        exact ⟨lineNumber, inPage, by simp, holds⟩
      · exact hasFreeLine_elsewhere inPage rfl rfl here

/-- Freeing the last object of a page puts it into the pages list. -/
theorem Idle.derefLine (idle : Idle kind heap superChunks) (counted : Counted kind heap (object :: objects))
    (region : InRegion kind superChunks (object.address / vmPageSize)) :
    Idle kind (heap.derefLine kind (Line.get kind object.address)) superChunks := by
  obtain ⟨valid, lineNumber, inPage, inLine⟩ := counted.onGrid object (by simp)
  have page : Page.get kind (Line.get kind object.address) = object.address / vmPageSize := by
    rw [valid.line_get inPage inLine, Page.get_begin inPage]
  have inUse : heap.pageRefs (object.address / vmPageSize) ≠ 0 := fun zero =>
    counted.free_page zero (by simp) rfl
  have unlisted : object.address / vmPageSize ∉ heap.idlePages := fun member =>
    inUse (idle.unused _ member)
  have unchanged {count other : Nat} (member : other ∈ heap.idlePages) :
      Function.update heap.pageRefs (object.address / vmPageSize) count other = 0 := by
    have different : other ≠ object.address / vmPageSize := fun same => unlisted (same ▸ member)
    rw [Function.update_of_ne different]
    exact idle.unused other member
  rcases derefLine_cases kind heap (Line.get kind object.address) with
    ⟨_, same⟩ | ⟨_, _, same⟩ | ⟨_, _, same⟩ | ⟨_, _, _, same⟩
  · rw [same]
    exact ⟨idle.unused, idle.distinct, idle.region⟩
  · rw [same, page]
    exact ⟨fun _ => unchanged, idle.distinct, idle.region⟩
  · rw [same, page]
    refine ⟨?_, List.nodup_cons.mpr ⟨unlisted, idle.distinct⟩, ?_⟩
    · intro other member
      rcases List.mem_cons.mp member with here | old
      · simp [here]
      · exact unchanged old
    · intro other member
      rcases List.mem_cons.mp member with here | old
      · exact here ▸ region
      · exact idle.region other old
  · rw [same, page]
    exact ⟨fun _ => unchanged, idle.distinct, idle.region⟩

theorem PagesInvariant.derefLine (invariant : PagesInvariant kind heap (object :: objects) superChunks) :
    PagesInvariant kind (heap.derefLine kind (Line.get kind object.address)) objects superChunks where
  counted := invariant.counted.derefLine
  listed := invariant.listed.derefLine invariant.counted
  idle := invariant.idle.derefLine invariant.counted (invariant.region object (by simp))
  region := fun other member => invariant.region other (by simp [member])

end Deref

end WebNode.Bmalloc
