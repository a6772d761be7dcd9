import WebNode.Bmalloc.LineGrid
import WebNode.Lib.Pointwise

/-! Reference counts: a line counts the objects that start in it, and a page its
lines in use. -/
namespace WebNode.Bmalloc

open PageHeap

/-- The number of lines of a page that are in use. -/
def usedLines (kind : Kind) (lineRefs : Nat → Nat) (page : Nat) : Nat :=
  (List.range kind.lineCount).countP fun lineNumber => lineRefs (Page.begin kind page + lineNumber) ≠ 0

/-- The objects of one kind that the heap has given out, and the counts of them. -/
structure Counted (kind : Kind) (heap : PageHeap) (objects : List Object) : Prop where
  onGrid : ∀ object ∈ objects,
    OnGrid kind (heap.pageClass (object.address / vmPageSize)) (object.address / vmPageSize) object
  distinct : objects.Nodup
  lines : ∀ line, heap.lineRefs line = objects.countP fun object => Line.get kind object.address = line
  pages : ∀ page, heap.pageRefs page = usedLines kind heap.lineRefs page

section Numbering

variable {kind : Kind} {page lineNumber : Nat}

theorem Page.get_begin (inPage : lineNumber < kind.lineCount) :
    Page.get kind (Page.begin kind page + lineNumber) = page := by
  have positive := kind.lineSize_pos
  have fits : (lineNumber + 1) * kind.lineSize ≤ vmPageSize :=
    kind.lineCount_mul ▸ Nat.mul_le_mul_right _ inPage
  rw [Nat.add_mul] at fits
  rw [Page.get, Page.begin, Nat.add_mul, Nat.mul_assoc, kind.lineCount_mul]
  apply Nat.div_eq_of_lt_le
  · omega
  · rw [Nat.add_mul]
    omega

theorem Page.begin_add_inj {otherPage otherLine : Nat} (inPage : lineNumber < kind.lineCount)
    (otherInPage : otherLine < kind.lineCount)
    (same : Page.begin kind page + lineNumber = Page.begin kind otherPage + otherLine) :
    page = otherPage ∧ lineNumber = otherLine := by
  have pages := congrArg (Page.get kind) same
  rw [Page.get_begin inPage, Page.get_begin otherInPage] at pages
  subst pages
  exact ⟨rfl, Nat.add_left_cancel same⟩

/-- How the lines in use change with the count of one line. -/
theorem usedLines_update (lineRefs : Nat → Nat) (page : Nat) (inPage : lineNumber < kind.lineCount)
    (count : Nat) :
    usedLines kind (Function.update lineRefs (Page.begin kind page + lineNumber) count) page +
        (decide (lineRefs (Page.begin kind page + lineNumber) ≠ 0)).toNat =
      usedLines kind lineRefs page + (decide (count ≠ 0)).toNat := by
  have counts := Pointwise.countP_add_toNat List.nodup_range (List.mem_range.mpr inPage)
    (p := fun n => decide (lineRefs (Page.begin kind page + n) ≠ 0))
    (q := fun n => decide (Function.update lineRefs (Page.begin kind page + lineNumber) count
      (Page.begin kind page + n) ≠ 0))
    (by
      intro n _ different
      rw [Function.update_of_ne (by omega)])
  rwa [Function.update_self] at counts

theorem usedLines_elsewhere (lineRefs : Nat → Nat) (inPage : lineNumber < kind.lineCount) (count : Nat)
    {other : Nat} (different : other ≠ page) :
    usedLines kind (Function.update lineRefs (Page.begin kind page + lineNumber) count) other =
      usedLines kind lineRefs other := by
  apply List.countP_congr
  intro n inRange
  have elsewhere : Page.begin kind other + n ≠ Page.begin kind page + lineNumber := fun equal =>
    different (Page.begin_add_inj (List.mem_range.mp inRange) inPage equal).1
  rw [Function.update_of_ne elsewhere]

/-- A line in use counts for its page. -/
theorem usedLines_pos {lineRefs : Nat → Nat} (inPage : lineNumber < kind.lineCount)
    (used : lineRefs (Page.begin kind page + lineNumber) ≠ 0) : 0 < usedLines kind lineRefs page :=
  List.countP_pos_iff.mpr ⟨lineNumber, List.mem_range.mpr inPage, by simpa using used⟩

end Numbering

section Counting

variable {kind : Kind} {heap : PageHeap} {objects : List Object} {c page lineNumber : Nat}

theorem Counted.perm {others : List Object} (counted : Counted kind heap objects)
    (perm : objects.Perm others) : Counted kind heap others where
  onGrid := fun object member => counted.onGrid object (perm.mem_iff.mpr member)
  distinct := perm.nodup_iff.mp counted.distinct
  lines := fun line => (counted.lines line).trans (perm.countP_eq _)
  pages := counted.pages

/-- A line that counts no objects has none. -/
theorem Counted.free_line (counted : Counted kind heap objects) {line : Nat} (free : heap.lineRefs line = 0)
    {object : Object} (member : object ∈ objects) : Line.get kind object.address ≠ line := by
  have none := counted.lines line
  rw [free, eq_comm, List.countP_eq_zero] at none
  simpa using none object member

/-- A page without references has no objects. -/
theorem Counted.free_page (counted : Counted kind heap objects) (free : heap.pageRefs page = 0)
    {object : Object} (member : object ∈ objects) : object.address / vmPageSize ≠ page := by
  intro same
  obtain ⟨valid, line, inPage, inLine⟩ := counted.onGrid object member
  rw [same] at valid inLine
  have used : heap.lineRefs (Page.begin kind page + line) ≠ 0 := fun zero =>
    counted.free_line zero member (valid.line_get inPage inLine)
  have positive := usedLines_pos inPage used
  rw [← counted.pages, free] at positive
  exact Nat.lt_irrefl 0 positive

/-- Taking a free line gives out the objects that start in it. -/
theorem Counted.refLine (counted : Counted kind heap objects)
    (valid : ValidClass kind c) (assigned : heap.pageClass page = c) (inPage : lineNumber < kind.lineCount)
    (free : heap.lineRefs (Page.begin kind page + lineNumber) = 0)
    (holds : 0 < lineObjectCount kind c lineNumber) :
    Counted kind (heap.refLine (Page.begin kind page + lineNumber) page (lineObjectCount kind c lineNumber))
      (lineObjects kind c page lineNumber ++ objects) where
  onGrid := by
    intro object member
    rcases List.mem_append.mp member with new | old
    · have onGrid : OnGrid kind c page object := ⟨valid, lineNumber, inPage, new⟩
      rw [onGrid.in_page.2.2]
      exact assigned ▸ onGrid
    · exact counted.onGrid object old
  distinct := by
    refine List.Nodup.append nodup_lineObjects counted.distinct ?_
    intro object new old
    exact counted.free_line free old (valid.line_get inPage new)
  lines := by
    intro line
    have new : (lineObjects kind c page lineNumber).countP
        (fun object => Line.get kind object.address = line) =
          if line = Page.begin kind page + lineNumber then lineObjectCount kind c lineNumber else 0 := by
      split
      · rename_i same
        rw [List.countP_eq_length.mpr]
        · simp [lineObjects]
        · intro object member
          simpa [same] using valid.line_get inPage member
      · rename_i different
        rw [List.countP_eq_zero]
        intro object member
        rw [valid.line_get inPage member]
        simpa using Ne.symm different
    rw [List.countP_append, new, ← counted.lines line, PageHeap.refLine]
    by_cases same : line = Page.begin kind page + lineNumber
    · subst same
      simp [free]
    · simp [same]
  pages := by
    intro other
    simp only [PageHeap.refLine]
    by_cases same : other = page
    · subst same
      have counts := usedLines_update heap.lineRefs other inPage (lineObjectCount kind c lineNumber)
      rw [← counted.pages other] at counts
      simp [free, Nat.ne_of_gt holds] at counts
      rw [Function.update_self, counts]
    · rw [Function.update_of_ne same, usedLines_elsewhere _ inPage _ same, counted.pages other]

end Counting

section Deref

variable {kind : Kind} (heap : PageHeap) (line : Nat)

@[simp] theorem deallocateLine_lineRefs : (heap.deallocateLine kind line).lineRefs = heap.lineRefs := by
  unfold deallocateLine
  dsimp only
  split
  · rfl
  · split <;> rfl

@[simp] theorem deallocateLine_pageClass : (heap.deallocateLine kind line).pageClass = heap.pageClass := by
  unfold deallocateLine
  dsimp only
  split
  · rfl
  · split <;> rfl

@[simp] theorem deallocateLine_pageRefs : (heap.deallocateLine kind line).pageRefs =
    Function.update heap.pageRefs (Page.get kind line) (heap.pageRefs (Page.get kind line) - 1) := by
  unfold deallocateLine
  dsimp only
  split
  · rfl
  · split <;> rfl

@[simp] theorem derefLine_lineRefs : (heap.derefLine kind line).lineRefs =
    Function.update heap.lineRefs line (heap.lineRefs line - 1) := by
  unfold derefLine
  dsimp only
  split <;> simp

@[simp] theorem derefLine_pageClass : (heap.derefLine kind line).pageClass = heap.pageClass := by
  unfold derefLine
  dsimp only
  split <;> simp

theorem derefLine_pageRefs : (heap.derefLine kind line).pageRefs =
    if heap.lineRefs line - 1 ≠ 0 then heap.pageRefs
    else Function.update heap.pageRefs (Page.get kind line) (heap.pageRefs (Page.get kind line) - 1) := by
  unfold derefLine
  dsimp only
  split <;> simp

variable {heap}

/-- Freeing an object takes it out of the counts. -/
theorem Counted.derefLine {object : Object} {objects : List Object}
    (counted : Counted kind heap (object :: objects)) :
    Counted kind (heap.derefLine kind (Line.get kind object.address)) objects := by
  obtain ⟨absent, distinct⟩ := List.nodup_cons.mp counted.distinct
  obtain ⟨valid, lineNumber, inPage, inLine⟩ := counted.onGrid object (by simp)
  have at_line := valid.line_get inPage inLine
  have count := counted.lines (Line.get kind object.address)
  rw [List.countP_cons_of_pos (by simp)] at count
  refine ⟨?_, distinct, ?_, ?_⟩
  · intro other member
    rw [derefLine_pageClass]
    exact counted.onGrid other (by simp [member])
  · intro line
    rw [derefLine_lineRefs]
    by_cases same : line = Line.get kind object.address
    · subst same
      rw [Function.update_self, count, Nat.add_sub_cancel]
    · rw [Function.update_of_ne same, counted.lines line, List.countP_cons_of_neg]
      simpa using Ne.symm same
  · intro page
    rw [derefLine_lineRefs, derefLine_pageRefs, at_line, Page.get_begin inPage]
    rw [at_line] at count
    by_cases same : page = object.address / vmPageSize
    · subst same
      have counts := usedLines_update heap.lineRefs (object.address / vmPageSize) inPage
        (heap.lineRefs (Page.begin kind (object.address / vmPageSize) + lineNumber) - 1)
      have used : heap.lineRefs (Page.begin kind (object.address / vmPageSize) + lineNumber) ≠ 0 := by
        omega
      rw [← counted.pages, decide_eq_true used, Bool.toNat_true] at counts
      split
      · rename_i more
        rw [decide_eq_true more, Bool.toNat_true] at counts
        omega
      · rename_i last
        rw [decide_eq_false last, Bool.toNat_false] at counts
        rw [Function.update_self]
        omega
    · rw [usedLines_elsewhere _ inPage _ same, ← counted.pages]
      split
      · rfl
      · rw [Function.update_of_ne same]

end Deref

end WebNode.Bmalloc
