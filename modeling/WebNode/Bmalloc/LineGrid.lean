import WebNode.Bmalloc.Allocator
import Mathlib.Data.List.Nodup

/-! The grid of objects in a page: the rounding recurrence of the line metadata puts
the objects of a size class at the multiples of their size. -/
namespace WebNode.Bmalloc

theorem divideRoundingUp_mul (numerator : Nat) {denominator : Nat} (positive : 0 < denominator) :
    (divideRoundingUp numerator denominator).1 * denominator =
      numerator + (if (divideRoundingUp numerator denominator).2 ≠ 0
        then denominator - (divideRoundingUp numerator denominator).2 else 0) := by
  have split := Nat.div_add_mod numerator denominator
  have bounded := Nat.mod_lt numerator positive
  unfold divideRoundingUp
  by_cases zero : numerator % denominator = 0
  · simp only [zero, ne_eq, not_true_eq_false, if_false, Nat.add_zero]
    rw [Nat.mul_comm]
    omega
  · simp only [zero, ne_eq, not_false_eq_true, if_true]
    rw [Nat.add_mul, Nat.one_mul, Nat.mul_comm]
    omega

section Grid

variable {lineSize size : Nat}

/-- The number of objects that start before a line, lines rounding up. -/
def lineIndex (lineSize size : Nat) : Nat → Nat
  | 0 => 0
  | lineNumber + 1 => lineIndex lineSize size lineNumber +
      (divideRoundingUp (lineSize - startOffset lineSize size lineNumber) size).1

theorem startOffset_lt (lineSize : Nat) (positive : 0 < size) (lineNumber : Nat) :
    startOffset lineSize size lineNumber < size := by
  cases lineNumber with
  | zero => exact positive
  | succ lineNumber =>
    rw [startOffset]
    split
    · omega
    · exact positive

/-- The first object of a line is the first one of the grid at or behind its start. -/
theorem lineIndex_mul (positive : 0 < size) (fits : size ≤ lineSize) (lineNumber : Nat) :
    lineIndex lineSize size lineNumber * size =
      lineNumber * lineSize + startOffset lineSize size lineNumber := by
  induction lineNumber with
  | zero => simp [lineIndex, startOffset]
  | succ lineNumber ih =>
    have before := startOffset_lt lineSize positive lineNumber
    rw [lineIndex, Nat.add_mul, ih, divideRoundingUp_mul _ positive, startOffset, Nat.add_mul, Nat.one_mul]
    omega

end Grid

/-- A size class whose objects are of the given kind. -/
structure ValidClass (kind : Kind) (c : Nat) : Prop where
  kind_eq : Kind.ofClass c = kind
  bounded : c < mediumMax / alignment

section Lines

variable {kind : Kind} {c : Nat}

theorem Kind.lineCount_mul (kind : Kind) : kind.lineCount * kind.lineSize = vmPageSize := by
  cases kind <;> rfl

theorem Kind.lineCount_pos (kind : Kind) : 1 < kind.lineCount := by
  cases kind <;> decide

theorem Kind.lineSize_pos (kind : Kind) : 0 < kind.lineSize := by
  cases kind <;> decide

theorem objectSize_pos (c : Nat) : 0 < objectSize c := by
  simp [objectSize, alignment]

theorem ValidClass.fits (valid : ValidClass kind c) : objectSize c ≤ kind.lineSize := by
  obtain ⟨same, bounded⟩ := valid
  have small : sizeClass smallMax = 31 := by decide
  unfold Kind.ofClass at same
  rw [small] at same
  simp only [mediumMax, alignment] at bounded
  split at same
  · subst same
    simp only [objectSize, alignment, Kind.lineSize, smallLineSize]
    omega
  · subst same
    simp only [objectSize, alignment, Kind.lineSize, mediumLineSize]
    omega

theorem lineMetadata_startOffset (kind : Kind) (c lineNumber : Nat) :
    (lineMetadata kind c lineNumber).startOffset = startOffset kind.lineSize (objectSize c) lineNumber := by
  unfold lineMetadata
  split <;> rfl

/-- How many objects start in a line. -/
def lineObjectCount (kind : Kind) (c lineNumber : Nat) : Nat := (lineMetadata kind c lineNumber).objectCount

/-- The index in the page of the first object of a line. -/
def firstObject (kind : Kind) (c lineNumber : Nat) : Nat := lineIndex kind.lineSize (objectSize c) lineNumber

theorem lineObjectCount_eq (kind : Kind) (c : Nat) {lineNumber : Nat}
    (notLast : lineNumber < kind.lineCount - 1) : lineObjectCount kind c lineNumber =
      (divideRoundingUp (kind.lineSize - startOffset kind.lineSize (objectSize c) lineNumber) (objectSize c)).1 := by
  unfold lineObjectCount lineMetadata
  rw [if_pos notLast]

theorem lineObjectCount_last (kind : Kind) (c : Nat) : lineObjectCount kind c (kind.lineCount - 1) =
    (kind.lineSize - startOffset kind.lineSize (objectSize c) (kind.lineCount - 1)) / objectSize c := by
  unfold lineObjectCount lineMetadata
  rw [if_neg (Nat.lt_irrefl _)]

theorem firstObject_succ (kind : Kind) (c : Nat) {lineNumber : Nat}
    (notLast : lineNumber < kind.lineCount - 1) :
    firstObject kind c (lineNumber + 1) = firstObject kind c lineNumber + lineObjectCount kind c lineNumber := by
  rw [lineObjectCount_eq kind c notLast]
  rfl

theorem ValidClass.firstObject_mul (valid : ValidClass kind c) (lineNumber : Nat) :
    firstObject kind c lineNumber * objectSize c =
      lineNumber * kind.lineSize + startOffset kind.lineSize (objectSize c) lineNumber :=
  lineIndex_mul (objectSize_pos c) valid.fits lineNumber

/-- Only the last line of a page can be too short for an object. -/
theorem ValidClass.lineObjectCount_pos (valid : ValidClass kind c) {lineNumber : Nat}
    (notLast : lineNumber < kind.lineCount - 1) : 0 < lineObjectCount kind c lineNumber := by
  have before := startOffset_lt kind.lineSize (objectSize_pos c) lineNumber
  have fits := valid.fits
  have multiple := divideRoundingUp_mul
    (kind.lineSize - startOffset kind.lineSize (objectSize c) lineNumber) (objectSize_pos c)
  rw [← lineObjectCount_eq kind c notLast] at multiple
  apply Nat.pos_of_ne_zero
  intro zero
  rw [zero, Nat.zero_mul] at multiple
  omega

/-- The objects of a line start in it and end in the page. -/
theorem ValidClass.object_bounds (valid : ValidClass kind c) {lineNumber index : Nat}
    (inPage : lineNumber < kind.lineCount) (inLine : index < lineObjectCount kind c lineNumber) :
    lineNumber * kind.lineSize ≤ (firstObject kind c lineNumber + index) * objectSize c ∧
      (firstObject kind c lineNumber + index) * objectSize c < (lineNumber + 1) * kind.lineSize ∧
      (firstObject kind c lineNumber + index) * objectSize c + objectSize c ≤ vmPageSize := by
  have first := valid.firstObject_mul lineNumber
  have fits := valid.fits
  have positive := objectSize_pos c
  have taken : (index + 1) * objectSize c ≤ lineObjectCount kind c lineNumber * objectSize c :=
    Nat.mul_le_mul_right _ inLine
  have page := kind.lineCount_mul
  rw [Nat.add_mul, Nat.one_mul] at taken
  rw [Nat.add_mul, Nat.add_mul, Nat.one_mul]
  rcases Nat.lt_or_ge lineNumber (kind.lineCount - 1) with notLast | last
  · have next := valid.firstObject_mul (lineNumber + 1)
    have short := startOffset_lt kind.lineSize positive (lineNumber + 1)
    have below : (lineNumber + 2) * kind.lineSize ≤ kind.lineCount * kind.lineSize :=
      Nat.mul_le_mul_right _ (by omega)
    rw [firstObject_succ kind c notLast, Nat.add_mul, Nat.add_mul, Nat.one_mul] at next
    rw [Nat.add_mul, page] at below
    omega
  · obtain rfl : lineNumber = kind.lineCount - 1 := by omega
    have count := Nat.div_mul_le_self
      (kind.lineSize - startOffset kind.lineSize (objectSize c) (kind.lineCount - 1)) (objectSize c)
    have short := startOffset_lt kind.lineSize positive (kind.lineCount - 1)
    have whole : (kind.lineCount - 1) * kind.lineSize + kind.lineSize = vmPageSize := by
      rw [← page, Nat.sub_mul, Nat.one_mul]
      have atLeast : kind.lineSize ≤ kind.lineCount * kind.lineSize :=
        Nat.le_mul_of_pos_left _ (Nat.zero_lt_of_lt inPage)
      omega
    rw [← lineObjectCount_last] at count
    omega

/-- The object of a page with the given index. -/
def objectAt (c page index : Nat) : Object := ⟨page * vmPageSize + index * objectSize c, objectSize c⟩

/-- The objects that start in a line of a page. -/
def lineObjects (kind : Kind) (c page lineNumber : Nat) : List Object :=
  (List.range (lineObjectCount kind c lineNumber)).map fun index =>
    objectAt c page (firstObject kind c lineNumber + index)

/-- An object on the grid of a page. -/
structure OnGrid (kind : Kind) (c page : Nat) (object : Object) : Prop where
  valid : ValidClass kind c
  inLine : ∃ lineNumber < kind.lineCount, object ∈ lineObjects kind c page lineNumber

variable {page lineNumber : Nat} {object other : Object}

theorem mem_lineObjects : object ∈ lineObjects kind c page lineNumber ↔
    ∃ index < lineObjectCount kind c lineNumber,
      object = objectAt c page (firstObject kind c lineNumber + index) := by
  simp [lineObjects, eq_comm]

theorem nodup_lineObjects : (lineObjects kind c page lineNumber).Nodup := by
  refine List.Nodup.map_on ?_ List.nodup_range
  intro left _ right _ same
  have positive := objectSize_pos c
  have addresses := congrArg Object.address same
  simp only [objectAt, Nat.add_left_cancel_iff] at addresses
  exact Nat.add_left_cancel (Nat.eq_of_mul_eq_mul_right positive addresses)

/-- The line of an object, numbered over the whole memory. -/
theorem ValidClass.line_get (valid : ValidClass kind c) (inPage : lineNumber < kind.lineCount)
    (member : object ∈ lineObjects kind c page lineNumber) :
    Line.get kind object.address = Page.begin kind page + lineNumber := by
  obtain ⟨index, inLine, rfl⟩ := mem_lineObjects.mp member
  obtain ⟨above, below, _⟩ := valid.object_bounds inPage inLine
  simp only [Line.get, Page.begin, objectAt, ← kind.lineCount_mul, ← Nat.mul_assoc]
  apply Nat.div_eq_of_lt_le
  · rw [Nat.add_mul]
    omega
  · rw [Nat.add_assoc, Nat.add_mul (page * kind.lineCount)]
    omega

/-- An object on the grid of a page lies in it. -/
theorem OnGrid.in_page (onGrid : OnGrid kind c page object) :
    page * vmPageSize ≤ object.address ∧ object.address + object.size ≤ (page + 1) * vmPageSize ∧
      object.address / vmPageSize = page := by
  obtain ⟨valid, lineNumber, inPage, member⟩ := onGrid
  obtain ⟨index, inLine, rfl⟩ := mem_lineObjects.mp member
  obtain ⟨_, _, ends⟩ := valid.object_bounds inPage inLine
  have positive := objectSize_pos c
  simp only [objectAt, vmPageSize] at ends ⊢
  omega

def Object.Disjoint (left right : Object) : Prop :=
  left.address + left.size ≤ right.address ∨ right.address + right.size ≤ left.address

theorem objectAt_disjoint {left right : Nat} (below : left < right) :
    (objectAt c page left).Disjoint (objectAt c page right) := by
  have apart : (left + 1) * objectSize c ≤ right * objectSize c := Nat.mul_le_mul_right _ below
  rw [Nat.add_mul, Nat.one_mul] at apart
  left
  simp only [objectAt]
  omega

/-- Different objects on the grids of pages are disjoint. -/
theorem OnGrid.disjoint {classOf : Nat → Nat} {page otherPage : Nat}
    (onGrid : OnGrid kind (classOf page) page object)
    (otherOnGrid : OnGrid kind (classOf otherPage) otherPage other) (different : object ≠ other) :
    object.Disjoint other := by
  rcases Nat.lt_trichotomy page otherPage with before | same | after
  · have inside := onGrid.in_page
    have otherInside := otherOnGrid.in_page
    have apart : (page + 1) * vmPageSize ≤ otherPage * vmPageSize := Nat.mul_le_mul_right _ before
    left
    omega
  · subst same
    obtain ⟨_, _, _, member⟩ := onGrid
    obtain ⟨_, _, _, otherMember⟩ := otherOnGrid
    obtain ⟨index, _, rfl⟩ := mem_lineObjects.mp member
    obtain ⟨otherIndex, _, rfl⟩ := mem_lineObjects.mp otherMember
    rcases Nat.lt_trichotomy (firstObject kind (classOf page) _ + index)
      (firstObject kind (classOf page) _ + otherIndex) with before | same | after
    · exact objectAt_disjoint before
    · exact absurd (congrArg _ same) different
    · exact (objectAt_disjoint after).symm
  · have inside := onGrid.in_page
    have otherInside := otherOnGrid.in_page
    have apart : (otherPage + 1) * vmPageSize ≤ page * vmPageSize := Nat.mul_le_mul_right _ after
    right
    omega

end Lines

end WebNode.Bmalloc
