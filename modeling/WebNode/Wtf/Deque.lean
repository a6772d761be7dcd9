import WebNode.Lib.Ring
import Mathlib.Algebra.Order.Ring.Int

/-!
# Deques

`Deque` over the storage of `VectorBuffer`: the ring operations, growth,
    and what a run of operations leaves in the ring.
-/

namespace WebNode.Wtf

open Function (update)
open WebNode.Lib.Ring

/-- What the storage depends on: the element type, and the sizes that the allocator hands out. -/
structure ElementType where
  sizeOf : Nat
  isPod : Bool
  fastMallocGoodSize : Nat → Nat
  sizeOf_pos : 0 < sizeOf
  le_goodSize : ∀ bytes, bytes ≤ fastMallocGoodSize bytes
  goodSize_mono : ∀ bytes more, bytes ≤ more → fastMallocGoodSize bytes ≤ fastMallocGoodSize more
  goodSize_good : ∀ bytes, fastMallocGoodSize (fastMallocGoodSize bytes) = fastMallocGoodSize bytes
  goodSize_unsigned : ∀ bytes ≤ 0xFFFFFFFF, fastMallocGoodSize bytes ≤ 0xFFFFFFFF

/-- The most elements that `allocateBuffer` accepts. -/
def ElementType.limit (type : ElementType) : Nat := 0xFFFFFFFF / type.sizeOf

/-- `VectorBufferBase::allocateBuffer`: the capacity, unless it crashes. -/
def ElementType.allocateBuffer (type : ElementType) (newCapacity : Nat) : Option Nat :=
  if newCapacity > type.limit then none
  else some (type.fastMallocGoodSize (newCapacity * type.sizeOf) / type.sizeOf % 2 ^ 32)

/-- Where `m_buffer` points. -/
inductive Storage (α : Type) where
  | null
  | inline
  | heap (slots : Slots α)

structure Deque (α : Type) (inlineCapacity : Nat) where
  mStart : Nat
  mEnd : Nat
  buffer : Storage α
  capacity : Nat
  inlineBuffer : Slots α

/-- `VectorMover::move` between two buffers. -/
def move {α : Type} (source target : Slots α) (src dst : Nat) : Nat → Slots α × Slots α
  | 0 => (source, target)
  | count + 1 => move (update source src none) (update target dst (source src)) (src + 1) (dst + 1) count

/-- `VectorMover::move` within a buffer. -/
def moveForward {α : Type} (slots : Slots α) (src dst : Nat) : Nat → Slots α
  | 0 => slots
  | count + 1 => moveForward (update (update slots dst (slots src)) src none) (src + 1) (dst + 1) count

/-- The other loop of `moveOverlapping`, from the end. -/
def moveBackward {α : Type} (slots : Slots α) (src dst : Nat) : Nat → Slots α
  | 0 => slots
  | count + 1 =>
    moveBackward (update (update slots (dst + count) (slots (src + count))) (src + count) none) src dst count

def moveOverlapping {α : Type} (slots : Slots α) (src srcEnd dst : Nat) : Slots α :=
  if src > dst then moveForward slots src dst (srcEnd - src) else moveBackward slots src dst (srcEnd - src)

namespace Deque

variable {α : Type} {inlineCapacity : Nat}

/-- Without inline slots the buffer is null at first. -/
def empty : Deque α inlineCapacity :=
  ⟨0, 0, if inlineCapacity = 0 then .null else .inline, inlineCapacity, dead⟩

/-- The slots behind `m_buffer`. -/
def slots (deque : Deque α inlineCapacity) : Slots α :=
  match deque.buffer with
  | .null => dead
  | .inline => deque.inlineBuffer
  | .heap slots => slots

def setSlots (deque : Deque α inlineCapacity) (slots : Slots α) : Deque α inlineCapacity :=
  { deque with
    buffer := match deque.buffer with
      | .heap _ => .heap slots
      | other => other
    inlineBuffer := match deque.buffer with
      | .inline => slots
      | _ => deque.inlineBuffer }

def size (deque : Deque α inlineCapacity) : Nat :=
  if deque.mStart ≤ deque.mEnd then deque.mEnd - deque.mStart else deque.mEnd + deque.capacity - deque.mStart

def isEmpty (deque : Deque α inlineCapacity) : Bool := deque.mStart = deque.mEnd

/-- The loop from an iterator to `end()`, with the number of rounds that it may take. -/
def iterateFrom (deque : Deque α inlineCapacity) : Nat → Nat → List (Option α)
  | 0, _ => []
  | rounds + 1, index =>
    if index = deque.mEnd then [] else deque.slots index :: deque.iterateFrom rounds (next deque.capacity index)

def iterate (deque : Deque α inlineCapacity) : List (Option α) := deque.iterateFrom deque.capacity deque.mStart

/-- The capacity that `expandCapacity` asks for. -/
def requested (deque : Deque α inlineCapacity) : Nat := max 16 (deque.capacity + deque.capacity / 4 + 1)

/-- The moves of `expandCapacity`: the new start, the old buffer and the new one. -/
def relocate (deque : Deque α inlineCapacity) (newCapacity : Nat) (target : Slots α) : Nat × Slots α × Slots α :=
  if deque.mStart ≤ deque.mEnd then
    (deque.mStart, move deque.slots target deque.mStart deque.mStart (deque.mEnd - deque.mStart))
  else
    let front := move deque.slots target 0 0 deque.mEnd
    let newStart := newCapacity - (deque.capacity - deque.mStart)
    (newStart, move front.1 front.2 deque.mStart newStart (deque.capacity - deque.mStart))

/-- `expandCapacity`. A request that fits goes to the inline slots, which are then not the old buffer. -/
def expandCapacity (type : ElementType) (deque : Deque α inlineCapacity) : Option (Deque α inlineCapacity) :=
  if deque.requested > inlineCapacity then
    (type.allocateBuffer deque.requested).map fun newCapacity =>
      let (newStart, old, new) := deque.relocate newCapacity dead
      match deque.buffer with
      | .inline => ⟨newStart, deque.mEnd, .heap new, newCapacity, old⟩
      | _ => ⟨newStart, deque.mEnd, .heap new, newCapacity, deque.inlineBuffer⟩
  else
    let (newStart, _, new) := deque.relocate inlineCapacity deque.inlineBuffer
    some ⟨newStart, deque.mEnd, .inline, inlineCapacity, new⟩

def expandCapacityIfNeeded (type : ElementType) (deque : Deque α inlineCapacity) : Option (Deque α inlineCapacity) :=
  if deque.mStart ≠ 0 then
    if deque.mEnd + 1 ≠ deque.mStart then some deque else deque.expandCapacity type
  else if deque.mEnd ≠ 0 then
    if deque.mEnd ≠ deque.capacity - 1 then some deque else deque.expandCapacity type
  else if deque.capacity ≠ 0 then some deque
  else deque.expandCapacity type

def append (type : ElementType) (value : α) (deque : Deque α inlineCapacity) : Option (Deque α inlineCapacity) :=
  (deque.expandCapacityIfNeeded type).map fun deque =>
    { deque.setSlots (update deque.slots deque.mEnd (some value)) with mEnd := next deque.capacity deque.mEnd }

def prepend (type : ElementType) (value : α) (deque : Deque α inlineCapacity) : Option (Deque α inlineCapacity) :=
  (deque.expandCapacityIfNeeded type).map fun deque =>
    let newStart := previous deque.capacity deque.mStart
    { deque.setSlots (update deque.slots newStart (some value)) with mStart := newStart }

def removeFirst (deque : Deque α inlineCapacity) : Deque α inlineCapacity :=
  { deque.setSlots (update deque.slots deque.mStart none) with mStart := next deque.capacity deque.mStart }

def removeLast (deque : Deque α inlineCapacity) : Deque α inlineCapacity :=
  let newEnd := previous deque.capacity deque.mEnd
  { deque.setSlots (update deque.slots newEnd none) with mEnd := newEnd }

def takeFirst (deque : Deque α inlineCapacity) : Deque α inlineCapacity × Option α :=
  (deque.removeFirst, deque.slots deque.mStart)

def takeLast (deque : Deque α inlineCapacity) : Deque α inlineCapacity × Option α :=
  (deque.removeLast, deque.slots (previous deque.capacity deque.mEnd))

def remove (position : Nat) (deque : Deque α inlineCapacity) : Deque α inlineCapacity :=
  if position = deque.mEnd then deque
  else
    let slots := update deque.slots position none
    if position ≥ deque.mStart then
      { deque.setSlots (moveOverlapping slots deque.mStart position (deque.mStart + 1)) with
        mStart := (deque.mStart + 1) % deque.capacity }
    else
      { deque.setSlots (moveOverlapping slots (position + 1) deque.mEnd position) with
        mEnd := (deque.mEnd - 1 + deque.capacity) % deque.capacity }

/-- The slots after `destroyAll`. -/
def destroyAll (deque : Deque α inlineCapacity) : Slots α := fun p =>
  if deque.mStart ≤ deque.mEnd then
    if deque.mStart ≤ p ∧ p < deque.mEnd then none else deque.slots p
  else if p < deque.mEnd ∨ deque.mStart ≤ p ∧ p < deque.capacity then none else deque.slots p

/-- `clear`. Only a buffer on the heap is given back, and then there is none. -/
def clear (deque : Deque α inlineCapacity) : Deque α inlineCapacity :=
  match deque.buffer with
  | .null => ⟨0, 0, .null, deque.capacity, deque.inlineBuffer⟩
  | .inline => ⟨0, 0, .inline, deque.capacity, deque.destroyAll⟩
  | .heap _ => ⟨0, 0, .null, 0, deque.inlineBuffer⟩

end Deque

/-- What is done to a deque. An iterator is `begin()`, incremented as often. -/
inductive DequeOperation (α : Type) where
  | append (value : α)
  | prepend (value : α)
  | takeFirst
  | takeLast
  | remove (increments : Nat)
  | clear

namespace DequeOperation

variable {α : Type} {inlineCapacity : Nat}

/-- The deque and what is taken from it, unless the allocator crashes. -/
def step (type : ElementType) (deque : Deque α inlineCapacity) :
    DequeOperation α → Option (Deque α inlineCapacity × List (Option α))
  | append value => (deque.append type value).map fun deque => (deque, [])
  | prepend value => (deque.prepend type value).map fun deque => (deque, [])
  | takeFirst => some (deque.takeFirst.1, [deque.takeFirst.2])
  | takeLast => some (deque.takeLast.1, [deque.takeLast.2])
  | remove increments => some (deque.remove ((next deque.capacity)^[increments] deque.mStart), [])
  | clear => some (deque.clear, [])

def run (type : ElementType) (deque : Deque α inlineCapacity) :
    List (DequeOperation α) → Option (Deque α inlineCapacity × List (Option α))
  | [] => some (deque, [])
  | operation :: rest =>
    (operation.step type deque).bind fun (later, taken) =>
      (run type later rest).map fun (final, more) => (final, taken ++ more)

/-- The same on a sequence, where the operation is allowed. -/
def onSequence (xs : List α) : DequeOperation α → Option (List α × List α)
  | append value => some (xs ++ [value], [])
  | prepend value => some (value :: xs, [])
  | takeFirst => xs.head?.map fun first => (xs.tail, [first])
  | takeLast => xs.getLast?.map fun last => (xs.dropLast, [last])
  | remove increments => if increments ≤ xs.length then some (xs.eraseIdx increments, []) else none
  | clear => some ([], [])

def runOnSequence (xs : List α) : List (DequeOperation α) → Option (List α × List α)
  | [] => some (xs, [])
  | operation :: rest =>
    (operation.onSequence xs).bind fun (later, taken) =>
      (runOnSequence later rest).map fun (final, more) => (final, taken ++ more)

end DequeOperation

section Moves

variable {α : Type}

theorem move_spec (source target : Slots α) (src dst count : Nat) :
    move source target src dst count =
      (fun p => if src ≤ p ∧ p < src + count then none else source p,
       fun p => if dst ≤ p ∧ p < dst + count then source (src + (p - dst)) else target p) := by
  induction count generalizing source target src dst with
  | zero =>
    rw [move]
    congr 1 <;> funext p <;> rw [if_neg (by omega)]
  | succ count ih =>
    rw [move, ih]
    congr 1 <;> funext p <;> simp only [Function.update_apply]
    · split_ifs <;> first | rfl | omega
    · split_ifs <;> first | rfl | omega | (congr 1; omega)

theorem moveForward_spec (slots : Slots α) (src dst count : Nat) (apart : dst < src) :
    moveForward slots src dst count = fun p =>
      if dst ≤ p ∧ p < dst + count then slots (src + (p - dst))
      else if src ≤ p ∧ p < src + count then none else slots p := by
  induction count generalizing slots src dst with
  | zero =>
    funext p
    rw [moveForward, if_neg (by omega), if_neg (by omega)]
  | succ count ih =>
    rw [moveForward, ih _ _ _ (by omega)]
    funext p
    simp only [Function.update_apply]
    split_ifs <;> first | rfl | omega | (congr 1; omega)

theorem moveBackward_spec (slots : Slots α) (src dst count : Nat) (apart : src < dst) :
    moveBackward slots src dst count = fun p =>
      if dst ≤ p ∧ p < dst + count then slots (src + (p - dst))
      else if src ≤ p ∧ p < src + count then none else slots p := by
  induction count generalizing slots with
  | zero =>
    funext p
    rw [moveBackward, if_neg (by omega), if_neg (by omega)]
  | succ count ih =>
    rw [moveBackward, ih]
    funext p
    simp only [Function.update_apply]
    split_ifs <;> first | rfl | omega | (congr 1; omega)

end Moves

namespace ElementType

variable {type : ElementType} {newCapacity capacity : Nat}

/-- The allocator hands out at least what is asked for, and the same again for what it has handed out. -/
theorem allocateBuffer_spec (allocated : type.allocateBuffer newCapacity = some capacity) :
    newCapacity ≤ capacity ∧ type.allocateBuffer capacity = some capacity := by
  rw [allocateBuffer] at allocated
  split at allocated
  · cases allocated
  · next allowed =>
    have fits : newCapacity * type.sizeOf ≤ 0xFFFFFFFF :=
      (Nat.le_div_iff_mul_le type.sizeOf_pos).mp (Nat.le_of_not_lt allowed)
    have unsigned := type.goodSize_unsigned _ fits
    have enough := type.le_goodSize (newCapacity * type.sizeOf)
    have handed : type.fastMallocGoodSize (newCapacity * type.sizeOf) / type.sizeOf = capacity := by
      rw [Nat.mod_eq_of_lt (Nat.lt_of_le_of_lt (Nat.div_le_self _ _) (by omega))] at allocated
      exact Option.some.inj allocated
    have least : newCapacity ≤ capacity := handed ▸ (Nat.le_div_iff_mul_le type.sizeOf_pos).mpr enough
    -- What was handed out lies between what was asked for and the good size.
    have within : capacity * type.sizeOf ≤ type.fastMallocGoodSize (newCapacity * type.sizeOf) :=
      handed ▸ Nat.div_mul_le_self _ _
    have same :
        type.fastMallocGoodSize (capacity * type.sizeOf) = type.fastMallocGoodSize (newCapacity * type.sizeOf) := by
      refine Nat.le_antisymm ?_ (type.goodSize_mono _ _ (Nat.mul_le_mul_right _ least))
      rw [← type.goodSize_good (newCapacity * type.sizeOf)]
      exact type.goodSize_mono _ _ within
    have allowedToo : ¬ capacity > type.limit :=
      Nat.not_lt.mpr ((Nat.le_div_iff_mul_le type.sizeOf_pos).mpr (Nat.le_trans within unsigned))
    refine ⟨least, ?_⟩
    rw [allocateBuffer, if_neg allowedToo, same, handed]
    rw [handed] at allocated
    exact allocated

end ElementType

namespace Deque

variable {α : Type} {inlineCapacity : Nat} {type : ElementType} {deque result : Deque α inlineCapacity} {xs : List α}
    {x : α}

/-- The capacity goes with where the buffer is. -/
def Stored (type : ElementType) (deque : Deque α inlineCapacity) : Prop :=
  match deque.buffer with
  | .null => deque.capacity = 0
  | .inline => deque.capacity = inlineCapacity ∧ 0 < inlineCapacity
  | .heap _ => inlineCapacity < deque.capacity ∧ type.allocateBuffer deque.capacity = some deque.capacity

/-- The deque has a sequence: it stands in the ring, a slot is left, and nothing else is alive. -/
structure Represents (type : ElementType) (deque : Deque α inlineCapacity) (xs : List α) : Prop where
  stored : deque.Stored type
  notOne : deque.capacity ≠ 1
  bounded : deque.mStart ≤ deque.capacity - 1
  spare : xs.length ≤ deque.capacity - 1
  ends : deque.mEnd = slotAt deque.capacity deque.mStart xs.length
  slots : deque.slots = place deque.capacity deque.mStart xs
  idle : deque.buffer ≠ .inline → deque.inlineBuffer = dead

theorem represents_empty (notOne : inlineCapacity ≠ 1) : (empty : Deque α inlineCapacity).Represents type [] := by
  by_cases none : inlineCapacity = 0
  · subst none
    exact ⟨rfl, Nat.zero_ne_one, Nat.le_refl 0, Nat.le_refl 0, rfl, place_nil.symm, fun _ => rfl⟩
  · have buffer : (empty : Deque α inlineCapacity).buffer = .inline := if_neg none
    refine ⟨?_, notOne, Nat.zero_le _, Nat.zero_le _, ?_, ?_, fun outside => absurd buffer outside⟩
    · rw [Stored, buffer]
      exact ⟨rfl, by omega⟩
    · exact (if_pos (show 0 + 0 < inlineCapacity by omega)).symm
    · rw [place_nil, Deque.slots, buffer]
      rfl

variable (represents : deque.Represents type xs)

include represents

/-- A buffer of some capacity is not null. -/
theorem Represents.slots_setSlots (room : deque.capacity ≠ 0) (slots : Slots α) :
    (deque.setSlots slots).slots = slots := by
  have stored := represents.stored
  rw [Stored] at stored
  rw [Deque.slots, setSlots]
  cases buffer : deque.buffer with
  | null =>
    rw [buffer] at stored
    exact absurd stored room
  | inline => rfl
  | heap old => rfl

/-- Another sequence in the same buffer. -/
theorem Represents.replace {ys : List α} {slots : Slots α} (newStart newEnd : Nat)
    (bounded : newStart < deque.capacity) (spare : ys.length < deque.capacity)
    (ends : newEnd = slotAt deque.capacity newStart ys.length) (same : slots = place deque.capacity newStart ys) :
    ({ deque.setSlots slots with mStart := newStart, mEnd := newEnd } : Deque α inlineCapacity).Represents type ys where
  stored := by
    have stored := represents.stored
    rw [Stored] at stored ⊢
    rw [setSlots]
    cases buffer : deque.buffer <;> rw [buffer] at stored <;> exact stored
  notOne := represents.notOne
  bounded := by
    dsimp only [setSlots]
    omega
  spare := by
    dsimp only [setSlots]
    omega
  ends := ends
  slots := (represents.slots_setSlots (by omega) slots).trans same
  idle := by
    intro outside
    have idle := represents.idle
    rw [setSlots] at outside ⊢
    cases buffer : deque.buffer with
    | null => exact idle (by rw [buffer]; simp)
    | inline => simp [buffer] at outside
    | heap old => exact idle (by rw [buffer]; simp)

theorem Represents.isEmpty_iff : deque.isEmpty = true ↔ xs = [] := by
  have bounds := And.intro represents.bounded represents.spare
  rw [isEmpty, decide_eq_true_iff, represents.ends, ← List.length_eq_zero_iff, slotAt]
  split <;> omega

theorem Represents.size_eq : deque.size = xs.length := by
  have bounds := And.intro represents.bounded represents.spare
  rw [size, represents.ends, slotAt]
  split_ifs <;> omega

omit represents in
/-- Iteration reads as many slots as the size says. -/
theorem iterate_eq (bounded : deque.mStart ≤ deque.capacity - 1) (boundedEnd : deque.mEnd ≤ deque.capacity - 1) :
    deque.iterate = (List.range deque.size).map fun i => deque.slots (slotAt deque.capacity deque.mStart i) := by
  have loop : ∀ count rounds i, i + count = deque.size → count ≤ rounds →
      deque.iterateFrom rounds (slotAt deque.capacity deque.mStart i) =
        (List.range count).map fun j => deque.slots (slotAt deque.capacity deque.mStart (i + j)) := by
    intro count
    induction count with
    | zero =>
      intro rounds i length enough
      have atEnd : slotAt deque.capacity deque.mStart i = deque.mEnd := by
        simp only [size, slotAt] at length ⊢
        split_ifs at length ⊢ <;> omega
      cases rounds <;> simp [iterateFrom, atEnd]
    | succ count ih =>
      intro rounds i length enough
      obtain ⟨rounds, rfl⟩ : ∃ fewer, rounds = fewer + 1 := ⟨rounds - 1, by omega⟩
      have away : slotAt deque.capacity deque.mStart i ≠ deque.mEnd := by
        simp only [size, slotAt] at length ⊢
        split_ifs at length ⊢ <;> omega
      have inside : deque.size < deque.capacity := by
        simp only [size] at length ⊢
        split_ifs at length ⊢ <;> omega
      rw [iterateFrom, if_neg away, next_slotAt (by omega) (by omega), ih rounds (i + 1) (by omega) (by omega),
        List.range_succ_eq_map, List.map_cons, List.map_map]
      simp only [Function.comp_def, Nat.add_succ, Nat.add_zero, Nat.succ_add]
  have first : slotAt deque.capacity deque.mStart 0 = deque.mStart := by
    rw [slotAt]
    split <;> omega
  have inside : deque.size ≤ deque.capacity := by
    rw [size]
    split <;> omega
  have whole := loop deque.size deque.capacity 0 (Nat.zero_add _) inside
  simpa only [iterate, first, Nat.zero_add] using whole

theorem Represents.end_le : deque.mEnd ≤ deque.capacity - 1 := by
  have bounds := And.intro represents.bounded represents.spare
  rw [represents.ends, slotAt]
  split <;> omega

theorem Represents.iterate : deque.iterate = xs.map some := by
  have bounds := And.intro represents.bounded represents.spare
  rw [iterate_eq represents.bounded represents.end_le, represents.size_eq, represents.slots]
  refine List.ext_getElem (by simp) fun i inside _ => ?_
  have within : i < xs.length := by simpa using inside
  rw [List.getElem_map, List.getElem_range, place_slotAt (by omega) (by omega), List.getElem_map,
    List.getElem?_eq_getElem within]

/-- The allocator refuses what the deque asks for, or the outcome is good. -/
def OrRefused {β : Type} (type : ElementType) (deque : Deque α inlineCapacity) (outcome : Option β) (good : β → Prop) :
    Prop :=
  (outcome = none ∧ type.limit < deque.requested) ∨ ∃ result, outcome = some result ∧ good result

omit represents in
theorem OrRefused.map {β γ : Type} {outcome : Option β} {good : β → Prop} {goodToo : γ → Prop} {f : β → γ}
    (either : deque.OrRefused type outcome good) (keeps : ∀ result, good result → goodToo (f result)) :
    deque.OrRefused type (outcome.map f) goodToo := by
  rcases either with ⟨rfl, refused⟩ | ⟨result, rfl, holds⟩
  · exact .inl ⟨rfl, refused⟩
  · exact .inr ⟨f result, rfl, keeps result holds⟩

/-- A larger buffer has the sequence, and the old one is dead. -/
theorem Represents.relocate {newCapacity : Nat} (larger : deque.capacity < newCapacity) :
    ∃ newStart, deque.relocate newCapacity dead = (newStart, dead, place newCapacity newStart xs) ∧
      newStart < newCapacity ∧ deque.mEnd = slotAt newCapacity newStart xs.length := by
  have bounds := And.intro represents.bounded represents.spare
  have ends := represents.ends
  have endBound := represents.end_le
  rw [Deque.relocate]
  split
  · next straight =>
    have length : deque.mEnd = deque.mStart + xs.length := by
      rw [slotAt] at ends
      split at ends <;> omega
    refine ⟨deque.mStart, ?_, by omega, by rw [slotAt, if_pos (by omega), length]⟩
    rw [move_spec, represents.slots, length]
    congr 2 <;> funext p <;> simp only [place, dead, offset]
    · split_ifs <;> first | rfl | exact List.getElem?_eq_none (by omega)
    · split_ifs <;> first | rfl | omega | (congr 1; omega) | exact (List.getElem?_eq_none (by omega)).symm
  · next wrapped =>
    have length : deque.mEnd = deque.mStart + xs.length - deque.capacity ∧
        deque.capacity ≤ deque.mStart + xs.length := by
      rw [slotAt] at ends
      split at ends <;> omega
    refine ⟨newCapacity - (deque.capacity - deque.mStart), ?_, by omega, by rw [slotAt, if_neg (by omega)]; omega⟩
    simp only [move_spec, represents.slots, length.1]
    congr 2 <;> funext p <;> simp only [place, dead, offset]
    · split_ifs <;> first | rfl | omega | exact List.getElem?_eq_none (by omega)
    · split_ifs <;> first | rfl | omega | (congr 1; omega) | exact (List.getElem?_eq_none (by omega)).symm

/-- `expandCapacity` keeps the sequence and makes room, unless the allocator crashes. -/
theorem Represents.expandCapacity :
    deque.OrRefused type (deque.expandCapacity type) fun result =>
      result.Represents type xs ∧ deque.capacity < result.capacity ∧ 16 ≤ result.capacity := by
  have spare := represents.spare
  have stored := represents.stored
  have requested : deque.capacity < deque.requested ∧ 16 ≤ deque.requested := by
    rw [Deque.requested]
    omega
  rw [Deque.expandCapacity]
  split
  · next large =>
    cases allocated : type.allocateBuffer deque.requested with
    | none =>
      refine .inl ⟨rfl, ?_⟩
      rw [ElementType.allocateBuffer] at allocated
      split at allocated
      · next refused => exact refused
      · cases allocated
    | some newCapacity =>
      obtain ⟨enough, again⟩ := ElementType.allocateBuffer_spec allocated
      obtain ⟨newStart, moved, bounded, ends⟩ := represents.relocate (show deque.capacity < newCapacity by omega)
      have built : ∀ inlineBuffer : Slots α, inlineBuffer = dead →
          (⟨newStart, deque.mEnd, .heap (place newCapacity newStart xs), newCapacity, inlineBuffer⟩ :
            Deque α inlineCapacity).Represents type xs := by
        intro inlineBuffer idle
        exact ⟨⟨by dsimp only; omega, again⟩,
          by dsimp only; omega, by dsimp only; omega, by dsimp only; omega, ends, rfl, fun _ => idle⟩
      rw [Option.map_some, moved]
      cases buffer : deque.buffer with
      | inline => exact .inr ⟨_, rfl, built dead rfl, by dsimp only; omega, by dsimp only; omega⟩
      | null =>
        exact .inr ⟨_, rfl, built _ (represents.idle (by simp [buffer])), by dsimp only; omega, by dsimp only; omega⟩
      | heap old =>
        exact .inr ⟨_, rfl, built _ (represents.idle (by simp [buffer])), by dsimp only; omega, by dsimp only; omega⟩
  · next small =>
    -- Only a deque without a buffer comes back to its inline slots.
    rw [Stored] at stored
    have outside : deque.buffer ≠ .inline := by
      intro inside
      rw [inside] at stored
      dsimp only at stored
      omega
    obtain ⟨newStart, moved, bounded, ends⟩ := represents.relocate (show deque.capacity < inlineCapacity by omega)
    rw [represents.idle outside, moved]
    refine .inr
      ⟨_, rfl, ⟨⟨rfl,
        by omega⟩, by dsimp only; omega, by dsimp only; omega, by dsimp only; omega, ends, rfl, ?_⟩,
          by dsimp only; omega, by dsimp only; omega⟩
    exact fun absent => absurd rfl absent

/-- Two slots are left before an element comes. -/
theorem Represents.expandCapacityIfNeeded :
    deque.OrRefused type (deque.expandCapacityIfNeeded type) fun result =>
      result.Represents type xs ∧ xs.length + 1 < result.capacity := by
  have bounds := And.intro represents.bounded represents.spare
  have notOne := represents.notOne
  have ends := represents.ends
  have grown : deque.OrRefused type (deque.expandCapacity type) fun result =>
      result.Represents type xs ∧ xs.length + 1 < result.capacity :=
    represents.expandCapacity.imp_right fun ⟨result, expanded, holds, larger, least⟩ =>
      ⟨result, expanded, holds, by omega⟩
  have kept : xs.length + 1 < deque.capacity → deque.OrRefused type (some deque) fun result =>
      result.Represents type xs ∧ xs.length + 1 < result.capacity :=
    fun room => .inr ⟨deque, rfl, represents, room⟩
  rw [slotAt] at ends
  rw [Deque.expandCapacityIfNeeded]
  split_ifs at ends ⊢ <;> first | exact grown | exact kept (by omega)

theorem Represents.append (value : α) :
    deque.OrRefused type (deque.append type value) fun result => result.Represents type (xs ++ [value]) := by
  refine represents.expandCapacityIfNeeded.map fun grown ⟨holds, room⟩ => ?_
  have bounded := holds.bounded
  refine holds.replace grown.mStart (next grown.capacity grown.mEnd) (by omega) (by simpa using room) ?_ ?_
  · rw [holds.ends, next_slotAt (by omega) (by omega), List.length_append, List.length_singleton]
  · rw [holds.slots, holds.ends, place_concat (by omega) (by omega)]

theorem Represents.prepend (value : α) :
    deque.OrRefused type (deque.prepend type value) fun result => result.Represents type (value :: xs) := by
  refine represents.expandCapacityIfNeeded.map fun grown ⟨holds, room⟩ => ?_
  have bounded := holds.bounded
  have ends := holds.ends
  refine holds.replace (previous grown.capacity grown.mStart) grown.mEnd ?_ (by simpa using room) ?_ ?_
  · rw [previous]
    split <;> omega
  · simp only [slotAt, previous, List.length_cons] at ends ⊢
    split_ifs at ends ⊢ <;> omega
  · rw [holds.slots, place_previous (by omega) (by omega)]

omit represents in
theorem Represents.removeFirst (represents : deque.Represents type (x :: xs)) :
    deque.slots deque.mStart = some x ∧ deque.removeFirst.Represents type xs := by
  have bounded := represents.bounded
  have ends := represents.ends
  have room : xs.length + 1 ≤ deque.capacity - 1 := represents.spare
  have first : slotAt deque.capacity deque.mStart 0 = deque.mStart := if_pos (by omega)
  refine ⟨?_, represents.replace (next deque.capacity deque.mStart) deque.mEnd ?_ (by omega) ?_ ?_⟩
  · have value := @place_slotAt α deque.capacity deque.mStart 0 (x :: xs) (by omega) (by omega)
    rwa [first, ← represents.slots] at value
  · rw [next]
    split <;> omega
  · simp only [slotAt, next, List.length_cons] at ends ⊢
    split_ifs at ends ⊢ <;> omega
  · rw [represents.slots, place_next (by omega) (by omega)]

omit represents in
theorem Represents.removeLast (represents : deque.Represents type (xs ++ [x])) :
    deque.slots (previous deque.capacity deque.mEnd) = some x ∧ deque.removeLast.Represents type xs := by
  have bounded := represents.bounded
  have ends := represents.ends
  have room : xs.length + 1 ≤ deque.capacity - 1 := by simpa using represents.spare
  have final : previous deque.capacity deque.mEnd = slotAt deque.capacity deque.mStart xs.length := by
    simp only [slotAt, previous, List.length_append, List.length_singleton] at ends ⊢
    split_ifs at ends ⊢ <;> omega
  refine ⟨?_, represents.replace deque.mStart (previous deque.capacity deque.mEnd) (by omega) (by omega) final ?_⟩
  · rw [represents.slots, final, place_slotAt (by omega) (by omega), List.getElem?_concat_length]
  · rw [represents.slots, final, place_dropLast (by omega) (by omega)]

theorem Represents.remove {i : Nat} (within : i ≤ xs.length) :
    (deque.remove ((next deque.capacity)^[i] deque.mStart)).Represents type (xs.eraseIdx i) := by
  have bounded := represents.bounded
  have spare := represents.spare
  have ends := represents.ends
  have position : (next deque.capacity)^[i] deque.mStart = slotAt deque.capacity deque.mStart i := by
    rcases Nat.eq_zero_or_pos deque.capacity with none | some
    · obtain rfl : i = 0 := by omega
      rw [slotAt, if_neg (by omega)]
      exact (show deque.mStart = deque.mStart + 0 - deque.capacity by omega)
    · exact iterate_next (by omega) (by omega)
  rw [position, Deque.remove]
  split
  · next atEnd =>
    have last : i = xs.length := by
      simp only [slotAt] at atEnd ends
      split_ifs at atEnd ends <;> omega
    rw [List.eraseIdx_of_length_le (by omega)]
    exact represents
  · next notEnd =>
    have before : i < xs.length := by
      refine Nat.lt_of_le_of_ne within fun same => notEnd ?_
      rw [ends, same]
    have length := List.length_eraseIdx_of_lt before
    dsimp only
    split
    · next front =>
      have straight : deque.mStart + i < deque.capacity := by
        rw [slotAt] at front
        split at front <;> omega
      have advanced : (deque.mStart + 1) % deque.capacity = next deque.capacity deque.mStart := by
        rw [next]
        split
        · next final => rw [show deque.mStart + 1 = deque.capacity by omega, Nat.mod_self]
        · exact Nat.mod_eq_of_lt (by omega)
      refine represents.replace ((deque.mStart + 1) % deque.capacity) deque.mEnd
        (Nat.mod_lt _ (by omega)) (by omega) ?_ ?_
      · rw [advanced, length]
        simp only [slotAt, next] at ends ⊢
        split_ifs at ends ⊢ <;> omega
      · rw [advanced, ← place_eraseIdx_front (by omega) (by omega) straight before, moveOverlapping, if_neg (by omega),
          moveBackward_spec _ _ _ _ (by omega), slotAt, if_pos straight, represents.slots]
        funext p
        simp only [Function.update_apply]
        split_ifs <;> first | rfl | omega | (congr 1; omega)
    · next back =>
      have wrapped : deque.capacity ≤ deque.mStart + i := by
        rw [slotAt] at back
        split at back <;> omega
      rw [slotAt, if_neg (by omega)] at ends
      have lowered : (deque.mEnd - 1 + deque.capacity) % deque.capacity = deque.mEnd - 1 := by
        rw [Nat.add_mod_right]
        exact Nat.mod_eq_of_lt (by omega)
      refine represents.replace deque.mStart ((deque.mEnd - 1 + deque.capacity) % deque.capacity)
        (by omega) (by omega) ?_ ?_
      · rw [lowered, length, slotAt]
        split <;> omega
      · rw [← place_eraseIdx_back (by omega) (by omega) wrapped before, moveOverlapping, if_pos (by omega),
          moveForward_spec _ _ _ _ (by omega), slotAt, if_neg (by omega), represents.slots]
        funext p
        simp only [Function.update_apply]
        split_ifs <;> first | rfl | omega | (congr 1; omega)

theorem Represents.destroyAll : deque.destroyAll = dead := by
  have bounds := And.intro represents.bounded represents.spare
  have ends := represents.ends
  funext p
  rw [slotAt] at ends
  rw [Deque.destroyAll, represents.slots]
  simp only [place, offset, dead]
  split_ifs at ends ⊢ <;> first | rfl | exact List.getElem?_eq_none (by omega)

theorem Represents.clear : deque.clear.Represents type [] := by
  have stored := represents.stored
  have idle := represents.idle
  rw [Stored] at stored
  rw [Deque.clear]
  cases buffer : deque.buffer with
  | null =>
    rw [buffer] at stored
    refine ⟨stored, represents.notOne, Nat.zero_le _, Nat.zero_le _, ?_, place_nil.symm,
      fun _ => idle (by simp [buffer])⟩
    dsimp only
    rw [stored]
    rfl
  | inline =>
    rw [buffer] at stored
    refine ⟨stored, represents.notOne, Nat.zero_le _, Nat.zero_le _, ?_, ?_, fun outside => absurd rfl outside⟩
    · exact (if_pos (show 0 + 0 < deque.capacity by omega)).symm
    · rw [place_nil, ← represents.destroyAll]
      rfl
  | heap old =>
    exact ⟨rfl, Nat.zero_ne_one, Nat.le_refl 0, Nat.le_refl 0, rfl, place_nil.symm, fun _ => idle (by simp [buffer])⟩

end Deque

namespace DequeOperation

open Deque (Represents)

variable {α : Type} {inlineCapacity : Nat} {type : ElementType} {deque : Deque α inlineCapacity} {xs ys taken : List α}

/-- An operation does to the deque what it does to the sequence, unless the allocator crashes. -/
theorem step_spec (represents : deque.Represents type xs) (operation : DequeOperation α)
    (allowed : operation.onSequence xs = some (ys, taken)) :
    deque.OrRefused type (operation.step type deque) fun (result, given) =>
      given = taken.map some ∧ result.Represents type ys := by
  cases operation with
  | append value =>
    obtain ⟨rfl, rfl⟩ : xs ++ [value] = ys ∧ [] = taken := by simpa [onSequence] using allowed
    exact (represents.append value).map fun result holds => ⟨rfl, holds⟩
  | prepend value =>
    obtain ⟨rfl, rfl⟩ : value :: xs = ys ∧ [] = taken := by simpa [onSequence] using allowed
    exact (represents.prepend value).map fun result holds => ⟨rfl, holds⟩
  | takeFirst =>
    cases xs with
    | nil => simp [onSequence] at allowed
    | cons first rest =>
      obtain ⟨rfl, rfl⟩ : rest = ys ∧ [first] = taken := by simpa [onSequence] using allowed
      obtain ⟨value, holds⟩ := represents.removeFirst
      exact .inr ⟨_, rfl, by rw [Deque.takeFirst, value]; rfl, holds⟩
  | takeLast =>
    rcases List.eq_nil_or_concat xs with rfl | ⟨rest, last, rfl⟩
    · simp [onSequence] at allowed
    · rw [List.concat_eq_append] at represents allowed
      obtain ⟨rfl, rfl⟩ : rest = ys ∧ [last] = taken := by simpa [onSequence] using allowed
      obtain ⟨value, holds⟩ := represents.removeLast
      exact .inr ⟨_, rfl, by rw [Deque.takeLast, value]; rfl, holds⟩
  | remove increments =>
    rw [onSequence] at allowed
    split at allowed
    · next within =>
      obtain ⟨rfl, rfl⟩ : xs.eraseIdx increments = ys ∧ [] = taken := by simpa using allowed
      exact .inr ⟨_, rfl, rfl, represents.remove within⟩
    · cases allowed
  | clear =>
    obtain ⟨rfl, rfl⟩ : [] = ys ∧ [] = taken := by simpa [onSequence] using allowed
    exact .inr ⟨_, rfl, rfl, represents.clear⟩

theorem run_cons {later final : Deque α inlineCapacity} {given more : List (Option α)} {operation : DequeOperation α}
    {rest : List (DequeOperation α)} (stepped : operation.step type deque = some (later, given))
    (ran : run type later rest = some (final, more)) :
    run type deque (operation :: rest) = some (final, given ++ more) := by
  rw [run, stepped]
  simp [ran]

/-- A run crashes because the allocator refuses what some deque on the way asks for. -/
def RunRefused (type : ElementType) (deque : Deque α inlineCapacity) (operations : List (DequeOperation α)) : Prop :=
  run type deque operations = none ∧ ∃ before after reached seen, operations = before ++ after ∧
    run type deque before = some (reached, seen) ∧ type.limit < reached.requested

/-- Over a run, by induction on the operations that are left. -/
theorem run_spec (represents : deque.Represents type xs) (operations : List (DequeOperation α))
    (allowed : runOnSequence xs operations = some (ys, taken)) :
    RunRefused type deque operations ∨
      ∃ result, run type deque operations = some (result, taken.map some) ∧ result.Represents type ys := by
  induction operations generalizing deque xs taken with
  | nil =>
    obtain ⟨rfl, rfl⟩ : xs = ys ∧ [] = taken := by simpa [runOnSequence] using allowed
    exact .inr ⟨deque, rfl, represents⟩
  | cons operation rest ih =>
    obtain ⟨⟨middle, first⟩, once, more⟩ := Option.bind_eq_some_iff.mp allowed
    obtain ⟨⟨final, others⟩, remaining, pair⟩ := Option.map_eq_some_iff.mp more
    obtain ⟨rfl, rfl⟩ : final = ys ∧ first ++ others = taken := by simpa using pair
    rcases step_spec represents operation once with ⟨crashed, refused⟩ | ⟨⟨later, given⟩, stepped, rfl, holds⟩
    · exact .inl ⟨by rw [run, crashed]; rfl, [], operation :: rest, deque, [], rfl, rfl, refused⟩
    · rcases ih holds remaining with ⟨crashed, before, after, reached, seen, rfl, ran, refused⟩ | ⟨result, ran, held⟩
      · exact .inl
          ⟨by rw [run, stepped]; simp [crashed], operation :: before, after, reached, _, rfl, run_cons stepped ran,
            refused⟩
      · exact .inr ⟨result, by rw [run_cons stepped ran, List.map_append], held⟩

/-- A run that does not crash is the run of the sequence: iteration yields it, and a slot is left over in every buffer.
It crashes only where the allocator refuses a growth. -/
theorem run_refines (notOne : inlineCapacity ≠ 1) {operations : List (DequeOperation α)}
    (allowed : runOnSequence [] operations = some (xs, taken)) :
    (∀ result given, run type (Deque.empty : Deque α inlineCapacity) operations = some (result, given) →
      given = taken.map some ∧ result.iterate = xs.map some ∧ result.size = xs.length ∧
      (result.isEmpty = true ↔ xs = []) ∧ (result.capacity = 0 ∨ result.size < result.capacity)) ∧
    (run type (Deque.empty : Deque α inlineCapacity) operations = none →
      RunRefused type (Deque.empty : Deque α inlineCapacity) operations) := by
  rcases run_spec (Deque.represents_empty notOne) operations allowed with refused | ⟨result, ran, holds⟩
  · refine ⟨fun result given ran => ?_, fun _ => refused⟩
    rw [refused.1] at ran
    cases ran
  · rw [ran]
    refine ⟨?_, nofun⟩
    rintro _ _ ⟨rfl, rfl⟩
    have spare := holds.spare
    refine ⟨rfl, holds.iterate, holds.size_eq, holds.isEmpty_iff, ?_⟩
    rw [holds.size_eq]
    omega

end DequeOperation

/-- Objects of one byte, allocated as they are asked for. -/
def byteType (isPod : Bool) : ElementType where
  sizeOf := 1
  isPod := isPod
  fastMallocGoodSize bytes := bytes
  sizeOf_pos := Nat.one_pos
  le_goodSize _ := Nat.le_refl _
  goodSize_mono _ _ more := more
  goodSize_good _ := rfl
  goodSize_unsigned _ small := small

/-- A deque that leaves its two inline slots. -/
theorem run_refines_growth :
    ∃ result, DequeOperation.run (byteType true) (Deque.empty : Deque Nat 2)
        [.append 1, .prepend 0, .append 2, .remove 1, .takeLast] = some (result, [some 2]) ∧
        result.iterate = [some 0] := by
  have refines := (@DequeOperation.run_refines Nat 2 (byteType true) [0] [2] (by decide)
    [.append 1, .prepend 0, .append 2, .remove 1, .takeLast] rfl).1
  obtain ⟨⟨result, given⟩, ran⟩ : ∃ outcome, DequeOperation.run (byteType true) (Deque.empty : Deque Nat 2)
      [.append 1, .prepend 0, .append 2, .remove 1, .takeLast] = some outcome := Option.isSome_iff_exists.mp rfl
  obtain ⟨rfl, contents, -⟩ := refines result given ran
  exact ⟨result, ran, contents⟩

end WebNode.Wtf
