import Mathlib.Logic.Function.Basic
import Mathlib.Logic.Function.Iterate
import Mathlib.Tactic.Common

/-!
# Sequences in rings of slots

A sequence stands in a ring from a slot on,
    and every other slot is dead. What the ring looks like after an element comes
or goes at either end, or goes from the middle.
-/

namespace WebNode.Lib.Ring

open Function (update)

variable {α : Type} {capacity start p i : Nat} {x : α} {xs : List α}

/-- The contents of a buffer. A slot without an object is dead. -/
abbrev Slots (α : Type) := Nat → Option α

def dead : Slots α := fun _ => none

def next (capacity index : Nat) : Nat := if index = capacity - 1 then 0 else index + 1

def previous (capacity index : Nat) : Nat := if index = 0 then capacity - 1 else index - 1

/-- The slot a number of places behind a slot. -/
def slotAt (capacity start i : Nat) : Nat := if start + i < capacity then start + i else start + i - capacity

/-- How far a slot is behind another. -/
def offset (capacity start p : Nat) : Nat := if start ≤ p then p - start else p + capacity - start

/-- The ring that has a sequence from a slot on, and nothing else. -/
def place (capacity start : Nat) (xs : List α) : Slots α :=
  fun p => if p < capacity then xs[offset capacity start p]? else none

theorem place_nil : place capacity start ([] : List α) = dead := by
  funext p
  simp [place, dead]

variable (bounded : start < capacity)

include bounded

theorem slotAt_lt (inside : i < capacity) : slotAt capacity start i < capacity := by
  rw [slotAt]
  split <;> omega

theorem offset_slotAt (inside : i < capacity) :
    offset capacity start (slotAt capacity start i) = i := by
  simp only [offset, slotAt]
  split_ifs <;> omega

theorem slotAt_offset (inside : p < capacity) :
    slotAt capacity start (offset capacity start p) = p := by
  simp only [offset, slotAt]
  split_ifs <;> omega

theorem offset_eq_iff (inside : p < capacity) (within : i < capacity) :
    offset capacity start p = i ↔ p = slotAt capacity start i := by
  refine ⟨fun same => ?_, fun same => same ▸ offset_slotAt bounded within⟩
  rw [← same, slotAt_offset bounded inside]

theorem place_slotAt (inside : i < capacity) :
    place capacity start xs (slotAt capacity start i) = xs[i]? := by
  rw [place, if_pos (slotAt_lt bounded inside), offset_slotAt bounded inside]

theorem next_slotAt (inside : i < capacity) :
    next capacity (slotAt capacity start i) = slotAt capacity start (i + 1) := by
  simp only [next, slotAt]
  split_ifs <;> omega

theorem iterate_next (inside : i < capacity) :
    (next capacity)^[i] start = slotAt capacity start i := by
  induction i with
  | zero => simp [slotAt, bounded]
  | succ i ih => rw [Function.iterate_succ_apply', ih (by omega), next_slotAt bounded (by omega)]

/-- One slot more is alive. -/
theorem place_concat (room : xs.length < capacity) :
    update (place capacity start xs) (slotAt capacity start xs.length) (some x) = place capacity start (xs ++ [x]) := by
  funext p
  by_cases inside : p < capacity
  · have here := offset_eq_iff bounded inside room
    simp only [Function.update_apply, place, inside, if_true, ← here, List.getElem?_append]
    rcases Nat.lt_trichotomy (offset capacity start p) xs.length with less | same | more
    · rw [if_neg (by omega), if_pos less]
    · simp [same]
    · rw [if_neg (by omega), if_neg (by omega), List.getElem?_eq_none (by omega),
        List.getElem?_eq_none (by simp; omega)]
  · have away : p ≠ slotAt capacity start xs.length := fun same => inside (same ▸ slotAt_lt bounded room)
    simp [place, inside, away]

/-- The same at the other end. -/
theorem place_previous (room : xs.length < capacity) :
    update (place capacity start xs) (previous capacity start) (some x) = place capacity (previous capacity start)
    (x :: xs) := by
  funext p
  have front : previous capacity start < capacity := by
    rw [previous]
    split <;> omega
  by_cases inside : p < capacity
  · simp only [Function.update_apply, place, inside, if_true]
    split
    · next here => simp [here, offset]
    · next away =>
      have behind : offset capacity (previous capacity start) p = offset capacity start p + 1 := by
        simp only [offset, previous] at away ⊢
        split_ifs at away ⊢ <;> omega
      rw [behind, List.getElem?_cons_succ]
  · have away : p ≠ previous capacity start := fun same => inside (same ▸ front)
    simp [place, inside, away]

/-- The first slot dies. -/
theorem place_next (room : xs.length + 1 < capacity) :
    update (place capacity start (x :: xs)) start none = place capacity (next capacity start) xs := by
  funext p
  by_cases inside : p < capacity
  · simp only [Function.update_apply, place, inside, if_true]
    split
    · next here =>
      refine (List.getElem?_eq_none ?_).symm
      simp only [offset, next, here]
      split_ifs <;> omega
    · next away =>
      have behind : offset capacity start p = offset capacity (next capacity start) p + 1 := by
        simp only [offset, next]
        split_ifs <;> omega
      rw [behind, List.getElem?_cons_succ]
  · have away : p ≠ start := by omega
    simp [place, inside, away]

/-- The last slot dies. -/
theorem place_dropLast (room : xs.length < capacity) :
    update (place capacity start (xs ++ [x])) (slotAt capacity start xs.length) none = place capacity start xs := by
  rw [← place_concat bounded room, Function.update_idem]
  refine Function.update_eq_self_iff.mpr ?_
  rw [place_slotAt bounded room, List.getElem?_eq_none (Nat.le_refl _)]

/-- An element goes, and the elements in front of it move up by a slot. -/
theorem place_eraseIdx_front (room : xs.length < capacity) (inside : start + i < capacity)
    (within : i < xs.length) :
    (fun p => if start < p ∧ p ≤ start + i then place capacity start xs (p - 1)
      else if p = start then none else place capacity start xs p) =
      place capacity (next capacity start) (xs.eraseIdx i) := by
  funext p
  by_cases bound : p < capacity
  · simp only [place, bound, if_true, List.getElem?_eraseIdx, offset, next]
    split_ifs
    all_goals first
      | omega
      | (congr 1; omega)
      | exact (List.getElem?_eq_none (by omega)).symm
  · rw [if_neg (by omega), if_neg (by omega), place, place, if_neg bound, if_neg bound]

/-- An element goes, and the elements behind it move down by a slot. -/
theorem place_eraseIdx_back (room : xs.length < capacity) (wrapped : capacity ≤ start + i)
    (within : i < xs.length) :
    (fun p => if start + i - capacity ≤ p ∧ p < start + xs.length - capacity - 1 then place capacity start xs (p + 1)
      else if p = start + xs.length - capacity - 1 then none else place capacity start xs p) =
      place capacity start (xs.eraseIdx i) := by
  funext p
  by_cases bound : p < capacity
  · simp only [place, bound, if_true, List.getElem?_eraseIdx, offset]
    split_ifs
    all_goals first
      | omega
      | rfl
      | (congr 1; omega)
      | exact (List.getElem?_eq_none (by omega)).symm
      | (rw [List.getElem?_eq_none (by omega), List.getElem?_eq_none (by omega)])
  · rw [if_neg (by omega), if_neg (by omega), place, place, if_neg bound, if_neg bound]

end WebNode.Lib.Ring
