import Mathlib.Data.List.Basic
import Mathlib.Order.Basic
import Mathlib.Tactic.Common
import Mathlib.Algebra.Order.Ring.Int

/-! Half-open coverings of a linear order by their boundaries. A list of
boundaries covers the points that have an odd number of boundaries at or below
them; on a strictly increasing list these are the intervals `[b₀, b₁)`,
`[b₂, b₃)` and so on. -/
namespace Boundary

variable {α : Type*} [LinearOrder α]

/-- Whether a point has an odd number of boundaries at or below it. -/
def inside : List α → α → Bool
  | [], _ => false
  | first :: rest, point => xor (decide (first ≤ point)) (inside rest point)

@[simp] theorem inside_nil (point : α) : inside [] point = false := rfl

theorem inside_cons (first : α) (rest : List α) (point : α) :
    inside (first :: rest) point = xor (decide (first ≤ point)) (inside rest point) := rfl

/-- No boundary is at or below a point that precedes all of them. -/
theorem inside_eq_false {bounds : List α} {point : α} (before : ∀ bound ∈ bounds, point < bound) :
    inside bounds point = false := by
  induction bounds with
  | nil => rfl
  | cons first rest ih =>
    have later := ih (fun bound member => before bound (by simp [member]))
    have outside : ¬ first ≤ point := not_le.mpr (before first (by simp))
    simp [inside_cons, outside, later]

/-- The first boundary of an increasing list is covered. -/
theorem inside_head {first : α} {rest : List α}
    (increasing : (first :: rest).Pairwise (· < ·)) : inside (first :: rest) first = true := by
  have later : inside rest first = false :=
    inside_eq_false fun _ member => List.rel_of_pairwise_cons increasing member
  simp [inside_cons, later]

/-- Increasing bounds are determined by what is inside them. -/
theorem inside_injective {bounds others : List α} (increasing : bounds.Pairwise (· < ·))
    (otherIncreasing : others.Pairwise (· < ·)) (same : ∀ point, inside bounds point = inside others point) :
    bounds = others := by
  induction bounds generalizing others with
  | nil =>
    cases others with
    | nil => rfl
    | cons first rest =>
      have head := same first
      rw [inside_head otherIncreasing] at head
      cases head
  | cons first rest ih =>
    cases others with
    | nil =>
      have head := same first
      rw [inside_head increasing] at head
      cases head
    | cons other remaining =>
      obtain ⟨above, tail⟩ := List.pairwise_cons.mp increasing
      obtain ⟨otherAbove, otherTail⟩ := List.pairwise_cons.mp otherIncreasing
      have first_le : first ≤ other := by
        by_contra after
        have head := same other
        rw [inside_head otherIncreasing, inside_eq_false] at head
        · cases head
        · intro bound member
          rcases List.mem_cons.mp member with rfl | later
          · exact not_le.mp after
          · exact (not_le.mp after).trans (above bound later)
      have other_le : other ≤ first := by
        by_contra before
        have head := same first
        rw [inside_head increasing, inside_eq_false] at head
        · cases head
        · intro bound member
          rcases List.mem_cons.mp member with rfl | later
          · exact not_le.mp before
          · exact (not_le.mp before).trans (otherAbove bound later)
      obtain rfl := le_antisymm first_le other_le
      rw [ih tail otherTail fun point => ?_]
      have agree := same point
      rw [inside_cons, inside_cons] at agree
      exact Bool.xor_right_inj.mp agree

/-- A strictly increasing list of boundaries with two ends for every interval. -/
structure Covering (bounds : List α) : Prop where
  increasing : bounds.Pairwise (· < ·)
  even : bounds.length % 2 = 0

theorem Covering.nil : Covering ([] : List α) := ⟨List.Pairwise.nil, rfl⟩

theorem Covering.ordered {first second : α} {rest : List α} (covering : Covering (first :: second :: rest)) :
    first < second ∧ ∀ bound ∈ rest, second < bound := by
  obtain ⟨belowFirst, tail⟩ := List.pairwise_cons.mp covering.increasing
  exact ⟨belowFirst second (by simp), (List.pairwise_cons.mp tail).1⟩

theorem Covering.inside_rest {first second point : α} {rest : List α} (covering : Covering (first :: second :: rest))
    (before : point ≤ second) : inside rest point = false :=
  inside_eq_false fun bound member => before.trans_lt (covering.ordered.2 bound member)

/-- Before the end of the first interval only its start counts. -/
theorem Covering.inside_before {first second point : α} {rest : List α} (covering : Covering (first :: second :: rest))
    (before : point < second) : inside (first :: second :: rest) point = decide (first ≤ point) := by
  simp [inside_cons, not_le.mpr before, covering.inside_rest before.le]

theorem Covering.inside_after {first second point : α} {rest : List α} (covering : Covering (first :: second :: rest))
    (after : second ≤ point) : inside (first :: second :: rest) point = inside rest point := by
  simp [inside_cons, after, covering.ordered.1.le.trans after]

/-- Membership by intervals: the first one, or the covering of the others. -/
theorem Covering.inside_pair {first second : α} {rest : List α}
    (covering : Covering (first :: second :: rest)) (point : α) :
    inside (first :: second :: rest) point = true ↔
      first ≤ point ∧ point < second ∨ inside rest point = true := by
  by_cases after : second ≤ point
  · simp [covering.inside_after after, not_lt.mpr after]
  · have before := not_le.mp after
    simp [covering.inside_before before, covering.inside_rest before.le, before]

end Boundary
