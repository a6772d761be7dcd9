import Mathlib.Data.List.Nodup
import Mathlib.Data.List.Perm.Basic
import Mathlib.Tactic.Common

/-! Lists indexed by a list without duplicates, when the family changes at one index
only: how counts and concatenations change. -/
namespace Pointwise

variable {α β : Type*}

/-- Away from one index two predicates agree, so their counts differ there only. -/
theorem countP_add_toNat {indices : List α} (distinct : indices.Nodup) {index : α}
    (member : index ∈ indices) {p q : α → Bool} (same : ∀ other ∈ indices, other ≠ index → q other = p other) :
    indices.countP q + (p index).toNat = indices.countP p + (q index).toNat := by
  induction indices with
  | nil => simp at member
  | cons head rest ih =>
    obtain ⟨absent, distinct⟩ := List.nodup_cons.mp distinct
    rw [List.countP_cons, List.countP_cons]
    rcases List.mem_cons.mp member with here | later
    · subst here
      have equal : rest.countP q = rest.countP p :=
        List.countP_congr fun other inside => by
          rw [same other (List.mem_cons_of_mem _ inside) fun atHead => absent (atHead ▸ inside)]
      rw [equal]
      cases p index <;> cases q index <;> simp
    · have different : head ≠ index := fun atHead => absent (atHead ▸ later)
      have tail := ih distinct later fun other inside => same other (List.mem_cons_of_mem _ inside)
      rw [same head (List.mem_cons_self ..) different]
      omega

/-- The part of a concatenation that one index contributes can be split off, and the
rest does not depend on it. -/
theorem exists_flatMap_perm [DecidableEq α] {indices : List α} (distinct : indices.Nodup) {index : α}
    (member : index ∈ indices) (family : α → List β) :
    ∃ rest, ∀ other : α → List β, (∀ i, i ≠ index → other i = family i) →
      (indices.flatMap other).Perm (other index ++ rest) := by
  refine ⟨(indices.erase index).flatMap family, fun other same => ?_⟩
  have split := (List.perm_cons_erase member).flatMap_right other
  rw [List.flatMap_cons] at split
  refine split.trans (List.Perm.append_left _ (List.Perm.of_eq ?_))
  apply List.flatMap_congr
  intro i inside
  exact same i (distinct.mem_erase_iff.mp inside).1

end Pointwise
