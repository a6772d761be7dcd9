import Mathlib.Data.List.Perm.Basic
import Mathlib.Tactic.Common

/-! Loops over a vector that drop entries on the way by moving the last entry into
their place. The vector is kept as the entries before the index of the loop and those
from it on. -/
namespace Sweep

variable {α σ : Type*}

/-- Drop the first entry; the last one takes its place. -/
def popHead : List α → List α
  | [] => []
  | _ :: rest =>
    match rest.getLast? with
    | none => []
    | some last => last :: rest.dropLast

theorem popHead_perm (entry : α) (rest : List α) : (popHead (entry :: rest)).Perm rest := by
  rcases List.eq_nil_or_concat rest with rfl | ⟨front, last, rfl⟩
  · exact .nil
  · simp only [popHead, List.concat_eq_append, List.getLast?_concat, List.dropLast_concat]
    exact (List.perm_append_singleton last front).symm

theorem length_popHead (entry : α) (rest : List α) : (popHead (entry :: rest)).length = rest.length :=
  (popHead_perm entry rest).length_eq

/-- Drop the entry at an index; the last one takes its place. -/
def popAt (vector : List α) (index : Nat) : List α := vector.take index ++ popHead (vector.drop index)

theorem popAt_perm {vector : List α} {index : Nat} {entry : α} (found : vector[index]? = some entry) :
    vector.Perm (entry :: popAt vector index) := by
  obtain ⟨inside, same⟩ := List.getElem?_eq_some_iff.mp found
  have split : vector.drop index = entry :: vector.drop (index + 1) := by
    rw [List.drop_eq_getElem_cons inside, same]
  have whole : vector = vector.take index ++ entry :: vector.drop (index + 1) := by
    rw [← split, List.take_append_drop]
  rw [popAt, split]
  nth_rewrite 1 [whole]
  exact List.perm_middle.trans (((popHead_perm entry _).symm.append_left _).cons _)

/-- Visit the entries one after the other. A visit gets the index of its entry and
says whether the entry stays. -/
def sweep (visit : σ → Nat → α → Option σ) (state : σ) (kept : List α) : List α → σ × List α
  | [] => (state, kept)
  | entry :: rest =>
    match visit state kept.length entry with
    | none => sweep visit state kept (popHead (entry :: rest))
    | some next => sweep visit next (kept ++ [entry]) rest
  termination_by queue => queue.length
  decreasing_by
    · rw [length_popHead]
      exact Nat.lt_succ_self _
    · exact Nat.lt_succ_self _

/-- What holds at the start of a sweep, whatever the order of the entries still to be
visited, and after each visit, holds at its end. -/
theorem sweep_induction (visit : σ → Nat → α → Option σ) {motive : σ → List α → List α → Prop}
    (reorder : ∀ {state kept queue other}, queue.Perm other → motive state kept queue →
      motive state kept other)
    (drop : ∀ {state kept entry rest}, visit state kept.length entry = none →
      motive state kept (entry :: rest) → motive state kept rest)
    (keep : ∀ {state kept entry rest next}, visit state kept.length entry = some next →
      motive state kept (entry :: rest) → motive next (kept ++ [entry]) rest)
    {state : σ} {kept queue : List α} (start : motive state kept queue) :
    motive (sweep visit state kept queue).1 (sweep visit state kept queue).2 [] := by
  fun_induction sweep visit state kept queue with
  | case1 state kept => exact start
  | case2 state kept entry rest dropped ih =>
    exact ih (reorder (popHead_perm entry rest).symm (drop dropped start))
  | case3 state kept entry rest next visited ih => exact ih (keep visited start)

end Sweep
