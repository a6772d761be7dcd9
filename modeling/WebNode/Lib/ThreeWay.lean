import Mathlib.Order.Basic
import Mathlib.Algebra.Order.Ring.Int

/-!
# Three-way comparisons

Comparisons that return an integer, and their lexicographic extension to lists.
-/

namespace WebNode.Lib

variable {α : Type}

/-- What a comparison is to do at its first argument. -/
structure ThreeWay (compare : α → α → Int) (x : α) : Prop where
  swap : ∀ y, compare y x = -compare x y
  zero : ∀ y, compare x y = 0 ↔ x = y
  trans : ∀ y z, compare x y ≤ 0 → compare y z ≤ 0 → compare x z ≤ 0

/-- The three-way comparison of a linear order. -/
def threeWay [LinearOrder α] (x y : α) : Int := if x < y then -1 else if y < x then 1 else 0

theorem threeWay_lawful [LinearOrder α] (x : α) : ThreeWay threeWay x where
  swap y := by
    unfold threeWay
    rcases lt_trichotomy x y with less | rfl | greater
    · simp [less, less.asymm]
    · simp
    · simp [greater, greater.asymm]
  zero y := by
    unfold threeWay
    rcases lt_trichotomy x y with less | rfl | greater
    · simp [less, less.ne]
    · simp
    · simp [greater, greater.asymm, greater.ne']
  trans y z := by
    have nonpos : ∀ a b : α, threeWay a b ≤ 0 ↔ a ≤ b := by
      intro a b
      unfold threeWay
      rcases lt_trichotomy a b with less | rfl | greater
      · simp [less, less.le]
      · simp
      · simp [greater, greater.asymm, greater.not_ge]
    rw [nonpos, nonpos, nonpos]
    exact le_trans

/-- The first pair of elements that differ decides, and then the shorter list is less. -/
def lexicographic (compare : α → α → Int) : List α → List α → Int
  | [], [] => 0
  | [], _ :: _ => -1
  | _ :: _, [] => 1
  | x :: xs, y :: ys => if compare x y ≠ 0 then compare x y else lexicographic compare xs ys

theorem lexicographic_lawful {compare : α → α → Int} {xs : List α} (lawful : ∀ x ∈ xs, ThreeWay compare x) :
    ThreeWay (lexicographic compare) xs := by
  induction xs with
  | nil =>
    refine ⟨fun ys => ?_, fun ys => ?_, fun ys zs => ?_⟩
    · cases ys <;> simp [lexicographic]
    · cases ys <;> simp [lexicographic]
    · cases zs <;> simp [lexicographic]
  | cons x xs ih =>
    have first := lawful x List.mem_cons_self
    have rest := ih fun element member => lawful element (List.mem_cons_of_mem x member)
    refine ⟨fun ys => ?_, fun ys => ?_, fun ys zs => ?_⟩
    · cases ys with
      | nil => rfl
      | cons y ys =>
        simp only [lexicographic, first.swap y, rest.swap ys, ne_eq, Int.neg_eq_zero]
        split <;> rfl
    · cases ys with
      | nil => simp [lexicographic]
      | cons y ys =>
        have head := first.zero y
        have tail := rest.zero ys
        simp only [lexicographic, ne_eq, ite_not, List.cons.injEq]
        split
        · next equal => rw [tail, and_iff_right (head.mp equal)]
        · next differ => exact iff_of_false differ fun both => differ (head.mpr both.1)
    · cases ys with
      | nil => simp [lexicographic]
      | cons y ys =>
        cases zs with
        | nil => simp [lexicographic]
        | cons z zs =>
          have tail := rest.trans ys zs
          simp only [lexicographic, ne_eq, ite_not]
          -- The heads: an equal pair is substituted, and a strict descent stays strict.
          by_cases firstEqual : compare x y = 0
          · obtain rfl := (first.zero y).mp firstEqual
            rw [if_pos firstEqual]
            split
            · exact tail
            · exact fun _ second => second
          · rw [if_neg firstEqual]
            intro descends second
            have nonpos : compare y z ≤ 0 := by
              split at second
              · next equal => exact Int.le_of_eq equal
              · exact second
            have strict : compare x z ≠ 0 := by
              intro equal
              obtain rfl := (first.zero z).mp equal
              have := first.swap y
              omega
            rw [if_neg strict]
            exact first.trans y z descends nonpos

/-- A loop that returns the first result that is not zero, and compares the lengths if there is none. -/
theorem lexicographic_of_loop {β : Type} {compare : α → α → Int} (compareElement : β → β → Int)
    (loop : List β → List β → Option Int) (f : β → α) (nil : ∀ ys, loop [] ys = none)
    (nilRight : ∀ xs, loop xs [] = none)
    (cons : ∀ x xs y ys, loop (x :: xs) (y :: ys) =
      if compareElement x y ≠ 0 then some (compareElement x y) else loop xs ys)
    {xs ys : List β} (agrees : ∀ x ∈ xs, ∀ y ∈ ys, compareElement x y = compare (f x) (f y)) :
    (match loop xs ys with
      | some result => result
      | none => if xs.length < ys.length then -1 else if xs.length > ys.length then 1 else 0) =
      lexicographic compare (xs.map f) (ys.map f) := by
  induction xs generalizing ys with
  | nil =>
    rw [nil]
    cases ys <;> simp [lexicographic]
  | cons x xs ih =>
    cases ys with
    | nil =>
      rw [nilRight]
      simp [lexicographic]
    | cons y ys =>
      have head := agrees x List.mem_cons_self y List.mem_cons_self
      have tail := @ih ys fun x' member y' memberToo =>
        agrees x' (List.mem_cons_of_mem x member) y' (List.mem_cons_of_mem y memberToo)
      rw [cons, List.map_cons, List.map_cons, lexicographic, head, ← tail]
      by_cases differ : compare (f x) (f y) ≠ 0
      · rw [if_pos differ, if_pos differ]
      · rw [if_neg differ, if_neg differ]
        simp only [List.length_cons, Nat.add_lt_add_iff_right, gt_iff_lt]

end WebNode.Lib
