import Mathlib.Data.ZMod.Basic

/-!
# Probing

A table is searched along a walk of its positions. A walk by a step that is coprime to the size
visits every position, and what was put on a walk before the first empty position is found.
-/

namespace WebNode.Lib.Probing

/-- The positions of a walk by a fixed step around a table. -/
def walk (size start step count : Nat) : Nat := (start + count * step) % size

theorem walk_succ (size start step count : Nat) :
    walk size start step (count + 1) = (walk size start step count + step) % size := by
  rw [walk, walk, Nat.mod_add_mod, Nat.succ_mul, Nat.add_assoc]

/-- A walk by a step that is coprime to the size visits every position. -/
theorem exists_walk_eq {size target : Nat} (start : Nat) {step : Nat} (coprime : step.Coprime size)
    (inside : target < size) :
    ∃ count < size, walk size start step count = target := by
  have : NeZero size := ⟨by omega⟩
  obtain ⟨count, countDef⟩ : ∃ count : ZMod size, count = ((target : ZMod size) - start) * (step : ZMod size)⁻¹ :=
    ⟨_, rfl⟩
  refine ⟨count.val, count.val_lt, ?_⟩
  have there : ((start + count.val * step : Nat) : ZMod size) = (target : ZMod size) := by
    push_cast
    rw [ZMod.natCast_zmod_val, countDef, mul_assoc, mul_comm _ (step : ZMod size), ZMod.coe_mul_inv_eq_one _ coprime,
      mul_one]
    exact add_sub_cancel ..
  rw [walk, ← Nat.mod_eq_of_lt inside]
  exact (ZMod.natCast_eq_natCast_iff' ..).mp there

/-- The position is on the walk, and no earlier position of the walk is empty. -/
def Reached (path : Nat → Nat) (empty : Nat → Prop) (target : Nat) : Prop :=
  ∃ count, path count = target ∧ ∀ earlier < count, ¬empty (path earlier)

variable {path : Nat → Nat} {empty empty' : Nat → Prop} {target : Nat}

theorem Reached.mono (reached : Reached path empty target) (fewer : ∀ position, empty' position → empty position) :
    Reached path empty' target := by
  obtain ⟨count, here, earlier⟩ := reached
  exact ⟨count, here, fun before less isEmpty => earlier before less (fewer _ isEmpty)⟩

/-- What was reached is met before the walk meets an empty position. -/
theorem Reached.before_empty (reached : Reached path empty target) (full : ¬empty target) {stop : Nat}
    (stops : empty (path stop)) : ∃ count < stop, path count = target := by
  obtain ⟨count, rfl, earlier⟩ := reached
  refine ⟨count, ?_, rfl⟩
  rcases Nat.lt_trichotomy count stop with less | rfl | greater
  · exact less
  · exact absurd stops full
  · exact absurd stops (earlier stop greater)

end WebNode.Lib.Probing
