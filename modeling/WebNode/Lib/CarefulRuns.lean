import Mathlib.Tactic.ByContra

/-!
# Runs that meet a condition

A machine with steps that may fail is compared with an abstract one, after every step of a run. If
the steps that meet a condition keep an invariant, and the others show, then a run is right exactly
if every step of it meets the condition.
-/

namespace WebNode.Lib

/-- A machine, what it stands for, and the condition on its steps. -/
structure Comparison (σ α ω : Type) where
  step : σ → ω → Option σ
  specify : α → ω → α
  /-- What can be observed of the state agrees with the abstract state. -/
  right : σ → α → Prop
  meets : σ → ω → Prop
  /-- The operations that are considered. -/
  allowed : α → ω → Prop

namespace Comparison

variable {σ α ω : Type} (comparison : Comparison σ α ω)

def Allowed : α → List ω → Prop
  | _, [] => True
  | abstract, operation :: rest => comparison.allowed abstract operation ∧
    Allowed (comparison.specify abstract operation) rest

/-- Every step returns, and every state on the way is right. -/
def Follows : σ → α → List ω → Prop
  | state, abstract, [] => comparison.right state abstract
  | state, abstract, operation :: rest => comparison.right state abstract ∧
    ∃ later, comparison.step state operation = some later ∧ Follows later (comparison.specify abstract operation) rest

/-- Every step of the run meets the condition. -/
def Careful : σ → List ω → Prop
  | _, [] => True
  | state, operation :: rest => comparison.meets state operation ∧
    ∀ later, comparison.step state operation = some later → Careful later rest

/-- The condition keeps the invariant, which is right. -/
structure Sound (invariant : σ → α → Prop) : Prop where
  right : ∀ state abstract, invariant state abstract → comparison.right state abstract
  keeps : ∀ state abstract operation, invariant state abstract → comparison.allowed abstract operation →
    comparison.meets state operation →
    ∃ later, comparison.step state operation = some later ∧ invariant later (comparison.specify abstract operation)

variable {comparison} {invariant : σ → α → Prop}

theorem Sound.follows (sound : comparison.Sound invariant) {state : σ} {abstract : α} {operations : List ω}
    (holds : invariant state abstract) (allowed : comparison.Allowed abstract operations)
    (careful : comparison.Careful state operations) : comparison.Follows state abstract operations := by
  induction operations generalizing state abstract with
  | nil => exact sound.right state abstract holds
  | cons operation rest ih =>
    obtain ⟨later, stepped, kept⟩ := sound.keeps state abstract operation holds allowed.1 careful.1
    exact ⟨sound.right state abstract holds, later, stepped, ih kept allowed.2 (careful.2 later stepped)⟩

theorem Follows.right {state : σ} {abstract : α} {operations : List ω}
    (follows : comparison.Follows state abstract operations) : comparison.right state abstract := by
  cases operations with
  | nil => exact follows
  | cons operation rest => exact follows.1

/-- A condition that shows whenever it is not met is necessary. -/
theorem Sound.follows_iff (sound : comparison.Sound invariant)
    (shows : ∀ state abstract operation later, invariant state abstract → comparison.allowed abstract operation →
      ¬comparison.meets state operation → comparison.step state operation = some later →
      ¬comparison.right later (comparison.specify abstract operation))
    {state : σ} {abstract : α} {operations : List ω} (holds : invariant state abstract)
    (allowed : comparison.Allowed abstract operations) :
    comparison.Follows state abstract operations ↔ comparison.Careful state operations := by
  refine ⟨fun follows => ?_, sound.follows holds allowed⟩
  induction operations generalizing state abstract with
  | nil => trivial
  | cons operation rest ih =>
    obtain ⟨_, later, stepped, follows⟩ := follows
    have meets : comparison.meets state operation := by
      by_contra fails
      exact shows state abstract operation later holds allowed.1 fails stepped follows.right
    refine ⟨meets, fun other same => ?_⟩
    obtain rfl := Option.some.inj (stepped.symm.trans same)
    obtain ⟨other, same, kept⟩ := sound.keeps state abstract operation holds allowed.1 meets
    obtain rfl := Option.some.inj (stepped.symm.trans same)
    exact ih kept allowed.2 follows

end Comparison

end WebNode.Lib
