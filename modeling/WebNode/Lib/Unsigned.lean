import Mathlib.Algebra.Order.Ring.Int

/-!
# Differences of `unsigned`

A difference of 32-bit numbers wraps around below zero.
-/

namespace WebNode.Lib

def unsignedSub (first second : Nat) : Nat := (first + 2 ^ 32 - second) % 2 ^ 32

theorem unsignedSub_of_le {first second : Nat} (le : second ≤ first) (small : first < 2 ^ 32) :
    unsignedSub first second = first - second := by
  rw [unsignedSub]
  omega

end WebNode.Lib
