import Mathlib.Tactic.Common
import Mathlib.Algebra.Order.Ring.Int

/-!
# Alignment

Addresses are words of 64 bits. Clearing the low bits of an address rounds it down; adding them before
rounds it up, and around zero if the sum is no word.
-/

namespace WebNode.Lib

/-- `address & ~(alignment - 1)` -/
def alignDown (alignment address : Nat) : Nat := address &&& (2 ^ 64 - 1 - (alignment - 1))

theorem mask_eq {log : Nat} (logLe : log ≤ 64) : 2 ^ 64 - 1 - (2 ^ log - 1) = 2 ^ log * (2 ^ (64 - log) - 1) := by
  have split : 2 ^ 64 = 2 ^ log * 2 ^ (64 - log) := by
    rw [← Nat.pow_add, Nat.add_sub_cancel' logLe]
  have positive := Nat.two_pow_pos log
  rw [split, Nat.mul_sub, Nat.mul_one]
  omega

theorem alignDown_eq {log address : Nat} (logLe : log ≤ 64) (small : address < 2 ^ 64) :
    alignDown (2 ^ log) address = address / 2 ^ log * 2 ^ log := by
  rw [alignDown, mask_eq logLe, Nat.mul_comm (address / 2 ^ log)]
  refine Nat.eq_of_testBit_eq fun bit => ?_
  rw [Nat.testBit_and, Nat.testBit_two_pow_mul, Nat.testBit_two_pow_mul, Nat.testBit_two_pow_sub_one,
    Nat.testBit_div_two_pow]
  by_cases high : log ≤ bit
  · rw [Nat.sub_add_cancel high]
    by_cases inWord : bit < 64
    · have below : bit - log < 64 - log := by omega
      simp [high, below]
    · have clear : address.testBit bit = false :=
        Nat.testBit_lt_two_pow (Nat.lt_of_lt_of_le small (Nat.pow_le_pow_right (by decide) (Nat.le_of_not_lt inWord)))
      simp [clear]
  · simp [high]

/-- `(address + (alignment - 1)) & ~(alignment - 1)` -/
def alignUp (alignment address : Nat) : Nat := alignDown alignment ((address + (alignment - 1)) % 2 ^ 64)

theorem alignUp_mod {log : Nat} (logLe : log ≤ 64) (address : Nat) : alignUp (2 ^ log) address % 2 ^ log = 0 := by
  rw [alignUp, alignDown_eq logLe (Nat.mod_lt _ (by decide)), Nat.mul_mod_left]

theorem alignUp_of_fits {log address : Nat} (logLe : log ≤ 64) (fits : address + (2 ^ log - 1) < 2 ^ 64) :
    address ≤ alignUp (2 ^ log) address ∧ alignUp (2 ^ log) address < address + 2 ^ log := by
  have positive := Nat.two_pow_pos log
  rw [alignUp, Nat.mod_eq_of_lt fits, alignDown_eq logLe fits]
  have whole := Nat.div_add_mod' (address + (2 ^ log - 1)) (2 ^ log)
  have less := Nat.mod_lt (address + (2 ^ log - 1)) positive
  omega

theorem alignUp_of_wraps {log address : Nat} (logLe : log ≤ 64) (small : address < 2 ^ 64)
    (wraps : 2 ^ 64 ≤ address + (2 ^ log - 1)) :
    alignUp (2 ^ log) address = 0 := by
  have top : 2 ^ log ≤ 2 ^ 64 := Nat.pow_le_pow_right (by decide) logLe
  rw [alignUp, alignDown_eq logLe (Nat.mod_lt _ (by decide)), Nat.div_eq_of_lt, Nat.zero_mul]
  omega

end WebNode.Lib
