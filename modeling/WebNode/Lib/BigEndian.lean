import Mathlib.Data.List.Induction
import Mathlib.Tactic.Common
import Mathlib.Algebra.Order.Ring.Int

/-! Numbers in the network byte order: the bytes of a number of a fixed width, and the
number that bytes spell. -/
namespace WebNode.BigEndian

/-- The number that the bytes spell, shifted in one byte at a time. -/
def value (bytes : List UInt8) : Nat :=
  bytes.foldl (fun number byte => number <<< 8 ||| byte.toNat) 0

/-- The given number of bytes, filled from the last one. -/
def bytes : Nat → Nat → List UInt8
  | 0, _ => []
  | width + 1, remaining => bytes width (remaining >>> 8) ++ [UInt8.ofNat (remaining &&& 0xFF)]

theorem shift_or (number : Nat) (byte : UInt8) : number <<< 8 ||| byte.toNat = number * 256 + byte.toNat := by
  have small : byte.toNat < 2 ^ 8 := byte.toNat_lt
  rw [← Nat.shiftLeft_add_eq_or_of_lt small, Nat.shiftLeft_eq]

@[simp]
theorem value_concat (front : List UInt8) (byte : UInt8) :
    value (front ++ [byte]) = value front * 256 + byte.toNat := by
  rw [value, List.foldl_append, List.foldl_cons, List.foldl_nil, shift_or, value]

@[simp]
theorem bytes_length (width number : Nat) : (bytes width number).length = width := by
  induction width generalizing number with
  | zero => rfl
  | succ width ih => simp [bytes, ih]

theorem value_lt (list : List UInt8) : value list < 256 ^ list.length := by
  induction list using List.reverseRecOn with
  | nil => simp [value]
  | append_singleton front byte ih =>
    have small : byte.toNat < 256 := byte.toNat_lt
    rw [value_concat, List.length_append, List.length_singleton, Nat.pow_succ]
    omega

theorem value_bytes {width number : Nat} (fits : number < 256 ^ width) : value (bytes width number) = number := by
  induction width generalizing number with
  | zero =>
    obtain rfl : number = 0 := by simpa using fits
    rfl
  | succ width ih =>
    have shifted : number >>> 8 = number / 256 := Nat.shiftRight_eq_div_pow number 8
    have low : number &&& 0xFF = number % 256 := Nat.and_two_pow_sub_one_eq_mod number 8
    have high : number / 256 < 256 ^ width := by
      rw [Nat.pow_succ] at fits
      omega
    rw [bytes, value_concat, shifted, low, ih high, UInt8.toNat_ofNat']
    omega

theorem bytes_value (list : List UInt8) : bytes list.length (value list) = list := by
  induction list using List.reverseRecOn with
  | nil => rfl
  | append_singleton front byte ih =>
    have small : byte.toNat < 256 := byte.toNat_lt
    have shifted : (value front * 256 + byte.toNat) >>> 8 = value front := by
      rw [Nat.shiftRight_eq_div_pow]
      omega
    have low : (value front * 256 + byte.toNat) &&& 0xFF = byte.toNat := by
      have mask := Nat.and_two_pow_sub_one_eq_mod (value front * 256 + byte.toNat) 8
      rw [show (0xFF : Nat) = 2 ^ 8 - 1 from rfl, mask]
      omega
    rw [List.length_append, List.length_singleton, bytes, value_concat, shifted, low, ih, UInt8.ofNat_toNat]

end WebNode.BigEndian
