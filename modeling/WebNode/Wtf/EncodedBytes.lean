import WebNode.Lib.UnicodeText
import WebNode.Wtf.Text
import Mathlib.Data.Nat.Bitwise

/-! The bytes that the encoder writes for a character. -/
namespace WebNode.Wtf

open WebNode.Lib

theorem tailByte_eq (ch : Nat) : (ch ||| 0x80) &&& 0xBF = 0x80 + ch % 64 := by
  have bytes : ∀ low < 2 ^ 8, (low ||| 0x80) &&& 0xBF = 0x80 + low % 64 := by decide +kernel
  have bounded : (ch ||| 0x80) &&& 0xBF < 2 ^ 8 :=
    lt_of_le_of_lt Nat.and_le_right (by decide)
  calc (ch ||| 0x80) &&& 0xBF = ((ch ||| 0x80) &&& 0xBF) % 2 ^ 8 := (Nat.mod_eq_of_lt bounded).symm
    _ = (ch % 2 ^ 8 ||| 0x80) &&& 0xBF := by rw [Nat.and_mod_two_pow, Nat.or_mod_two_pow]
    _ = 0x80 + ch % 64 := by
      rw [bytes _ (Nat.mod_lt _ (by decide))]
      omega

/-- The mark of a lead byte takes bits that the character leaves free. -/
theorem leadByte_eq {high : Nat} : (high < 32 → high ||| 0xC0 = 0xC0 + high) ∧
    (high < 16 → high ||| 0xE0 = 0xE0 + high) ∧ (high < 8 → high ||| 0xF0 = 0xF0 + high) := by
  refine ⟨?_, ?_, ?_⟩ <;> revert high <;> decide

section Character

variable (ch : Nat)

theorem encodeUTF8_ascii (small : ch < 0x80) : encodeUTF8 ch = [UInt8.ofNat ch] := by
  simp [encodeUTF8, small, putBytes, firstByteMark]

theorem encodeUTF8_two (large : 0x80 ≤ ch) (small : ch < 0x800) :
    encodeUTF8 ch = [UInt8.ofNat (0xC0 + ch / 64), UInt8.ofNat (0x80 + ch % 64)] := by
  have lead := leadByte_eq.1 (show ch / 64 < 32 by omega)
  simp [encodeUTF8, small, not_lt.mpr large, putBytes, firstByteMark, tailByte_eq,
    Nat.shiftRight_eq_div_pow, lead]

theorem encodeUTF8_three (large : 0x800 ≤ ch) (small : ch < 0x10000) :
    encodeUTF8 ch = [UInt8.ofNat (0xE0 + ch / 64 / 64), UInt8.ofNat (0x80 + ch / 64 % 64),
      UInt8.ofNat (0x80 + ch % 64)] := by
  have lead := leadByte_eq.2.1 (show ch / 64 / 64 < 16 by omega)
  simp [encodeUTF8, small, not_lt.mpr large, show ¬ ch < 0x80 by omega, putBytes, firstByteMark,
    tailByte_eq, Nat.shiftRight_eq_div_pow, lead]

theorem encodeUTF8_four (large : 0x10000 ≤ ch) (small : ch < 0x110000) :
    encodeUTF8 ch = [UInt8.ofNat (0xF0 + ch / 64 / 64 / 64), UInt8.ofNat (0x80 + ch / 64 / 64 % 64),
      UInt8.ofNat (0x80 + ch / 64 % 64), UInt8.ofNat (0x80 + ch % 64)] := by
  have lead := leadByte_eq.2.2 (show ch / 64 / 64 / 64 < 8 by omega)
  simp [encodeUTF8, small, not_lt.mpr large, show ¬ ch < 0x80 by omega, show ¬ ch < 0x800 by omega,
    putBytes, firstByteMark, tailByte_eq, Nat.shiftRight_eq_div_pow, lead]

end Character

/-- The bytes of a character are those of its UTF-8 sequence. -/
theorem encodeUTF8_char (c : Char) : encodeUTF8 c.toNat = String.utf8EncodeChar c := by
  have valid := Unicode.toNat_cases c
  obtain ⟨ch, code⟩ : ∃ ch, ch = c.toNat := ⟨_, rfl⟩
  rw [String.utf8EncodeChar]
  simp only [show c.val.toNat = ch from code.symm]
  rw [← code] at valid ⊢
  rcases Nat.lt_or_ge ch 0x80 with one | more
  · rw [encodeUTF8_ascii ch one, if_pos (by omega)]
  rcases Nat.lt_or_ge ch 0x800 with two | more
  · rw [encodeUTF8_two ch (by omega) two, if_neg (by omega), if_pos (by omega)]
    refine congrArg₂ (fun a b => [UInt8.ofNat a, UInt8.ofNat b]) ?_ ?_ <;> omega
  rcases Nat.lt_or_ge ch 0x10000 with three | more
  · rw [encodeUTF8_three ch (by omega) three, if_neg (by omega), if_neg (by omega), if_pos (by omega)]
    simp only [show 0xE0 + ch / 64 / 64 = ch / 4096 % 16 + 224 by omega, Nat.add_comm 0x80]
  · rw [encodeUTF8_four ch (by omega) (by omega), if_neg (by omega), if_neg (by omega), if_neg (by omega)]
    simp only [show ch / 64 / 64 = ch / 4096 by omega, show 0xF0 + ch / 4096 / 64 = ch / 262144 % 8 + 240 by omega,
      Nat.add_comm 0x80]

end WebNode.Wtf
