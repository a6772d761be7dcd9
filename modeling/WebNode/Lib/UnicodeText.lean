import Mathlib.Data.List.Basic
import Mathlib.Tactic.Common

/-!
# Unicode text in bytes and in 16-bit units

A text is a list of characters. Its bytes are those of the core library; a sequence of bytes stands
for a character exactly if its bytes are in the ranges of the Unicode standard's table of well-formed
sequences.
-/

namespace WebNode.Lib.Unicode

def utf8 (text : List Char) : List UInt8 := text.flatMap String.utf8EncodeChar

/-- The units of a character: itself, or a pair of surrogates. -/
def utf16Units (c : Char) : List UInt16 :=
  if c.toNat < 0x10000 then [UInt16.ofNat c.toNat]
  else [UInt16.ofNat (0xD800 + (c.toNat - 0x10000) / 0x400), UInt16.ofNat (0xDC00 + (c.toNat - 0x10000) % 0x400)]

def utf16 (text : List Char) : List UInt16 := text.flatMap utf16Units

theorem utf8_cons (c : Char) (text : List Char) : utf8 (c :: text) = String.utf8EncodeChar c ++ utf8 text :=
  List.flatMap_cons

theorem utf16_cons (c : Char) (text : List Char) : utf16 (c :: text) = utf16Units c ++ utf16 text := List.flatMap_cons

theorem toNat_cases (c : Char) : c.toNat < 0xD800 ∨ 0xDFFF < c.toNat ∧ c.toNat < 0x110000 := c.valid

theorem exists_char {code : Nat} (valid : code < 0xD800 ∨ 0xDFFF < code ∧ code < 0x110000) : ∃ c :
    Char, c.toNat = code :=
  ⟨Char.ofNatAux code valid, by rfl⟩

/-- A continuation byte. -/
def IsTail (byte : UInt8) : Prop := 0x80 ≤ byte.toNat ∧ byte.toNat ≤ 0xBF

/-- The well-formed byte sequences, each with its code point. -/
inductive Sequence : List UInt8 → Nat → Prop
  | one {a : UInt8} : a.toNat < 0x80 → Sequence [a] a.toNat
  | two {a b : UInt8} :
    0xC2 ≤ a.toNat → a.toNat ≤ 0xDF → IsTail b → Sequence [a, b] ((a.toNat - 0xC0) * 64 + (b.toNat - 0x80))
  | three {a b c : UInt8} : 0xE0 ≤ a.toNat → a.toNat ≤ 0xEF → IsTail b → IsTail c → (a.toNat = 0xE0 → 0xA0 ≤ b.toNat) →
      (a.toNat = 0xED → b.toNat ≤ 0x9F) →
      Sequence [a, b, c] ((a.toNat - 0xE0) * 4096 + (b.toNat - 0x80) * 64 + (c.toNat - 0x80))
  | four {a b c d : UInt8} :
      0xF0 ≤ a.toNat → a.toNat ≤ 0xF4 → IsTail b → IsTail c → IsTail d → (a.toNat = 0xF0 → 0x90 ≤ b.toNat) →
      (a.toNat = 0xF4 → b.toNat ≤ 0x8F) →
      Sequence [a, b, c, d]
      ((a.toNat - 0xF0) * 262144 + (b.toNat - 0x80) * 4096 + (c.toNat - 0x80) * 64 + (d.toNat - 0x80))

theorem byte_eq {byte : UInt8} {n : Nat} (same : n = byte.toNat) : UInt8.ofNat n = byte := by
  rw [same, UInt8.ofNat_toNat]

theorem toNat_byte {n : Nat} (less : n < 256) : (UInt8.ofNat n).toNat = n := UInt8.toNat_ofNat_of_lt' less

/-- Every character is spelled by a well-formed sequence. -/
theorem sequence_encode (c : Char) : Sequence (String.utf8EncodeChar c) c.toNat := by
  have valid := toNat_cases c
  obtain ⟨v, code⟩ : ∃ v, v = c.toNat := ⟨_, rfl⟩
  rw [String.utf8EncodeChar]
  rw [← code] at valid ⊢
  simp only [show c.val.toNat = v from code.symm]
  have tail (n : Nat) : IsTail (UInt8.ofNat (n % 64 + 128)) := by
    rw [IsTail, toNat_byte (by omega)]
    omega
  split
  · have one := Sequence.one (show (UInt8.ofNat v).toNat < 0x80 by rw [toNat_byte (by omega)]; omega)
    rwa [toNat_byte (by omega)] at one
  · split
    · have first : (UInt8.ofNat (v / 64 % 32 + 192)).toNat = v / 64 + 192 := by rw [toNat_byte (by omega)]; omega
      have two := Sequence.two (by omega) (by omega) (tail v) (a := UInt8.ofNat (v / 64 % 32 + 192))
      rw [first, toNat_byte (by omega)] at two
      convert two using 1
      omega
    · split
      · have first : (UInt8.ofNat (v / 4096 % 16 + 224)).toNat = v / 4096 + 224 := by rw [toNat_byte (by omega)]; omega
        have second : (UInt8.ofNat (v / 64 % 64 + 128)).toNat = v / 64 % 64 + 128 := toNat_byte (by omega)
        have three := Sequence.three (by omega) (by omega) (tail (v / 64)) (tail v) (by omega) (by omega)
          (a := UInt8.ofNat (v / 4096 % 16 + 224))
        rw [first, second, toNat_byte (by omega)] at three
        convert three using 1
        omega
      · have first : (UInt8.ofNat (v / 262144 % 8 + 240)).toNat = v / 262144 + 240 := by
          rw [toNat_byte (by omega)]; omega
        have second : (UInt8.ofNat (v / 4096 % 64 + 128)).toNat = v / 4096 % 64 + 128 := toNat_byte (by omega)
        have third : (UInt8.ofNat (v / 64 % 64 + 128)).toNat = v / 64 % 64 + 128 := toNat_byte (by omega)
        have four :=
          Sequence.four (by omega) (by omega) (tail (v / 4096)) (tail (v / 64)) (tail v) (by omega) (by omega)
          (a := UInt8.ofNat (v / 262144 % 8 + 240))
        rw [first, second, third, toNat_byte (by omega)] at four
        convert four using 1
        omega

/-- Every well-formed sequence spells a character. -/
theorem Sequence.exists_char {bytes : List UInt8} {code : Nat} (sequence : Sequence bytes code) :
    ∃ c : Char, c.toNat = code ∧ String.utf8EncodeChar c = bytes := by
  have valid : code < 0xD800 ∨ 0xDFFF < code ∧ code < 0x110000 := by
    cases sequence with
    | one less => omega
    | two low high tail => have := tail.1; have := tail.2; omega
    | three low high second third least most =>
      have := second.1; have := second.2; have := third.1; have := third.2; omega
    | four low high second third last least most =>
      have := second.1; have := second.2; have := third.1; have := third.2; have := last.1; have := last.2
      omega
  obtain ⟨c, same⟩ := Unicode.exists_char valid
  refine ⟨c, same, ?_⟩
  rw [String.utf8EncodeChar]
  simp only [show c.val.toNat = code from same]
  cases sequence with
  | one less => rw [if_pos (by omega), byte_eq rfl]
  | two low high tail =>
    obtain ⟨least, most⟩ := tail
    rw [if_neg (by omega), if_pos (by omega)]
    exact congrArg₂ _ (byte_eq (by omega)) (congrArg₂ _ (byte_eq (by omega)) rfl)
  | three low high second third least most =>
    obtain ⟨least₂, most₂⟩ := second
    obtain ⟨least₃, most₃⟩ := third
    rw [if_neg (by omega), if_neg (by omega), if_pos (by omega)]
    exact congrArg₂ _ (byte_eq (by omega)) (congrArg₂ _ (byte_eq (by omega)) (congrArg₂ _ (byte_eq (by omega)) rfl))
  | four low high second third last least most =>
    obtain ⟨least₂, most₂⟩ := second
    obtain ⟨least₃, most₃⟩ := third
    obtain ⟨least₄, most₄⟩ := last
    rw [if_neg (by omega), if_neg (by omega), if_neg (by omega)]
    exact congrArg₂ _ (byte_eq (by omega)) (congrArg₂ _ (byte_eq (by omega))
      (congrArg₂ _ (byte_eq (by omega)) (congrArg₂ _ (byte_eq (by omega)) rfl)))

/-- No character starts these bytes. -/
def Unspelled (bytes : List UInt8) : Prop := ∀ c rest, bytes ≠ String.utf8EncodeChar c ++ rest

theorem encode_length_pos (c : Char) : 0 < (String.utf8EncodeChar c).length := by
  rw [String.length_utf8EncodeChar]
  exact c.utf8Size_pos

/-- Bytes are the bytes of a text up to the first place where no character is spelled. -/
theorem exists_text (bytes : List UInt8) : ∃ text rest, bytes = utf8 text ++ rest ∧ Unspelled rest := by
  induction length : bytes.length using Nat.strongRecOn generalizing bytes with
  | ind size ih =>
    by_cases unspelled : Unspelled bytes
    · exact ⟨[], bytes, rfl, unspelled⟩
    · simp only [Unspelled, not_forall, not_not] at unspelled
      obtain ⟨c, later, rfl⟩ := unspelled
      have positive := encode_length_pos c
      rw [List.length_append] at length
      obtain ⟨text, rest, same, ends⟩ := ih later.length (by omega) later rfl
      exact ⟨c :: text, rest, by rw [same, utf8_cons, List.append_assoc], ends⟩

end WebNode.Lib.Unicode
