import WebNode.Lib.UnicodeText
import WebNode.Wtf.Utf8
import Mathlib.Data.Nat.Bitwise

/-!
# Which sequences are legal

The check of a sequence accepts the well-formed ones, and those with a first byte 0xED or 0xF4 and a
second byte that is no continuation byte.
-/

namespace WebNode.Wtf

open WebNode.Lib.Unicode

/-! ### First bytes -/

theorem forall_byte {property : UInt8 → Prop} (all : ∀ n < 256, property (UInt8.ofNat n)) (byte : UInt8) :
    property byte := by
  have here := all byte.toNat byte.toNat_lt
  rwa [UInt8.ofNat_toNat] at here

theorem inlineUTF8SequenceLength_eq (byte : UInt8) : inlineUTF8SequenceLength byte =
    if byte.toNat < 0x80 then 1 else if byte.toNat < 0xC0 then 0 else if byte.toNat < 0xE0 then 2
    else if byte.toNat < 0xF0 then 3 else if byte.toNat < 0xF8 then 4 else 0 := by
  revert byte
  apply forall_byte
  decide +kernel

/-- The length that the first byte announces. -/
def announced (source : List UInt8) : Nat := inlineUTF8SequenceLength (byteAt source 0)

/-- The sequences that the check lets through and that spell no character. -/
inductive Overlooked : List UInt8 → Prop
  | three {b c : UInt8} (rest : List UInt8) : b.toNat < 0x80 → IsTail c → Overlooked (0xED :: b :: c :: rest)
  | four {b c d : UInt8} (rest : List UInt8) :
    b.toNat < 0x80 → IsTail c → IsTail d → Overlooked (0xF4 :: b :: c :: d :: rest)

theorem announced_cons (a : UInt8) (rest : List UInt8) : announced (a :: rest) = inlineUTF8SequenceLength a := rfl

theorem length_three : inlineUTF8SequenceLength 0xED = 3 := by decide

theorem length_four : inlineUTF8SequenceLength 0xF4 = 4 := by decide

/-! ### The checks of single bytes -/

theorem isTrailingByte_iff (a : UInt8) : isTrailingByte a = true ↔ IsTail a := by
  simp only [isTrailingByte, IsTail, Bool.not_eq_true', Bool.or_eq_false_iff, decide_eq_false_iff_not,
    UInt8.lt_iff_toNat_lt, GT.gt, UInt8.reduceToNat]
  omega

theorem isFirstByte_iff (a : UInt8) (rest : List UInt8) :
    isFirstByte (a :: rest) = true ↔ (a.toNat < 0x80 ∨ 0xC2 ≤ a.toNat) ∧ a.toNat ≤ 0xF4 := by
  simp only [isFirstByte, byteAt, List.getD_cons_zero, Bool.and_eq_true, Bool.not_eq_true', Bool.and_eq_false_iff,
    decide_eq_false_iff_not, UInt8.lt_iff_toNat_lt, UInt8.le_iff_toNat_le, GT.gt, GE.ge, UInt8.reduceToNat]
  omega

theorem isSecondByte_iff (a b : UInt8) (rest : List UInt8) : isSecondByte (a :: b :: rest) = true ↔ b.toNat ≤ 0xBF ∧
    (if a.toNat = 0xE0 then 0xA0 ≤ b.toNat else if a.toNat = 0xED then b.toNat ≤ 0x9F
      else if a.toNat = 0xF0 then 0x90 ≤ b.toNat else if a.toNat = 0xF4 then b.toNat ≤ 0x8F else 0x80 ≤ b.toNat) := by
  simp only [isSecondByte, byteAt, List.getD_cons_zero, List.getD_cons_succ, Bool.and_eq_true, Bool.not_eq_true',
    decide_eq_false_iff_not, UInt8.lt_iff_toNat_lt, GT.gt, UInt8.reduceToNat, ← UInt8.toNat_inj, Nat.not_lt]
  refine and_congr_right fun _ => ?_
  split
  · simp
  · split
    · simp
    · split
      · simp
      · split <;> simp

/-! ### The check of a sequence -/

theorem announced_of_sequence {bytes : List UInt8} {code : Nat} (sequence : Sequence bytes code) (rest : List UInt8) :
    announced (bytes ++ rest) = bytes.length := by
  cases sequence <;> simp only [announced, byteAt, List.cons_append, List.getD_cons_zero, inlineUTF8SequenceLength_eq,
    List.length_cons, List.length_nil]
  case one less => rw [if_pos less]
  case two low high tail => rw [if_neg (by omega), if_neg (by omega), if_pos (by omega)]
  case three low high second third least most =>
    rw [if_neg (by omega), if_neg (by omega), if_neg (by omega), if_pos (by omega)]
  case four low high second third last least most =>
    rw [if_neg (by omega), if_neg (by omega), if_neg (by omega), if_neg (by omega), if_pos (by omega)]

theorem isLegalUTF8_of_sequence {bytes : List UInt8} {code : Nat} (sequence : Sequence bytes code) (rest : List UInt8) :
    isLegalUTF8 (bytes ++ rest) bytes.length = true := by
  cases sequence with
  | one less =>
    show isFirstByte _ = true
    rw [List.cons_append, isFirstByte_iff]
    omega
  | two low high tail =>
    obtain ⟨least, most⟩ := tail
    show (isSecondByte _ && isFirstByte _) = true
    rw [Bool.and_eq_true, List.cons_append, List.cons_append, isFirstByte_iff, isSecondByte_iff, if_neg (by omega),
      if_neg (by omega), if_neg (by omega), if_neg (by omega)]
    omega
  | three low high second third least most =>
    have tail := (isTrailingByte_iff _).mpr third
    obtain ⟨least₂, most₂⟩ := second
    show (isTrailingByte _ && isSecondByte _ && isFirstByte _) = true
    rw [Bool.and_eq_true, Bool.and_eq_true, List.cons_append, List.cons_append, List.cons_append, isFirstByte_iff,
      isSecondByte_iff]
    refine ⟨⟨tail, most₂, ?_⟩, by omega⟩
    split
    · next first => exact least first
    · split
      · next first => exact most first
      · rw [if_neg (by omega), if_neg (by omega)]
        exact least₂
  | four low high second third last least most =>
    have tail := (isTrailingByte_iff _).mpr third
    have tail' := (isTrailingByte_iff _).mpr last
    obtain ⟨least₂, most₂⟩ := second
    show (isTrailingByte _ && isTrailingByte _ && isSecondByte _ && isFirstByte _) = true
    rw [Bool.and_eq_true, Bool.and_eq_true, Bool.and_eq_true, List.cons_append, List.cons_append, List.cons_append,
      List.cons_append, isFirstByte_iff, isSecondByte_iff, if_neg (by omega), if_neg (by omega)]
    refine ⟨⟨⟨tail', tail⟩, most₂, ?_⟩, by omega⟩
    split
    · next first => exact least first
    · split
      · next first => exact most first
      · exact least₂

theorem isLegalUTF8_of_overlooked {source : List UInt8} (overlooked : Overlooked source) :
    announced source ≤ source.length ∧ isLegalUTF8 source (announced source) = true := by
  cases overlooked with
  | three rest low third =>
    rw [announced_cons, length_three]
    refine ⟨Nat.le_add_left 3 rest.length, ?_⟩
    show (isTrailingByte _ && isSecondByte _ && isFirstByte _) = true
    rw [Bool.and_eq_true, Bool.and_eq_true, isFirstByte_iff, isSecondByte_iff, if_neg (by decide), if_pos (by decide)]
    exact ⟨⟨(isTrailingByte_iff _).mpr third, by omega, by omega⟩, by decide⟩
  | four rest low third last =>
    rw [announced_cons, length_four]
    refine ⟨Nat.le_add_left 4 rest.length, ?_⟩
    show (isTrailingByte _ && isTrailingByte _ && isSecondByte _ && isFirstByte _) = true
    rw [Bool.and_eq_true, Bool.and_eq_true, Bool.and_eq_true, isFirstByte_iff, isSecondByte_iff, if_neg (by decide),
      if_neg (by decide), if_neg (by decide), if_pos (by decide)]
    exact ⟨⟨⟨(isTrailingByte_iff _).mpr last, (isTrailingByte_iff _).mpr third⟩, by omega, by omega⟩, by decide⟩

theorem toNat_eq_byte {byte : UInt8} {n : Nat} (same : byte.toNat = n) : byte = UInt8.ofNat n := by
  rw [← same, UInt8.ofNat_toNat]

/-- What the check accepts is a well-formed sequence, or one of the others. -/
theorem sequence_of_isLegalUTF8 {source : List UInt8} (nonempty : source ≠ [])
    (enough : announced source ≤ source.length) (legal : isLegalUTF8 source (announced source) = true) :
    (∃ bytes code rest, source = bytes ++ rest ∧ Sequence bytes code) ∨ Overlooked source := by
  obtain ⟨a, source, rfl⟩ := List.exists_cons_of_ne_nil nonempty
  have length : announced (a :: source) = _ := inlineUTF8SequenceLength_eq a
  rw [length] at enough legal
  split at legal
  · next ascii => exact .inl ⟨[a], _, source, rfl, .one ascii⟩
  · next notASCII =>
    rw [if_neg notASCII] at enough
    split at legal
    · cases legal
    · next lead =>
      rw [if_neg lead] at enough
      split at legal
      · next two =>
        rw [if_pos two] at enough
        obtain ⟨b, source, rfl⟩ :=
          List.exists_cons_of_length_pos (show 0 < source.length by rw [List.length_cons] at enough; omega)
        replace legal : (isSecondByte _ && isFirstByte _) = true := legal
        rw [Bool.and_eq_true, isFirstByte_iff, isSecondByte_iff,
          if_neg (by omega), if_neg (by omega), if_neg (by omega), if_neg (by omega)] at legal
        exact .inl ⟨[a, b], _, source, rfl, .two (by omega) (by omega) ⟨legal.1.2, legal.1.1⟩⟩
      · next notTwo =>
        rw [if_neg notTwo] at enough
        split at legal
        · next three =>
          rw [if_pos three] at enough
          obtain ⟨b, source, rfl⟩ :=
            List.exists_cons_of_length_pos (show 0 < source.length by rw [List.length_cons] at enough; omega)
          obtain ⟨c, source, rfl⟩ := List.exists_cons_of_length_pos
            (show 0 < source.length by rw [List.length_cons, List.length_cons] at enough; omega)
          replace legal : (isTrailingByte c && isSecondByte _ && isFirstByte _) = true := legal
          rw [Bool.and_eq_true, Bool.and_eq_true, isFirstByte_iff, isSecondByte_iff, isTrailingByte_iff] at legal
          obtain ⟨⟨third, most, second⟩, -⟩ := legal
          by_cases low : b.toNat < 0x80
          · by_cases surrogates : a.toNat = 0xED
            · obtain rfl := toNat_eq_byte surrogates
              exact .inr (.three source low third)
            · rw [if_neg surrogates] at second
              split at second
              · omega
              · rw [if_neg (by omega), if_neg (by omega)] at second
                omega
          · refine .inl
              ⟨[a, b, c], _, source, rfl,
                .three (by omega) (by omega) ⟨by omega, most⟩ third (fun first => ?_) fun first => ?_⟩
            · rwa [if_pos first] at second
            · rwa [if_neg (by omega), if_pos first] at second
        · next notThree =>
          rw [if_neg notThree] at enough
          split at legal
          · next four =>
            rw [if_pos four] at enough
            obtain ⟨b, source, rfl⟩ :=
              List.exists_cons_of_length_pos (show 0 < source.length by rw [List.length_cons] at enough; omega)
            obtain ⟨c, source, rfl⟩ := List.exists_cons_of_length_pos
              (show 0 < source.length by rw [List.length_cons, List.length_cons] at enough; omega)
            obtain ⟨d, source, rfl⟩ := List.exists_cons_of_length_pos
              (show 0 < source.length by rw [List.length_cons, List.length_cons, List.length_cons] at enough; omega)
            replace legal : (isTrailingByte d && isTrailingByte c && isSecondByte _ && isFirstByte _) = true := legal
            rw [Bool.and_eq_true, Bool.and_eq_true, Bool.and_eq_true, isFirstByte_iff, isSecondByte_iff,
              isTrailingByte_iff, isTrailingByte_iff, if_neg (by omega), if_neg (by omega)] at legal
            obtain ⟨⟨⟨last, third⟩, most, second⟩, -, highest⟩ := legal
            by_cases low : b.toNat < 0x80
            · by_cases largest : a.toNat = 0xF4
              · obtain rfl := toNat_eq_byte largest
                exact .inr (.four source low third last)
              · rw [if_neg largest] at second
                split at second <;> omega
            · refine .inl ⟨[a, b, c, d], _, source, rfl,
                .four (by omega) highest ⟨by omega, most⟩ third last (fun first => ?_) fun first => ?_⟩
              · rwa [if_pos first] at second
              · rwa [if_neg (by omega), if_pos first] at second
          · cases legal

/-! ### Characters -/

theorem readUTF8Sequence_of_sequence {bytes : List UInt8} {code : Nat} (sequence : Sequence bytes code)
    (rest : List UInt8) :
    readUTF8Sequence (bytes ++ rest) bytes.length = code := by
  rw [readUTF8Sequence, List.take_left]
  cases sequence with
  | one less => simp [offsetsFromUTF8]
  | two low high tail =>
    obtain ⟨least, most⟩ := tail
    simp only [List.foldl_cons, List.foldl_nil, List.length_cons, List.length_nil, offsetsFromUTF8,
      Int.ofNat_eq_natCast]
    omega
  | three low high second third least most =>
    obtain ⟨least₂, most₂⟩ := second
    obtain ⟨least₃, most₃⟩ := third
    simp only [List.foldl_cons, List.foldl_nil, List.length_cons, List.length_nil, offsetsFromUTF8,
      Int.ofNat_eq_natCast]
    omega
  | four low high second third last least most =>
    obtain ⟨least₂, most₂⟩ := second
    obtain ⟨least₃, most₃⟩ := third
    obtain ⟨least₄, most₄⟩ := last
    simp only [List.foldl_cons, List.foldl_nil, List.length_cons, List.length_nil, offsetsFromUTF8,
      Int.ofNat_eq_natCast]
    omega

/-- An overlooked sequence is read as a character, too. -/
theorem readUTF8Sequence_of_overlooked {source : List UInt8} (overlooked : Overlooked source) :
    let character := readUTF8Sequence source (announced source)
    (0xB000 ≤ character ∧ character ≤ 0xCFFF) ∨ (0x80000 ≤ character ∧ character ≤ 0xFFFFF) := by
  cases overlooked with
  | three rest low third =>
    obtain ⟨least, most⟩ := third
    left
    simp only [announced_cons, length_three, readUTF8Sequence, List.take_succ_cons, List.take_zero,
      List.foldl_cons, List.foldl_nil, offsetsFromUTF8, Int.ofNat_eq_natCast, UInt8.reduceToNat]
    omega
  | four rest low third last =>
    obtain ⟨least, most⟩ := third
    obtain ⟨least', most'⟩ := last
    right
    simp only [announced_cons, length_four, readUTF8Sequence, List.take_succ_cons, List.take_zero,
      List.foldl_cons, List.foldl_nil, offsetsFromUTF8, Int.ofNat_eq_natCast, UInt8.reduceToNat]
    omega

theorem leadUnit_eq {code : Nat} (large : 0x10000 ≤ code) :
    leadUnit code = UInt16.ofNat (0xD800 + (code - 0x10000) / 0x400) := by
  rw [leadUnit, Int.toNat_natCast, Nat.shiftRight_eq_div_pow]
  congr 1
  omega

theorem trailUnit_eq {code : Nat} (large : 0x10000 ≤ code) :
    trailUnit code = UInt16.ofNat (0xDC00 + (code - 0x10000) % 0x400) := by
  have low : code &&& 0x3FF = (code - 0x10000) % 0x400 := by
    rw [show code &&& 0x3FF = code % 0x400 from Nat.and_two_pow_sub_one_eq_mod code 10]
    omega
  have joined : ∀ bits < 2 ^ 10, bits ||| 0xDC00 = 0xDC00 + bits := fun bits less => by
    rw [Nat.or_comm]
    exact (Nat.shiftLeft_add_eq_or_of_lt less 55).symm
  rw [trailUnit, Int.toNat_natCast, low, joined ((code - 0x10000) % 0x400) (by omega)]

end WebNode.Wtf
