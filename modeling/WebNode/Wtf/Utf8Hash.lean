import WebNode.Wtf.Utf8Conversion
import Mathlib.Data.List.Forall2

/-!
# Strings looked up by their UTF-8

The hash of UTF-8 data is that of the string it spells, and the comparisons tell whether it spells a
given string. Data with overlooked sequences has a hash, too, and a Latin-1 string is compared with
characters that are cut to eight bits.
-/

namespace WebNode.Wtf

open WebNode.Lib.Unicode

/-! ### The hasher -/

namespace StringHasher

theorem addCharacters_eq (hasher : StringHasher) (a b : UChar) :
    hasher.addCharacters a b = (hasher.addCharacter a).addCharacter b := by
  obtain ⟨hash, pending⟩ := hasher
  cases pending <;> rfl

/-- Two by two or one by one, the characters have the same hash. -/
theorem addString_eq (hash : UInt32) : ∀ units, addString ⟨hash, none⟩ units = units.foldl addCharacter ⟨hash, none⟩
  | [] => rfl
  | [_] => rfl
  | a :: b :: rest => addString_eq (mix hash a b) rest

theorem hashWithTop8BitsMasked_ne_zero (hasher : StringHasher) : hasher.hashWithTop8BitsMasked ≠ 0 := by
  rw [hashWithTop8BitsMasked]
  split
  · decide
  · next different => exact different

end StringHasher

/-! ### Data that is read to its end -/

/-- Characters and overlooked sequences. -/
inductive Accepted : List UInt8 → Prop
  | nil : Accepted []
  | char {rest : List UInt8} (c : Char) : Accepted rest → Accepted (String.utf8EncodeChar c ++ rest)
  | overlooked {bytes : List UInt8} : Overlooked bytes → Accepted (bytes.drop (announced bytes)) → Accepted bytes

section Loop

variable {hasEnd : Bool} {bytes rest suffix : List UInt8}

theorem accepted_utf8 (text : List Char) : Accepted (utf8 text) := by
  induction text with
  | nil => exact .nil
  | cons c text ih =>
    rw [utf8_cons]
    exact .char c ih

theorem encode_inj {c d : Char} {rest others : List UInt8}
    (same : String.utf8EncodeChar c ++ rest = String.utf8EncodeChar d ++ others) : c = d ∧ rest = others := by
  have first := sequence_encode c
  have second := sequence_encode d
  have length : (String.utf8EncodeChar c).length = (String.utf8EncodeChar d).length := by
    rw [← announced_of_sequence first rest, same, announced_of_sequence second others]
  refine ⟨Char.toNat_inj.mp ?_, (List.append_inj same length).2⟩
  have read := readUTF8Sequence_of_sequence first rest
  rw [same, length, readUTF8Sequence_of_sequence second others] at read
  exact Int.ofNat_inj.mp read.symm

/-- No character starts an overlooked sequence. -/
theorem Overlooked.unspelled {source : List UInt8} (overlooked : Overlooked source) : Unspelled source := by
  intro c rest same
  have sequence := sequence_encode c
  generalize String.utf8EncodeChar c = bytes at sequence same
  generalize c.toNat = code at sequence
  have first {a b : UInt8} {tail : List UInt8} (cons : source = a :: b :: tail) (low : b.toNat < 0x80)
      (large : 0xE0 ≤ a.toNat) : False := by
    rw [same] at cons
    cases sequence with
    | one less =>
      obtain ⟨rfl, -⟩ := List.cons.inj cons
      omega
    | two _ high _ =>
      obtain ⟨rfl, -⟩ := List.cons.inj cons
      omega
    | three _ _ second _ _ _ =>
      obtain ⟨-, rest⟩ := List.cons.inj cons
      obtain ⟨rfl, -⟩ := List.cons.inj rest
      have := second.1
      omega
    | four _ _ second _ _ _ _ =>
      obtain ⟨-, rest⟩ := List.cons.inj cons
      obtain ⟨rfl, -⟩ := List.cons.inj rest
      have := second.1
      omega
  cases overlooked with
  | three tail low third => exact first rfl low (by decide)
  | four tail low third last => exact first rfl low (by decide)

/-- Only the announced bytes matter. -/
theorem Overlooked.exists_piece {source : List UInt8} (overlooked : Overlooked source) :
    ∃ piece rest, source = piece ++ rest ∧ announced source = piece.length ∧
      ∀ others, Overlooked (piece ++ others) := by
  cases overlooked with
  | @three b c rest low third => exact ⟨[0xED, b, c], rest, rfl, length_three, fun others => .three others low third⟩
  | @four b c d rest low third last =>
    exact ⟨[0xF4, b, c, d], rest, rfl, length_four, fun others => .four others low third last⟩

theorem exists_append_of_le {bytes suffix piece rest : List UInt8} (same : bytes ++ suffix = piece ++ rest)
    (le : piece.length ≤ bytes.length) : ∃ later, bytes = piece ++ later := by
  obtain ⟨later, rest⟩ := List.prefix_of_prefix_length_le ⟨rest, same.symm⟩ ⟨suffix, rfl⟩ le
  exact ⟨later, rest.symm⟩

theorem accepted_char_iff (c : Char) (rest : List UInt8) :
    Accepted (String.utf8EncodeChar c ++ rest) ↔ Accepted rest := by
  refine ⟨fun accepted => ?_, .char c⟩
  generalize same : String.utf8EncodeChar c ++ rest = bytes at accepted
  cases accepted with
  | nil =>
    have positive := encode_length_pos c
    rw [(List.append_eq_nil_iff.mp same).1] at positive
    exact absurd positive (Nat.lt_irrefl 0)
  | char d later => exact (encode_inj same).2 ▸ later
  | overlooked overlooked _ => exact absurd same.symm (overlooked.unspelled c rest)

theorem accepted_overlooked_iff (overlooked : Overlooked bytes) :
    Accepted bytes ↔ Accepted (bytes.drop (announced bytes)) := by
  refine ⟨fun accepted => ?_, .overlooked overlooked⟩
  cases accepted with
  | nil => cases overlooked
  | char c _ => exact absurd rfl (overlooked.unspelled c _)
  | overlooked _ later => exact later

theorem not_accepted (nonempty : bytes ≠ []) (unspelled : Unspelled bytes) (seen : ¬Overlooked bytes) :
    ¬Accepted bytes := fun accepted => by
  cases accepted with
  | nil => exact nonempty rfl
  | char c _ => exact unspelled c _ rfl
  | overlooked overlooked _ => exact seen overlooked

/-! ### The memory behind the data -/

/-- The data ends at the given end, or there is a zero byte behind it and none in it. -/
def Terminated (hasEnd : Bool) (bytes suffix : List UInt8) : Prop :=
  if hasEnd then suffix = [] else (∃ beyond, suffix = 0 :: beyond) ∧ 0 ∉ bytes

theorem Terminated.drop (terminated : Terminated hasEnd (bytes ++ rest) suffix) :
    Terminated hasEnd rest suffix := by
  unfold Terminated at terminated ⊢
  split at terminated
  · next given => rwa [if_pos given]
  · next missing =>
    rw [if_neg missing]
    exact ⟨terminated.1, fun member => terminated.2 (List.mem_append_right _ member)⟩

theorem byteAt_append_left (suffix : List UInt8) {i : Nat} (inside : i < bytes.length) :
    byteAt (bytes ++ suffix) i = byteAt bytes i := by
  rw [byteAt, byteAt, List.getD_append _ _ _ _ inside]

theorem byteAt_mem {i : Nat} (inside : i < bytes.length) : byteAt bytes i ∈ bytes := by
  rw [byteAt, List.getD_eq_getElem _ _ inside]
  exact List.getElem_mem inside

/-- The loop does not end inside the data. -/
theorem Terminated.atEnd (terminated : Terminated hasEnd bytes suffix) (nonempty : bytes ≠ []) :
    atEnd hasEnd (bytes ++ suffix) = false := by
  have positive := List.length_pos_of_ne_nil nonempty
  refine Bool.eq_false_iff.mpr fun ends => ?_
  unfold Terminated at terminated
  unfold Wtf.atEnd at ends
  split at terminated
  · next given =>
    rw [if_pos given, List.isEmpty_iff] at ends
    exact nonempty (List.append_eq_nil_iff.mp ends).1
  · next missing =>
    rw [if_neg missing, byteAt_append_left _ positive, beq_iff_eq] at ends
    exact terminated.2 (ends ▸ byteAt_mem positive)

theorem Terminated.atEnd_nil (terminated : Terminated hasEnd [] suffix) :
    Wtf.atEnd hasEnd suffix = true := by
  unfold Terminated at terminated
  unfold Wtf.atEnd
  split at terminated
  · next given => rw [if_pos given, terminated, List.isEmpty_nil]
  · next missing =>
    obtain ⟨⟨beyond, rfl⟩, -⟩ := terminated
    rw [if_neg missing]
    rfl

/-- A sequence is cut off exactly if fewer bytes are left than announced. -/
theorem Terminated.isCutOff (terminated : Terminated hasEnd bytes suffix) (nonempty : bytes ≠ []) (length : Nat) :
    isCutOff hasEnd (bytes ++ suffix) length = decide (bytes.length < length) := by
  have positive := List.length_pos_of_ne_nil nonempty
  unfold Terminated at terminated
  unfold Wtf.isCutOff
  split at terminated
  · next given => rw [if_pos given, terminated, List.append_nil]
  · next missing =>
    obtain ⟨⟨beyond, rfl⟩, noZero⟩ := terminated
    rw [if_neg missing, Bool.eq_iff_iff, decide_eq_true_iff, List.any_eq_true]
    constructor
    · rintro ⟨i, less, zero⟩
      rw [List.mem_range] at less
      rw [Bool.and_eq_true, beq_iff_eq] at zero
      by_contra enough
      rw [byteAt_append_left _ (by omega)] at zero
      exact noZero (zero.2 ▸ byteAt_mem (by omega))
    · intro short
      refine ⟨bytes.length, List.mem_range.mpr short, ?_⟩
      rw [byteAt, List.getD_append_right _ _ _ _ (Nat.le_refl _), Nat.sub_self]
      simp only [List.getD_cons_zero, Bool.and_eq_true, decide_eq_true_iff, beq_self_eq_true, and_true]
      exact positive

/-! ### The loop -/

theorem ascii_iff (c : Char) (rest : List UInt8) :
    byteAt (String.utf8EncodeChar c ++ rest) 0 < 0x80 ↔ c.toNat < 0x80 := by
  have sequence := sequence_encode c
  rw [UInt8.lt_iff_toNat_lt]
  generalize String.utf8EncodeChar c = bytes at sequence
  generalize c.toNat = code at sequence
  cases sequence with
  | one less => exact Iff.rfl
  | two low high tail =>
    exact iff_of_false (fun less => absurd (show _ < 0x80 from less) (by simp [byteAt]; omega)) (by omega)
  | three low high second third least most =>
    have := second.1
    exact iff_of_false (fun less => absurd (show _ < 0x80 from less) (by simp [byteAt]; omega)) (by omega)
  | four low high second third last least most =>
    have := second.1
    exact iff_of_false (fun less => absurd (show _ < 0x80 from less) (by simp [byteAt]; omega)) (by omega)

theorem encode_ascii {c : Char} (small : c.toNat < 0x80) : String.utf8EncodeChar c = [UInt8.ofNat c.toNat] := by
  rw [← encodeUTF8_char, encodeUTF8_ascii _ small]

/-- The variables after a character. -/
def Hashing.read (state : Hashing) (c : Char) : Hashing where
  hasher := (utf16Units c).foldl StringHasher.addCharacter state.hasher
  dataLength := state.dataLength + UInt32.ofNat (String.utf8EncodeChar c).length
  utf16Length := state.utf16Length + UInt32.ofNat (utf16Units c).length

theorem lengthNonASCII_eq {byte : UInt8} (notASCII : ¬byte < 0x80) :
    inlineUTF8SequenceLengthNonASCII byte = inlineUTF8SequenceLength byte :=
  (if_neg notASCII).symm

theorem announced_append (suffix : List UInt8) (nonempty : bytes ≠ []) :
    announced (bytes ++ suffix) = announced bytes := by
  rw [announced, announced, byteAt_append_left _ (List.length_pos_of_ne_nil nonempty)]

theorem toUInt16_ofNat {n : Nat} (less : n < 256) : (UInt8.ofNat n).toUInt16 = UInt16.ofNat n := by
  rw [← UInt16.toNat_inj, UInt8.toNat_toUInt16, toNat_byte less, toNat_unit (by omega)]

theorem hashLoop_ascii (terminated : Terminated hasEnd bytes suffix) (nonempty : bytes ≠ [])
    (ascii : byteAt bytes 0 < 0x80) (rounds : Nat) (state : Hashing) :
    hashLoop hasEnd (rounds + 1) (bytes ++ suffix) state = hashLoop hasEnd rounds ((bytes ++ suffix).drop 1)
      ⟨state.hasher.addCharacter (byteAt bytes 0).toUInt16, state.dataLength + 1, state.utf16Length + 1⟩ := by
  rw [hashLoop, terminated.atEnd nonempty, byteAt_append_left _ (List.length_pos_of_ne_nil nonempty), if_pos ascii]
  rfl

/-- A round for a byte that is not ASCII. -/
theorem hashLoop_sequence (terminated : Terminated hasEnd bytes suffix) (nonempty : bytes ≠ [])
    (notASCII : ¬byteAt bytes 0 < 0x80) (rounds : Nat) (state : Hashing) :
    hashLoop hasEnd (rounds + 1) (bytes ++ suffix) state =
      if bytes.length < announced bytes then none
      else if !isLegalUTF8 (bytes ++ suffix) (announced bytes) then none
      else
        let character := readUTF8Sequence (bytes ++ suffix) (announced bytes)
        let later := (bytes ++ suffix).drop (announced bytes)
        let dataLength := state.dataLength + UInt32.ofNat (announced bytes)
        if isBMP character then
          if isSurrogate character then none
          else hashLoop hasEnd rounds later
            ⟨state.hasher.addCharacter (unitOf character), dataLength, state.utf16Length + 1⟩
        else if isSupplementary character then
          hashLoop hasEnd rounds later
            ⟨state.hasher.addCharacters (leadUnit character) (trailUnit character), dataLength, state.utf16Length + 2⟩
        else none := by
  rw [hashLoop, terminated.atEnd nonempty, byteAt_append_left _ (List.length_pos_of_ne_nil nonempty), if_neg notASCII,
    lengthNonASCII_eq notASCII]
  simp only [terminated.isCutOff nonempty, decide_eq_true_eq]
  rfl

theorem hashLoop_char {c : Char} (terminated : Terminated hasEnd (String.utf8EncodeChar c ++ rest) suffix)
    (rounds : Nat) (state : Hashing) :
    hashLoop hasEnd (rounds + 1)
    (String.utf8EncodeChar c ++ rest ++ suffix) state = hashLoop hasEnd rounds (rest ++ suffix) (state.read c) := by
  have sequence := sequence_encode c
  have nonempty : String.utf8EncodeChar c ++ rest ≠ [] := fun nothing =>
    absurd (encode_length_pos c) (by rw [(List.append_eq_nil_iff.mp nothing).1]; exact Nat.lt_irrefl 0)
  have length := announced_of_sequence sequence rest
  by_cases ascii : byteAt (String.utf8EncodeChar c ++ rest) 0 < 0x80
  · have small := (ascii_iff c rest).mp ascii
    rw [hashLoop_ascii terminated nonempty ascii]
    simp only [encode_ascii small, Hashing.read, utf16Units_bmp (show c.toNat < 0x10000 by omega), byteAt,
      List.cons_append, List.nil_append, List.getD_cons_zero, List.drop_succ_cons, List.drop_zero, List.foldl_cons,
      List.foldl_nil, List.length_cons, List.length_nil, unitOf, Int.toNat_natCast]
    rw [toUInt16_ofNat (by omega), Nat.zero_add, UInt32.ofNat_one]
  · rw [hashLoop_sequence terminated nonempty ascii, length,
      if_neg (by rw [List.length_append]; omega), List.append_assoc, isLegalUTF8_of_sequence sequence,
        readUTF8Sequence_of_sequence sequence, List.drop_left]
    simp only [not_surrogate]
    by_cases small : c.toNat < 0x10000
    · simp [(isBMP_iff _).mpr small, Hashing.read, utf16Units_bmp small]
    · have notBMP : isBMP c.toNat = false := Bool.eq_false_iff.mpr fun bmp => small ((isBMP_iff _).mp bmp)
      simp [notBMP, isSupplementary_of_char small, Hashing.read, utf16Units_supplementary small,
        StringHasher.addCharacters_eq]

/-- The loop reads the whole text. -/
theorem hashLoop_text {text : List Char} (terminated : Terminated hasEnd (utf8 text) suffix) {rounds : Nat}
    (enough : (utf8 text ++ suffix).length ≤ rounds) (state : Hashing) :
    hashLoop hasEnd rounds (utf8 text ++ suffix) state =
      some ⟨(utf16 text).foldl StringHasher.addCharacter state.hasher,
        state.dataLength + UInt32.ofNat (utf8 text).length, state.utf16Length + UInt32.ofNat (utf16 text).length⟩ := by
  induction text generalizing rounds state with
  | nil =>
    have ends : hashLoop hasEnd rounds suffix state = some state := by
      cases rounds with
      | zero => rfl
      | succ rounds => rw [hashLoop, terminated.atEnd_nil, if_pos rfl]
    simpa [utf8, utf16] using ends
  | cons c text ih =>
    rw [utf8_cons] at terminated enough ⊢
    have positive := encode_length_pos c
    rw [List.append_assoc, List.length_append] at enough
    obtain ⟨fewer, rfl⟩ : ∃ fewer, rounds = fewer + 1 := ⟨rounds - 1, by omega⟩
    rw [hashLoop_char terminated,
      ih terminated.drop (by omega), utf16_cons, List.foldl_append, List.length_append, List.length_append]
    simp only [Hashing.read, UInt32.ofNat_add, UInt32.add_assoc]

/-- An overlooked sequence is read, too. -/
theorem hashLoop_overlooked (terminated : Terminated hasEnd bytes suffix) (overlooked : Overlooked bytes)
    (rounds : Nat) (state : Hashing) :
    ∃ next, hashLoop hasEnd (rounds + 1) (bytes ++ suffix) state =
      hashLoop hasEnd rounds (bytes.drop (announced bytes) ++ suffix) next := by
  obtain ⟨enough, -⟩ := isLegalUTF8_of_overlooked overlooked
  have more : Overlooked (bytes ++ suffix) := by
    obtain ⟨piece, rest, rfl, -, always⟩ := overlooked.exists_piece
    rw [List.append_assoc]
    exact always (rest ++ suffix)
  have nonempty : bytes ≠ [] := by
    rintro rfl
    cases overlooked
  have notASCII : ¬byteAt bytes 0 < 0x80 := by
    cases overlooked with
    | three => exact (by decide : ¬(0xED : UInt8) < 0x80)
    | four => exact (by decide : ¬(0xF4 : UInt8) < 0x80)
  obtain ⟨-, legal⟩ := isLegalUTF8_of_overlooked more
  have character := readUTF8Sequence_of_overlooked more
  rw [announced_append _ nonempty] at legal character
  rw [hashLoop_sequence terminated nonempty notASCII, if_neg (Nat.not_lt.mpr enough), legal,
    List.drop_append_of_le_length enough]
  generalize readUTF8Sequence (bytes ++ suffix) (announced bytes) = value at character
  rcases character with ⟨least, most⟩ | ⟨least, most⟩
  · have bmp : isBMP value = true := by simp [isBMP]; omega
    have notSurrogate : isSurrogate value = false := by simp [isSurrogate]; omega
    simp only [bmp, notSurrogate]
    exact ⟨_, rfl⟩
  · have bmp : isBMP value = false := by simp [isBMP]; omega
    have supplementary : isSupplementary value = true := by simp [isSupplementary]; omega
    simp only [bmp, supplementary]
    exact ⟨_, rfl⟩

/-- Other bytes end the loop without a hash. -/
theorem hashLoop_unspelled (terminated : Terminated hasEnd bytes suffix) (nonempty : bytes ≠ [])
    (unspelled : Unspelled bytes) (seen : ¬Overlooked bytes) (rounds : Nat) (state : Hashing) :
    hashLoop hasEnd (rounds + 1) (bytes ++ suffix) state = none := by
  have notASCII : ¬byteAt bytes 0 < 0x80 := fun ascii => by
    obtain ⟨a, rest, rfl⟩ := List.exists_cons_of_ne_nil nonempty
    obtain ⟨c, -, spelled⟩ := (Sequence.one (UInt8.lt_iff_toNat_lt.mp ascii)).exists_char
    exact unspelled c rest (by rw [spelled]; rfl)
  rw [hashLoop_sequence terminated nonempty notASCII]
  by_cases short : bytes.length < announced bytes
  · rw [if_pos short]
  · have illegal : isLegalUTF8 (bytes ++ suffix) (announced bytes) = false := by
      refine Bool.eq_false_iff.mpr fun legal => ?_
      rw [← announced_append suffix nonempty] at legal
      have enough : announced (bytes ++ suffix) ≤ (bytes ++ suffix).length := by
        rw [announced_append _ nonempty, List.length_append]
        omega
      rcases sequence_of_isLegalUTF8
        (by simp [nonempty]) enough legal with ⟨piece, code, rest, same, sequence⟩ | overlooked
      · have length := announced_of_sequence sequence rest
        rw [← same, announced_append _ nonempty] at length
        obtain ⟨later, rfl⟩ := exists_append_of_le same (by omega)
        obtain ⟨c, -, spelled⟩ := sequence.exists_char
        exact unspelled c later (by rw [spelled])
      · obtain ⟨piece, rest, same, length, always⟩ := overlooked.exists_piece
        rw [announced_append _ nonempty] at length
        obtain ⟨later, rfl⟩ := exists_append_of_le same (by omega)
        exact seen (always later)
    rw [if_neg short, illegal]
    rfl

theorem hashLoop_isSome_iff (terminated : Terminated hasEnd bytes suffix) {rounds : Nat}
    (enough : (bytes ++ suffix).length ≤ rounds) (state : Hashing) :
    (hashLoop hasEnd rounds (bytes ++ suffix) state).isSome = true ↔ Accepted bytes := by
  induction sizeEq : bytes.length using Nat.strongRecOn generalizing bytes rounds state with
  | ind size ih =>
    by_cases nothing : bytes = []
    · subst nothing
      have whole := @hashLoop_text hasEnd suffix [] terminated rounds enough state
      rw [show utf8 [] = [] from rfl] at whole
      rw [whole]
      exact iff_of_true rfl .nil
    · have positive := List.length_pos_of_ne_nil nothing
      rw [List.length_append] at enough
      obtain ⟨fewer, rfl⟩ : ∃ fewer, rounds = fewer + 1 := ⟨rounds - 1, by omega⟩
      by_cases unspelled : Unspelled bytes
      · by_cases overlooked : Overlooked bytes
        · obtain ⟨next, run⟩ := hashLoop_overlooked terminated overlooked fewer state
          have length : 0 < announced bytes := by
            cases overlooked with
            | three => exact (by decide : 0 < inlineUTF8SequenceLength 0xED)
            | four => exact (by decide : 0 < inlineUTF8SequenceLength 0xF4)
          have shorter : (bytes.drop (announced bytes)).length < size := by
            rw [List.length_drop]
            omega
          rw [run, accepted_overlooked_iff overlooked]
          refine ih _ shorter (@Terminated.drop _ (bytes.take (announced bytes)) _ _ ?_) ?_ next rfl
          · rwa [List.take_append_drop]
          · rw [List.length_append]
            omega
        · rw [hashLoop_unspelled terminated nothing unspelled overlooked]
          exact iff_of_false Bool.false_ne_true (not_accepted nothing unspelled overlooked)
      · simp only [Unspelled, not_forall, not_not] at unspelled
        obtain ⟨c, rest, rfl⟩ := unspelled
        have longer := encode_length_pos c
        rw [List.length_append] at enough sizeEq
        rw [hashLoop_char terminated, accepted_char_iff]
        exact ih rest.length (by omega) terminated.drop (by rw [List.length_append]; omega) _ rfl

end Loop

/-! ### Comparison with UTF-16 -/

/-- A round of the comparison with a string that is not at its end. -/
theorem equalUTF16Loop_step (rounds : Nat) (unit : UChar) (units : List UChar) (byte : UInt8) (rest : List UInt8) :
    equalUTF16WithUTF8Loop (rounds + 1) (unit :: units) (byte :: rest) =
      if unit < 0x80 ∨ byte < 0x80 then
        if unit ≠ byte.toUInt16 then some false else equalUTF16WithUTF8Loop rounds units rest
      else if (byte :: rest).length < inlineUTF8SequenceLengthNonASCII byte then some false
      else if !isLegalUTF8 (byte :: rest) (inlineUTF8SequenceLengthNonASCII byte) then some false
      else
        let character := readUTF8Sequence (byte :: rest) (inlineUTF8SequenceLengthNonASCII byte)
        let later := (byte :: rest).drop (inlineUTF8SequenceLengthNonASCII byte)
        if isBMP character then
          if isSurrogate character then some false
          else if unit ≠ unitOf character then some false
          else equalUTF16WithUTF8Loop rounds units later
        else if isSupplementary character then
          if unit ≠ leadUnit character then some false
          else
            units.head?.bind fun next =>
              if next ≠ trailUnit character then some false else equalUTF16WithUTF8Loop rounds units.tail later
        else some false := by
  rfl

theorem exists_encode_cons (c : Char) (rest : List UInt8) :
    ∃ byte tail, String.utf8EncodeChar c ++ rest = byte :: tail := by
  obtain ⟨byte, tail, same⟩ := List.exists_cons_of_length_pos (encode_length_pos c)
  exact ⟨byte, tail ++ rest, by rw [same, List.cons_append]⟩

/-- The units of a character that is not ASCII are not ASCII. -/
theorem units_not_ascii {c : Char} (large : ¬c.toNat < 0x80) {unit : UChar} {units others : List UChar}
    (same : unit :: units = utf16Units c ++ others) : ¬unit < 0x80 := by
  have valid := toNat_cases c
  rw [UInt16.lt_iff_toNat_lt]
  unfold utf16Units at same
  split at same
  · obtain ⟨rfl, -⟩ := List.cons.inj same
    rw [toNat_unit (by omega)]
    exact large
  · obtain ⟨rfl, -⟩ := List.cons.inj same
    rw [toNat_unit (by omega)]
    simp
    omega

theorem equalUTF16Loop_text {text : List Char} {units : List UChar} (length : units.length = (utf16 text).length)
    {rounds : Nat} (enough : (utf8 text).length ≤ rounds) :
    equalUTF16WithUTF8Loop rounds units (utf8 text) = some (decide (units = utf16 text)) := by
  induction text generalizing units rounds with
  | nil =>
    obtain rfl := List.length_eq_zero_iff.mp length
    cases rounds <;> rfl
  | cons c text ih =>
    rw [utf8_cons] at enough ⊢
    rw [utf16_cons] at length ⊢
    have sequence := sequence_encode c
    have positive := encode_length_pos c
    rw [List.length_append] at enough length
    obtain ⟨fewer, rfl⟩ : ∃ fewer, rounds = fewer + 1 := ⟨rounds - 1, by omega⟩
    have announcedLength := announced_of_sequence sequence (utf8 text)
    have legal := isLegalUTF8_of_sequence sequence (utf8 text)
    have character := readUTF8Sequence_of_sequence sequence (utf8 text)
    have isASCII := ascii_iff c (utf8 text)
    have later : (String.utf8EncodeChar c ++ utf8 text).drop (String.utf8EncodeChar c).length = utf8 text :=
      List.drop_left
    have long : (String.utf8EncodeChar c).length ≤ (String.utf8EncodeChar c ++ utf8 text).length := by
      rw [List.length_append]
      omega
    obtain ⟨unit, units, rfl⟩ := List.exists_cons_of_length_pos (show 0 < units.length by
      have : 0 < (utf16Units c).length := by unfold utf16Units; split <;> simp
      omega)
    by_cases small : c.toNat < 0x80
    · have bmp := utf16Units_bmp (show c.toNat < 0x10000 by omega)
      rw [bmp] at length ⊢
      rw [encode_ascii small, List.singleton_append, List.singleton_append, equalUTF16Loop_step,
        if_pos (.inr (by rw [UInt8.lt_iff_toNat_lt, toNat_byte (by omega)]; exact small)), toUInt16_ofNat (by omega),
          unitOf, Int.toNat_natCast]
      by_cases same : unit = UInt16.ofNat c.toNat
      · rw [if_neg (not_not.mpr same), ih (by simp at length; omega) (by omega)]
        simp [same]
      · rw [if_pos same]
        simp [same]
    · obtain ⟨byte, tail, source⟩ := exists_encode_cons c (utf8 text)
      rw [source] at announcedLength legal character isASCII later long ⊢
      have notASCII : ¬byte < 0x80 := fun ascii => small (isASCII.mp ascii)
      rw [announced_cons] at announcedLength
      rw [equalUTF16Loop_step]
      by_cases ascii : unit < 0x80
      · have different : unit ≠ byte.toUInt16 := by
          rintro rfl
          rw [UInt16.lt_iff_toNat_lt, UInt8.toNat_toUInt16] at ascii
          exact notASCII (UInt8.lt_iff_toNat_lt.mpr ascii)
        have unequal : unit :: units ≠ utf16Units c ++ utf16 text := fun same => units_not_ascii small same ascii
        rw [if_pos (.inl ascii), if_pos different]
        simp [unequal]
      · rw [if_neg (by simp [ascii, notASCII]), lengthNonASCII_eq notASCII, announcedLength,
          if_neg (Nat.not_lt.mpr long), legal]
        simp only [character, later, not_surrogate]
        by_cases bmp : c.toNat < 0x10000
        · rw [utf16Units_bmp bmp] at length ⊢
          simp only [(isBMP_iff _).mpr bmp]
          by_cases same : unit = unitOf c.toNat
          · simp [same, ih (show units.length = _ by simp at length; omega) (show (utf8 text).length ≤ fewer by omega)]
          · simp [same]
        · have notBMP : isBMP c.toNat = false := Bool.eq_false_iff.mpr fun is => bmp ((isBMP_iff _).mp is)
          rw [utf16Units_supplementary bmp] at length ⊢
          simp only [notBMP, isSupplementary_of_char bmp]
          by_cases same : unit = leadUnit c.toNat
          · obtain ⟨next, units, rfl⟩ := List.exists_cons_of_length_pos (show 0 < units.length by simp at length; omega)
            by_cases same' : next = trailUnit c.toNat
            · simp [same, same',
                ih (show units.length = _ by simp at length; omega) (show (utf8 text).length ≤ fewer by omega)]
            · simp [same, same']
          · simp [same]

/-! ### Comparison with Latin-1 -/

theorem equalLatin1Loop_step (rounds : Nat) (unit : UInt8) (units : List UInt8) (byte : UInt8) (rest : List UInt8) :
    equalLatin1WithUTF8Loop (rounds + 1) (unit :: units) (byte :: rest) =
      if unit < 0x80 ∨ byte < 0x80 then
        if unit ≠ byte then some false else equalLatin1WithUTF8Loop rounds units rest
      else match rest with
        | [] => some false
        | second :: later =>
          if byte &&& 0xE0 ≠ 0xC0 ∨ second &&& 0xC0 ≠ 0x80 then some false
          else if unit ≠ (((byte &&& 0x1F) <<< 6) ||| (second &&& 0x3F)) then some false
          else equalLatin1WithUTF8Loop rounds units later := by
  cases rest <;> rfl

/-- What the comparison takes for the same character. -/
def LooksLike (unit : UInt8) (c : Char) : Prop :=
  unit.toNat = c.toNat ∨ (0x80 ≤ unit.toNat ∧ c.toNat < 0x800 ∧ unit.toNat = c.toNat % 256)

theorem twoBytes_eq :
    ∀ high < 32, ∀ low < 64, (UInt8.ofNat (0xC0 + high) &&& 0xE0 = 0xC0 ∧ UInt8.ofNat (0x80 + low) &&& 0xC0 = 0x80) ∧
      ((UInt8.ofNat (0xC0 + high) &&& 0x1F) <<< 6 ||| (UInt8.ofNat (0x80 + low) &&& 0x3F)) =
      UInt8.ofNat (high * 64 + low) := by
  decide +kernel

theorem notTwoBytes {byte : UInt8} (large : 0xE0 ≤ byte.toNat) : byte &&& 0xE0 ≠ 0xC0 := by
  revert byte
  apply forall_byte
  decide +kernel

/-- The comparison cuts the characters to eight bits. -/
theorem equalLatin1Loop_text {text : List Char} {latin1 : List UInt8} (length : latin1.length = (utf16 text).length)
    {rounds : Nat} (enough : (utf8 text).length ≤ rounds) :
      ∃ answer, equalLatin1WithUTF8Loop rounds latin1 (utf8 text) = some answer ∧
      (answer = true ↔ List.Forall₂ LooksLike latin1 text) := by
  induction text generalizing latin1 rounds with
  | nil =>
    obtain rfl := List.length_eq_zero_iff.mp length
    exact ⟨true, by cases rounds <;> rfl, iff_of_true rfl .nil⟩
  | cons c text ih =>
    have valid := toNat_cases c
    rw [utf8_cons] at enough ⊢
    rw [utf16_cons, List.length_append] at length
    have positive := encode_length_pos c
    rw [List.length_append] at enough
    obtain ⟨fewer, rfl⟩ : ∃ fewer, rounds = fewer + 1 := ⟨rounds - 1, by omega⟩
    obtain ⟨unit, latin1, rfl⟩ := List.exists_cons_of_length_pos (show 0 < latin1.length by
      have : 0 < (utf16Units c).length := by unfold utf16Units; split <;> simp
      omega)
    have unitLess := unit.toNat_lt
    have bmpLength (bmp : c.toNat < 0x10000) : latin1.length = (utf16 text).length := by
      rw [utf16Units_bmp bmp, List.length_cons, List.length_singleton] at length
      omega
    by_cases small : c.toNat < 0x80
    · rw [encode_ascii small, List.singleton_append, equalLatin1Loop_step,
        if_pos (.inr (by rw [UInt8.lt_iff_toNat_lt, toNat_byte (by omega)]; exact small)), List.forall₂_cons]
      by_cases same : unit = UInt8.ofNat c.toNat
      · obtain ⟨answer, run, agree⟩ := ih (bmpLength (by omega)) (show (utf8 text).length ≤ fewer by omega)
        refine ⟨answer, by rw [if_neg (not_not.mpr same), run], ?_⟩
        rw [agree, and_iff_right (.inl (by rw [same, toNat_byte (by omega)]))]
      · refine ⟨false, if_pos same, iff_of_false Bool.false_ne_true fun both => same ?_⟩
        rcases both.1 with equal | ⟨high, -, cut⟩
        · rw [← equal, UInt8.ofNat_toNat]
        · omega
    · obtain ⟨byte, tail, source⟩ := exists_encode_cons c (utf8 text)
      have notASCII : ¬byte < 0x80 := fun ascii => small ((ascii_iff c (utf8 text)).mp (by rw [source]; exact ascii))
      rw [List.forall₂_cons]
      by_cases ascii : unit < 0x80
      · have different : unit ≠ byte := fun same => notASCII (same ▸ ascii)
        rw [source, equalLatin1Loop_step, if_pos (.inl ascii), if_pos different]
        refine ⟨false, rfl, iff_of_false Bool.false_ne_true fun both => ?_⟩
        have low : unit.toNat < 0x80 := UInt8.lt_iff_toNat_lt.mp ascii
        rcases both.1 with equal | ⟨high, -, -⟩ <;> omega
      · have high : 0x80 ≤ unit.toNat := Nat.le_of_not_lt fun less => ascii (UInt8.lt_iff_toNat_lt.mpr less)
        by_cases two : c.toNat < 0x800
        · obtain ⟨⟨lead, trail⟩, cut⟩ := twoBytes_eq (c.toNat / 64) (by omega) (c.toNat % 64) (by omega)
          have spelled :
              String.utf8EncodeChar c = [UInt8.ofNat (0xC0 + c.toNat / 64), UInt8.ofNat (0x80 + c.toNat % 64)] := by
            rw [← encodeUTF8_char, encodeUTF8_two _ (by omega) two]
          have first : ¬UInt8.ofNat (0xC0 + c.toNat / 64) < 0x80 := by
            rw [UInt8.lt_iff_toNat_lt, toNat_byte (by omega)]
            simp
            omega
          have whole : c.toNat / 64 * 64 + c.toNat % 64 = c.toNat := by omega
          have cutValue : (UInt8.ofNat c.toNat).toNat = c.toNat % 256 := UInt8.toNat_ofNat'
          rw [spelled, List.cons_append, List.singleton_append, equalLatin1Loop_step,
            if_neg (not_or.mpr ⟨ascii, first⟩)]
          simp only [lead, trail, cut, whole]
          by_cases same : unit = UInt8.ofNat c.toNat
          · obtain ⟨answer, run, agree⟩ := ih (bmpLength (by omega)) (show (utf8 text).length ≤ fewer by omega)
            refine ⟨answer, by simp [same, run], ?_⟩
            rw [agree, and_iff_right (.inr ⟨high, two, by rw [same, cutValue]⟩)]
          · refine ⟨false, by simp [same], iff_of_false Bool.false_ne_true fun both => same ?_⟩
            rw [← UInt8.toNat_inj, cutValue]
            rcases both.1 with equal | ⟨-, -, equal⟩ <;> omega
        · have lead : 0xE0 ≤ byte.toNat := by
            have sequence := sequence_encode c
            generalize String.utf8EncodeChar c = bytes at sequence source
            generalize c.toNat = code at sequence two
            cases sequence with
            | one less => omega
            | two low most tail =>
              have := tail.2
              omega
            | three low most second third least highest =>
              obtain ⟨rfl, -⟩ := List.cons.inj source
              exact low
            | four low most second third last least highest =>
              obtain ⟨rfl, -⟩ := List.cons.inj source
              omega
          rw [source, equalLatin1Loop_step, if_neg (by simp [ascii, notASCII])]
          refine ⟨false, ?_, iff_of_false Bool.false_ne_true fun both => ?_⟩
          · cases tail with
            | nil => rfl
            | cons second rest => exact if_pos (.inl (notTwoBytes lead))
          · rcases both.1 with equal | ⟨-, less, -⟩ <;> omega

/-- The string is the text. -/
theorem latin1_eq_iff {text : List Char} {latin1 : List UInt8} :
    latin1.map UInt8.toUInt16 = utf16 text ↔ List.Forall₂ (fun unit c => unit.toNat = c.toNat) latin1 text := by
  induction text generalizing latin1 with
  | nil =>
    rw [List.forall₂_nil_right_iff]
    exact List.map_eq_nil_iff
  | cons c text ih =>
    have valid := toNat_cases c
    rw [utf16_cons]
    cases latin1 with
    | nil =>
      refine iff_of_false (fun same => ?_) nofun
      unfold utf16Units at same
      split at same <;> cases same
    | cons unit latin1 =>
      have less := unit.toNat_lt
      rw [List.forall₂_cons, ← ih, List.map_cons]
      have head {code : Nat} (small : code < 65536) : unit.toUInt16 = UInt16.ofNat code ↔ unit.toNat = code := by
        rw [← UInt16.toNat_inj, UInt8.toNat_toUInt16, toNat_unit small]
      unfold utf16Units
      split
      · next bmp => rw [List.singleton_append, List.cons.injEq, head bmp]
      · next supplementary =>
        refine iff_of_false (fun same => ?_) fun both => ?_
        · have lead := (head (by omega)).mp (List.cons.inj same).1
          omega
        · have := both.1
          omega

/-! ### Looking up a string -/

/-- The value returned is a hash exactly if the data spells a text, and it is that of the text. The lengths are
`unsigned`. -/
def HashesText (hasEnd : Bool) (bytes suffix : List UInt8) : Prop :=
  ((calculateStringHashAndLengthFromUTF8MaskingTop8Bits hasEnd (some (bytes ++ suffix))).1 ≠ 0 ↔ ∃ text,
    bytes = utf8 text) ∧
  ∀ text, bytes = utf8 text → calculateStringHashAndLengthFromUTF8MaskingTop8Bits hasEnd (some (bytes ++ suffix)) =
    (StringHasher.computeHashAndMaskTop8Bits (utf16 text), some (.ofNat bytes.length, .ofNat (utf16 text).length))

/-- The Latin-1 string is another one and looks like the text. -/
def Confused (latin1 : List UInt8) (text : List Char) : Prop :=
  List.Forall₂ LooksLike latin1 text ∧ latin1.map UInt8.toUInt16 ≠ utf16 text

theorem calculate_ne_zero_iff {hasEnd : Bool} {bytes suffix : List UInt8}
    (terminated : Terminated hasEnd bytes suffix) :
    (calculateStringHashAndLengthFromUTF8MaskingTop8Bits hasEnd (some (bytes ++ suffix))).1 ≠ 0 ↔ Accepted bytes := by
  rw [← hashLoop_isSome_iff terminated (Nat.le_refl _) ⟨.start, 0, 0⟩,
    calculateStringHashAndLengthFromUTF8MaskingTop8Bits]
  cases hashLoop hasEnd (bytes ++ suffix).length (bytes ++ suffix) ⟨.start, 0, 0⟩ with
  | none => exact iff_of_false (fun different => different rfl) Bool.false_ne_true
  | some state => exact iff_of_true state.hasher.hashWithTop8BitsMasked_ne_zero rfl

theorem hashesText_iff {hasEnd : Bool} {bytes suffix : List UInt8} (terminated : Terminated hasEnd bytes suffix) :
    HashesText hasEnd bytes suffix ↔ (Accepted bytes → ∃ text, bytes = utf8 text) := by
  rw [HashesText, calculate_ne_zero_iff terminated]
  refine ⟨fun both => both.1.mp, fun honest => ⟨⟨honest, ?_⟩, ?_⟩⟩
  · rintro ⟨text, rfl⟩
    exact accepted_utf8 text
  · rintro text rfl
    rw [calculateStringHashAndLengthFromUTF8MaskingTop8Bits]
    simp only [hashLoop_text terminated (Nat.le_refl _), UInt32.zero_add]
    rw [StringHasher.computeHashAndMaskTop8Bits, StringHasher.start, StringHasher.addString_eq]

/-- Data is looked up like the string it spells exactly if it is no data with overlooked sequences only,
and the Latin-1 string is not one that merely looks like it. -/
theorem lookupByUTF8_iff (bytes suffix : List UInt8) :
    (∀ hasEnd, Terminated hasEnd bytes suffix →
      (HashesText hasEnd bytes suffix ↔ (Accepted bytes → ∃ text, bytes = utf8 text))) ∧
    ∀ text, bytes = utf8 text →
      (∀ units : List UChar, units.length = (utf16 text).length → equalUTF16WithUTF8 units bytes =
      some (decide (units = utf16 text))) ∧
      ∀ latin1 : List UInt8, latin1.length = (utf16 text).length →
        (equalLatin1WithUTF8 latin1 bytes = some (decide (latin1.map UInt8.toUInt16 = utf16 text)) ↔
        ¬Confused latin1 text) := by
  refine ⟨fun hasEnd terminated => hashesText_iff terminated, ?_⟩
  rintro text rfl
  refine ⟨fun units length => equalUTF16Loop_text length (Nat.le_refl _), fun latin1 length => ?_⟩
  obtain ⟨answer, run, agree⟩ := equalLatin1Loop_text length (Nat.le_refl _)
  rw [equalLatin1WithUTF8, run, Option.some_inj, Bool.eq_iff_iff, agree, decide_eq_true_iff, Confused]
  have looks : latin1.map UInt8.toUInt16 = utf16 text → List.Forall₂ LooksLike latin1 text := fun same =>
    (latin1_eq_iff.mp same).imp fun _ _ => .inl
  exact ⟨fun exact both => both.2 (exact.mp both.1),
    fun honest => ⟨fun alike => not_not.mp fun other => honest ⟨alike, other⟩, looks⟩⟩

/-- The bytes ED 20 80 spell no text and have a hash, and the string of the one character U+0080 is taken
for the character U+0180. -/
theorem lookupByUTF8_differs :
    ((∀ text, [0xED, 0x20, 0x80] ≠ utf8 text) ∧
      (calculateStringHashAndLengthFromUTF8MaskingTop8Bits true (some [0xED, 0x20, 0x80])).1 ≠ 0) ∧
    (utf8 [Char.ofNat 0x180] = [0xC6, 0x80] ∧ utf16 [Char.ofNat 0x180] = [0x180] ∧
      equalLatin1WithUTF8 [0x80] [0xC6, 0x80] = some true) := by
  have overlooked : Overlooked [0xED, 0x20, 0x80] := .three [] (by decide) ⟨by decide, by decide⟩
  refine ⟨⟨fun text same => ?_, by decide⟩, by decide, by decide, by decide⟩
  cases text with
  | nil => cases same
  | cons c text => exact overlooked.unspelled c (utf8 text) same

end WebNode.Wtf
