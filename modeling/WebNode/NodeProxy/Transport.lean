import WebNode.Wtf.EncodedBytes
import WebNode.V8.Unicode

/-! A string on its way between the engines: encoded by WTF, decoded by V8. -/
namespace WebNode.NodeProxy

open Wtf V8

/-- The characters that a lenient reading of UTF-16 finds; unpaired surrogates are
characters of their own. -/
def codePoints : List UChar → List Nat
  | [] => []
  | [unit] => [unit.toNat]
  | unit :: next :: rest =>
    if isHighSurrogate unit && isLowSurrogate next then combineSurrogates unit next :: codePoints rest
    else unit.toNat :: codePoints (next :: rest)

section Bytes

theorem shift6_or (high : Nat) {low : Nat} (small : low < 64) : high <<< 6 ||| low = high * 64 + low := by
  rw [← Nat.shiftLeft_add_eq_or_of_lt (by simpa using small), Nat.shiftLeft_eq]

/-- A continuation byte as the decoder sees it. -/
theorem continuation_xor {low : Nat} (small : low < 64) :
    (UInt8.ofNat (0x80 + low)).toNat ^^^ 0x80 = low ∧ low &&& 0xC0 = 0 := by
  revert low
  decide

variable (ch : Nat)

/-- A lead byte keeps its value as an 8-bit number. -/
private theorem toNat_lead {lead : Nat} (small : lead < 256) : (UInt8.ofNat lead).toNat = lead := by
  simp [Nat.mod_eq_of_lt small]

theorem calculateValue_two (large : 0x80 ≤ ch) (small : ch < 0x800) (tail : List UInt8) :
    calculateValue (0xC0 + ch / 64) (UInt8.ofNat (0x80 + ch % 64) :: tail) = (ch, 2) := by
  obtain ⟨second, clear⟩ := continuation_xor (show ch % 64 < 64 by omega)
  have value : ((0xC0 + ch / 64) * 64 + ch % 64) % 2048 = ch := by omega
  have mask (number : Nat) : number &&& 0x7ff = number % 2048 := Nat.and_two_pow_sub_one_eq_mod number 11
  simp only [calculateValue, second, clear, shift6_or _ (show ch % 64 < 64 by omega), mask, value]
  rw [if_neg (by simp), if_pos (by omega), if_neg (by omega), if_neg (by omega)]

theorem calculateValue_three (large : 0x800 ≤ ch) (small : ch < 0x10000) (tail : List UInt8) :
    calculateValue (0xE0 + ch / 64 / 64)
      (UInt8.ofNat (0x80 + ch / 64 % 64) :: UInt8.ofNat (0x80 + ch % 64) :: tail) = (ch, 3) := by
  obtain ⟨second, clear⟩ := continuation_xor (show ch / 64 % 64 < 64 by omega)
  obtain ⟨third, clear'⟩ := continuation_xor (show ch % 64 < 64 by omega)
  have value : ((((0xE0 + ch / 64 / 64) * 64 + ch / 64 % 64) * 64) + ch % 64) % 65536 = ch := by omega
  have mask (number : Nat) : number &&& 0xffff = number % 65536 := Nat.and_two_pow_sub_one_eq_mod number 16
  simp only [calculateValue, second, clear, third, clear',
    shift6_or _ (show ch / 64 % 64 < 64 by omega), shift6_or _ (show ch % 64 < 64 by omega), mask, value]
  rw [if_neg (by simp), if_neg (by omega), if_neg (by simp), if_pos (by omega), if_neg (by omega)]

theorem calculateValue_four (large : 0x10000 ≤ ch) (small : ch < 0x110000) (tail : List UInt8) :
    calculateValue (0xF0 + ch / 64 / 64 / 64)
      (UInt8.ofNat (0x80 + ch / 64 / 64 % 64) :: UInt8.ofNat (0x80 + ch / 64 % 64) ::
        UInt8.ofNat (0x80 + ch % 64) :: tail) = (ch, 4) := by
  obtain ⟨second, clear⟩ := continuation_xor (show ch / 64 / 64 % 64 < 64 by omega)
  obtain ⟨third, clear'⟩ := continuation_xor (show ch / 64 % 64 < 64 by omega)
  obtain ⟨fourth, clear''⟩ := continuation_xor (show ch % 64 < 64 by omega)
  have value : ((((((0xF0 + ch / 64 / 64 / 64) * 64 + ch / 64 / 64 % 64) * 64) + ch / 64 % 64) * 64) +
      ch % 64) % 2097152 = ch := by omega
  have mask (number : Nat) : number &&& 0x1fffff = number % 2097152 :=
    Nat.and_two_pow_sub_one_eq_mod number 21
  simp only [calculateValue, second, clear, third, clear', fourth, clear'',
    shift6_or _ (show ch / 64 / 64 % 64 < 64 by omega), shift6_or _ (show ch / 64 % 64 < 64 by omega),
    shift6_or _ (show ch % 64 < 64 by omega), mask, value]
  rw [if_neg (by simp), if_neg (by omega), if_neg (by simp), if_neg (by omega), if_neg (by simp),
    if_pos (by omega), if_neg (by omega)]

/-- V8 reads back one character that WTF wrote. -/
theorem decode_encodeUTF8 (small : ch < 0x110000) (tail : List UInt8) :
    decode (encodeUTF8 ch ++ tail) = utf16Units ch ++ decode tail := by
  rcases Nat.lt_or_ge ch 0x80 with one | more
  · rw [encodeUTF8_ascii ch one, List.singleton_append, decode]
    simp [valueOf, toNat_lead (show ch < 256 by omega), show ch ≤ 0x7f by omega]
  rcases Nat.lt_or_ge ch 0x800 with two | more
  · rw [encodeUTF8_two ch (by omega) two, List.cons_append, decode, valueOf, toNat_lead (by omega),
      if_neg (by omega), List.cons_append, calculateValue_two ch (by omega) two]
    rfl
  rcases Nat.lt_or_ge ch 0x10000 with three | more
  · rw [encodeUTF8_three ch (by omega) three, List.cons_append, decode, valueOf, toNat_lead (by omega),
      if_neg (by omega), List.cons_append, List.cons_append, calculateValue_three ch (by omega) three]
    rfl
  · rw [encodeUTF8_four ch (by omega) small, List.cons_append, decode, valueOf, toNat_lead (by omega),
      if_neg (by omega), List.cons_append, List.cons_append, List.cons_append,
      calculateValue_four ch (by omega) small]
    rfl

end Bytes

section Units

theorem isHighSurrogate_iff (unit : UChar) :
    isHighSurrogate unit = true ↔ 0xD800 ≤ unit.toNat ∧ unit.toNat ≤ 0xDBFF := by
  simp [isHighSurrogate, UInt16.le_iff_toNat_le]

theorem isLowSurrogate_iff (unit : UChar) :
    isLowSurrogate unit = true ↔ 0xDC00 ≤ unit.toNat ∧ unit.toNat ≤ 0xDFFF := by
  simp [isLowSurrogate, UInt16.le_iff_toNat_le]

variable {high low : UChar}

theorem combineSurrogates_eq : combineSurrogates high low =
    (high.toNat - 0xD800) * 1024 + (low.toNat - 0xDC00) + 0x10000 := by
  rw [combineSurrogates, Nat.shiftLeft_eq]

theorem combineSurrogates_lt (isHigh : isHighSurrogate high = true) (isLow : isLowSurrogate low = true) :
    0x10000 ≤ combineSurrogates high low ∧ combineSurrogates high low < 0x110000 := by
  rw [isHighSurrogate_iff] at isHigh
  rw [isLowSurrogate_iff] at isLow
  rw [combineSurrogates_eq]
  omega

/-- V8 splits a character into the surrogates that WTF combined. -/
theorem utf16Units_combine (isHigh : isHighSurrogate high = true) (isLow : isLowSurrogate low = true) :
    utf16Units (combineSurrogates high low) = [high, low] := by
  have large := (combineSurrogates_lt isHigh isLow).1
  rw [isHighSurrogate_iff] at isHigh
  rw [isLowSurrogate_iff] at isLow
  have mask (number : Nat) : number &&& 0x3ff = number % 1024 := Nat.and_two_pow_sub_one_eq_mod number 10
  have lead : leadSurrogate (combineSurrogates high low) = high := by
    have value : 0xd800 + (combineSurrogates high low - 0x10000) / 2 ^ 10 % 1024 = high.toNat := by
      rw [combineSurrogates_eq]
      omega
    rw [leadSurrogate, Nat.shiftRight_eq_div_pow, mask, value, UInt16.ofNat_toNat]
  have trail : trailSurrogate (combineSurrogates high low) = low := by
    have value : 0xdc00 + combineSurrogates high low % 1024 = low.toNat := by
      rw [combineSurrogates_eq]
      omega
    rw [trailSurrogate, mask, value, UInt16.ofNat_toNat]
  rw [utf16Units, if_pos (by omega), lead, trail]

theorem utf16Units_unit (unit : UChar) : utf16Units unit.toNat = [unit] := by
  have bounded := unit.toNat_lt
  rw [utf16Units, if_neg (by omega), UInt16.ofNat_toNat]

theorem codePoints_lt (units : List UChar) : ∀ ch ∈ codePoints units, ch < 0x110000 := by
  have single (unit : UChar) : unit.toNat < 0x110000 := lt_trans unit.toNat_lt (by decide)
  fun_induction codePoints units with
  | case1 => simp
  | case2 unit => simpa using single unit
  | case3 unit next rest pair ih =>
    obtain ⟨isHigh, isLow⟩ := Bool.and_eq_true_iff.mp pair
    simpa using ⟨(combineSurrogates_lt isHigh isLow).2, ih⟩
  | case4 unit next rest _ ih => simpa using ⟨single unit, ih⟩

theorem utf16Units_codePoints (units : List UChar) : (codePoints units).flatMap utf16Units = units := by
  fun_induction codePoints units with
  | case1 => rfl
  | case2 unit => simp [utf16Units_unit]
  | case3 unit next rest pair ih =>
    obtain ⟨isHigh, isLow⟩ := Bool.and_eq_true_iff.mp pair
    simp [utf16Units_combine isHigh isLow, ih]
  | case4 unit next rest _ ih => simp [utf16Units_unit, ih]

theorem decode_flatMap {characters : List Nat} (small : ∀ ch ∈ characters, ch < 0x110000)
    (tail : List UInt8) :
    decode (characters.flatMap encodeUTF8 ++ tail) = characters.flatMap utf16Units ++ decode tail := by
  induction characters with
  | nil => rfl
  | cons ch rest ih =>
    rw [List.flatMap_cons, List.append_assoc, decode_encodeUTF8 ch (small ch (by simp)),
      ih fun later member => small later (by simp [member]), List.flatMap_cons, List.append_assoc]

/-- The bytes of a string: what both conversions write. -/
def encodeUnits (units : List UChar) : List UInt8 := (codePoints units).flatMap encodeUTF8

/-- V8 reads back every string, unpaired surrogates included. -/
theorem decode_encodeUnits (units : List UChar) (tail : List UInt8) :
    decode (encodeUnits units ++ tail) = units ++ decode tail := by
  rw [encodeUnits, decode_flatMap (codePoints_lt units), utf16Units_codePoints]

end Units

section Conversions

theorem encodeUTF8_length (ch : Nat) : (encodeUTF8 ch).length ≤ 4 ∧
    (ch < 0x10000 → (encodeUTF8 ch).length ≤ 3) := by
  unfold encodeUTF8
  repeat' split
  all_goals simp [putBytes]
  omega

theorem finish_write {source : List UChar} {bytes : List UInt8} {room : Nat} {rest : Nat → Conversion}
    (enough : bytes.length ≤ room) :
    (Conversion.write source bytes room rest).finish = bytes ++ (rest (room - bytes.length)).finish := by
  rw [Conversion.write, if_neg (by omega)]
  unfold Conversion.finish
  split <;> simp_all

/-- A unit that starts no pair is converted by itself. -/
theorem convert_single {unit next : UChar} {rest : List UChar} {room : Nat}
    (single : ¬ (isHighSurrogate unit && isLowSurrogate next) = true) :
    convertUTF16ToUTF8 false (unit :: next :: rest) room =
      Conversion.write (unit :: next :: rest) (encodeUTF8 unit.toNat) room
        (convertUTF16ToUTF8 false (next :: rest)) := by
  rw [convertUTF16ToUTF8.eq_def]
  cases isHigh : isHighSurrogate unit with
  | false => simp [isHigh]
  | true =>
    have notLow : isLowSurrogate next = false := by simpa [isHigh] using single
    simp [isHigh, notLow]

theorem utf8Impl_eq (units : List UChar) {room : Nat} (enough : units.length * 3 ≤ room) :
    utf8Impl units room = encodeUnits units := by
  unfold utf8Impl encodeUnits
  fun_induction codePoints units generalizing room with
  | case1 => rfl
  | case2 unit =>
    have short := (encodeUTF8_length unit.toNat).2 unit.toNat_lt
    rw [convertUTF16ToUTF8.eq_def]
    cases isHigh : isHighSurrogate unit with
    | false =>
      simp only [isHigh, Bool.false_and, Bool.false_eq_true, if_false]
      rw [finish_write (by simp at enough; omega)]
      rfl
    | true =>
      have range := (isHighSurrogate_iff unit).mp isHigh
      simp [isHigh, Conversion.finish, encodeUTF8, show ¬ unit.toNat < 0x80 by omega,
        show ¬ unit.toNat < 0x800 by omega, show unit.toNat < 0x10000 by omega]
  | case3 unit next rest pair ih =>
    obtain ⟨isHigh, isLow⟩ := Bool.and_eq_true_iff.mp pair
    have short := (encodeUTF8_length (combineSurrogates unit next)).1
    simp only [List.length_cons] at enough
    rw [convertUTF16ToUTF8.eq_def]
    simp only [isHigh, isLow, if_true]
    rw [finish_write (by omega), ih (by omega), List.flatMap_cons]
  | case4 unit next rest single ih =>
    have short := (encodeUTF8_length unit.toNat).2 unit.toNat_lt
    simp only [List.length_cons] at enough
    rw [convert_single single, finish_write (by omega), ih (by simp; omega), List.flatMap_cons]

/-- An 8-bit string has no surrogates, and its conversion is the same. -/
theorem convertLatin1_eq {units : List UChar} (narrow : ∀ unit ∈ units, unit.toNat < 256) {room : Nat}
    (enough : units.length * 3 ≤ room) :
    (convertLatin1ToUTF8 units room).target = units.flatMap (fun unit => encodeUTF8 unit.toNat) := by
  induction units generalizing room with
  | nil => rfl
  | cons unit rest ih =>
    have small := narrow unit (by simp)
    have short := (encodeUTF8_length unit.toNat).2 (by omega)
    have bytes : (if unit.toNat < 0x80 then putBytes 1 1 unit.toNat [] else putBytes 2 2 unit.toNat []) =
        encodeUTF8 unit.toNat := by
      simp [encodeUTF8, show unit.toNat < 0x800 by omega]
    simp only [List.length_cons] at enough
    rw [convertLatin1ToUTF8, bytes, Conversion.write, if_neg (by omega)]
    simp only [List.flatMap_cons]
    rw [ih (fun later member => narrow later (by simp [member])) (by omega)]

theorem codePoints_narrow {units : List UChar} (narrow : ∀ unit ∈ units, unit.toNat < 256) :
    codePoints units = units.map (·.toNat) := by
  fun_induction codePoints units with
  | case1 => rfl
  | case2 unit => rfl
  | case3 unit next rest pair ih =>
    have isHigh := (isHighSurrogate_iff unit).mp (Bool.and_eq_true_iff.mp pair).1
    have small := narrow unit (by simp)
    omega
  | case4 unit next rest _ ih =>
    rw [ih fun later member => narrow later (List.mem_cons_of_mem _ member)]
    rfl

theorem utf8_eq (string : StringImpl) : string.utf8 =
    if string.units.length > 1431655765 then none else some (encodeUnits string.units) := by
  unfold StringImpl.utf8
  split
  · rename_i empty
    rw [List.eq_nil_of_length_eq_zero empty]
    rfl
  · split
    · rfl
    · split
      · rename_i is8Bit
        have narrow := string.narrow is8Bit
        rw [convertLatin1_eq narrow le_rfl, encodeUnits, codePoints_narrow narrow, List.flatMap_map]
      · rw [utf8Impl_eq _ le_rfl]

end Conversions

section CStrings

theorem encodeUTF8_ne_zero {ch : Nat} (positive : 0 < ch) (small : ch < 0x110000) :
    ∀ byte ∈ encodeUTF8 ch, byte ≠ 0 := by
  have nonzero {value : Nat} (positive : 0 < value) (small : value < 256) : UInt8.ofNat value ≠ 0 := by
    intro zero
    have same := congrArg UInt8.toNat zero
    simp [Nat.mod_eq_of_lt small] at same
    omega
  rcases Nat.lt_or_ge ch 0x80 with one | more
  · rw [encodeUTF8_ascii ch one, List.forall_mem_singleton]
    exact nonzero positive (by omega)
  rcases Nat.lt_or_ge ch 0x800 with two | more
  · rw [encodeUTF8_two ch (by omega) two]
    simp only [List.forall_mem_cons]
    exact ⟨nonzero (by omega) (by omega), nonzero (by omega) (by omega), by simp⟩
  rcases Nat.lt_or_ge ch 0x10000 with three | more
  · rw [encodeUTF8_three ch (by omega) three]
    simp only [List.forall_mem_cons]
    exact ⟨nonzero (by omega) (by omega), nonzero (by omega) (by omega),
      nonzero (by omega) (by omega), by simp⟩
  · rw [encodeUTF8_four ch (by omega) small]
    simp only [List.forall_mem_cons]
    exact ⟨nonzero (by omega) (by omega), nonzero (by omega) (by omega),
      nonzero (by omega) (by omega), nonzero (by omega) (by omega), by simp⟩

theorem takeWhile_encodeUTF8 {ch : Nat} (positive : 0 < ch) (small : ch < 0x110000) (tail : List UInt8) :
    (encodeUTF8 ch ++ tail).takeWhile (· != 0) = encodeUTF8 ch ++ tail.takeWhile (· != 0) := by
  apply List.takeWhile_append_of_pos
  intro byte member
  simpa using encodeUTF8_ne_zero positive small byte member

theorem takeWhile_zero (tail : List UInt8) : (encodeUTF8 0 ++ tail).takeWhile (· != 0) = [] := rfl

theorem encodeUnits_single {unit : UChar} {rest : List UChar}
    (single : ∀ next, rest.head? = some next → ¬ (isHighSurrogate unit && isLowSurrogate next) = true) :
    encodeUnits (unit :: rest) = encodeUTF8 unit.toNat ++ encodeUnits rest := by
  cases rest with
  | nil => simp [encodeUnits, codePoints]
  | cons next later => simp [encodeUnits, codePoints, single next rfl]

private theorem toNat_pos {unit : UChar} (nonzero : unit ≠ 0) : 0 < unit.toNat :=
  Nat.pos_of_ne_zero fun zero => nonzero (UInt16.toNat_inj.mp zero)

private theorem takeWhile_single {unit : UChar} {rest : List UChar}
    (single : ∀ next, rest.head? = some next → ¬ (isHighSurrogate unit && isLowSurrogate next) = true)
    (ih : (encodeUnits rest).takeWhile (· != 0) = encodeUnits (rest.takeWhile (· != 0))) :
    (encodeUnits (unit :: rest)).takeWhile (· != 0) =
      encodeUnits ((unit :: rest).takeWhile (· != 0)) := by
  rw [encodeUnits_single single]
  by_cases zero : unit = 0
  · subst zero
    rw [List.takeWhile_cons_of_neg (by simp)]
    exact takeWhile_zero _
  · have apart : ∀ next, (rest.takeWhile (· != 0)).head? = some next →
        ¬ (isHighSurrogate unit && isLowSurrogate next) = true := by
      intro next first
      refine single next ?_
      cases rest with
      | nil => simp at first
      | cons head later =>
        rw [List.takeWhile_cons] at first
        split at first
        · exact first
        · cases first
    rw [takeWhile_encodeUTF8 (toNat_pos zero) (lt_trans unit.toNat_lt (by decide)), ih,
      List.takeWhile_cons_of_pos (by simpa using zero), encodeUnits_single apart]

/-- As a C string the bytes end where the string has its first NUL. -/
theorem takeWhile_encodeUnits (units : List UChar) :
    (encodeUnits units).takeWhile (· != 0) = encodeUnits (units.takeWhile (· != 0)) := by
  fun_induction codePoints units with
  | case1 => rfl
  | case2 unit => exact takeWhile_single (by simp) rfl
  | case3 unit next rest pair ih =>
    obtain ⟨isHigh, isLow⟩ := Bool.and_eq_true_iff.mp pair
    obtain ⟨large, small⟩ := combineSurrogates_lt isHigh isLow
    have highNonzero : unit ≠ 0 := by
      intro zero
      simp [zero, isHighSurrogate_iff] at isHigh
    have lowNonzero : next ≠ 0 := by
      intro zero
      simp [zero, isLowSurrogate_iff] at isLow
    have encoded (later : List UChar) : encodeUnits (unit :: next :: later) =
        encodeUTF8 (combineSurrogates unit next) ++ encodeUnits later := by
      simp [encodeUnits, codePoints, isHigh, isLow]
    rw [encoded, takeWhile_encodeUTF8 (by omega) small, ih,
      List.takeWhile_cons_of_pos (by simpa using highNonzero),
      List.takeWhile_cons_of_pos (by simpa using lowNonzero), encoded]
  | case4 unit next rest single ih =>
    refine takeWhile_single ?_ ih
    intro head first
    obtain rfl : next = head := by simpa using first
    exact single

end CStrings

end WebNode.NodeProxy
