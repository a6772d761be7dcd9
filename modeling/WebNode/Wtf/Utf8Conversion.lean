import WebNode.Wtf.EncodedBytes
import WebNode.Wtf.Utf8Sequences

/-!
# Conversions between UTF-8 and UTF-16

A conversion of a text writes the characters that fit and stops before the next one, so that it can
go on in another buffer. Other bytes stop the decoder, unless its check overlooks them.
-/

namespace WebNode.Wtf

open WebNode.Lib.Unicode

/-! ### One character -/

theorem isBMP_iff (code : Nat) : isBMP code = true ↔ code < 0x10000 := by
  simp [isBMP]
  omega

theorem not_surrogate (c : Char) : isSurrogate c.toNat = false := by
  have valid := toNat_cases c
  simp [isSurrogate]
  omega

theorem isSupplementary_of_char {c : Char} (large : ¬c.toNat < 0x10000) : isSupplementary c.toNat = true := by
  have valid := toNat_cases c
  simp [isSupplementary]
  omega

theorem utf16Units_bmp {c : Char} (small : c.toNat < 0x10000) : utf16Units c = [unitOf c.toNat] := by
  rw [utf16Units, if_pos small, unitOf, Int.toNat_natCast]

theorem utf16Units_supplementary {c : Char} (large : ¬c.toNat < 0x10000) :
    utf16Units c = [leadUnit c.toNat, trailUnit c.toNat] := by
  rw [utf16Units, if_neg large, leadUnit_eq (by omega), trailUnit_eq (by omega)]

section Decoding

variable (strict : Bool)

/-- The decoder reads a character if there is room for it. -/
theorem convertLoop_char (c : Char) (rest : List UInt8) (rounds room : Nat) : ∃ mark,
    convertUTF8ToUTF16Loop strict (rounds + 1) (String.utf8EncodeChar c ++ rest) room =
      if room < (utf16Units c).length then .stop .targetExhausted (String.utf8EncodeChar c ++ rest)
      else .put (utf16Units c) mark (convertUTF8ToUTF16Loop strict rounds rest (room - (utf16Units c).length)) := by
  have sequence := sequence_encode c
  have length := announced_of_sequence sequence rest
  have legal := isLegalUTF8_of_sequence sequence rest
  have character := readUTF8Sequence_of_sequence sequence rest
  obtain ⟨source, source_eq⟩ : ∃ source, source = String.utf8EncodeChar c ++ rest := ⟨_, rfl⟩
  have later : source.drop (String.utf8EncodeChar c).length = rest := by rw [source_eq, List.drop_left]
  have enough : (String.utf8EncodeChar c).length ≤ source.length := by rw [source_eq, List.length_append]; omega
  rw [← source_eq] at length legal character ⊢
  obtain ⟨byte, tail, rfl⟩ := List.exists_cons_of_length_pos (Nat.lt_of_lt_of_le (encode_length_pos c) enough)
  rw [announced_cons] at length
  refine ⟨if c.toNat < 0x10000 then unitOf c.toNat else 0xFFFF, ?_⟩
  simp only [convertUTF8ToUTF16Loop, length]
  rw [if_neg (Nat.not_lt.mpr enough), legal, character, later, not_surrogate]
  by_cases small : c.toNat < 0x10000
  · rw [utf16Units_bmp small, (isBMP_iff _).mpr small, if_pos small]
    by_cases full : room = 0
    · rw [full]
      rfl
    · simp [full, show ¬room < 1 by omega]
  · have notBMP : isBMP c.toNat = false := Bool.eq_false_iff.mpr fun bmp => small ((isBMP_iff _).mp bmp)
    rw [utf16Units_supplementary small, notBMP, isSupplementary_of_char small, if_neg small]
    by_cases full : room = 0
    · rw [full]
      rfl
    · simp [full]

/-- Bytes that spell no character stop the decoder. -/
theorem convertLoop_unspelled {source : List UInt8} (nonempty : source ≠ []) (unspelled : Unspelled source)
    (seen : ¬Overlooked source) (rounds room : Nat) : convertUTF8ToUTF16Loop strict (rounds + 1) source room =
      .stop (if source.length < announced source then .sourceExhausted else .sourceIllegal) source := by
  obtain ⟨byte, rest, rfl⟩ := List.exists_cons_of_ne_nil nonempty
  rw [announced_cons]
  simp only [convertUTF8ToUTF16Loop]
  by_cases short : (byte :: rest).length < inlineUTF8SequenceLength byte
  · rw [if_pos short, if_pos short]
  · rw [if_neg short, if_neg short]
    have illegal : isLegalUTF8 (byte :: rest) (inlineUTF8SequenceLength byte) = false := by
      refine Bool.eq_false_iff.mpr fun legal => ?_
      rcases sequence_of_isLegalUTF8 nonempty (Nat.not_lt.mp short) legal with
        ⟨bytes, code, later, same, sequence⟩ | overlooked
      · obtain ⟨c, -, spelled⟩ := sequence.exists_char
        exact unspelled c later (by rw [spelled, same])
      · exact seen overlooked
    rw [illegal]
    rfl

/-- An overlooked sequence does not stop the decoder as it should. -/
theorem convertLoop_overlooked {source : List UInt8} (overlooked : Overlooked source) (rounds room : Nat) :
    (convertUTF8ToUTF16Loop strict (rounds + 1) source room).result = .targetExhausted ∨
      (convertUTF8ToUTF16Loop strict (rounds + 1) source room).target ≠ [] := by
  obtain ⟨enough, legal⟩ := isLegalUTF8_of_overlooked overlooked
  have character := readUTF8Sequence_of_overlooked overlooked
  obtain ⟨byte, rest, rfl⟩ : ∃ byte rest, source = byte :: rest := by
    cases overlooked with
    | three => exact ⟨_, _, rfl⟩
    | four => exact ⟨_, _, rfl⟩
  rw [announced_cons] at enough legal character
  simp only [convertUTF8ToUTF16Loop]
  rw [if_neg (Nat.not_lt.mpr enough), legal]
  obtain ⟨value, value_eq⟩ : ∃ value, value = readUTF8Sequence (byte :: rest) (inlineUTF8SequenceLength byte) :=
    ⟨_, rfl⟩
  simp only [← value_eq] at character ⊢
  by_cases full : room = 0
  · simp [full, Decoding.stop]
  · rcases character with ⟨least, most⟩ | ⟨least, most⟩
    · have bmp : isBMP value = true := by simp [isBMP]; omega
      have notSurrogate : isSurrogate value = false := by simp [isSurrogate]; omega
      simp [full, bmp, notSurrogate, Decoding.put]
    · have bmp : isBMP value = false := by simp [isBMP]; omega
      have supplementary : isSupplementary value = true := by simp [isSupplementary]; omega
      by_cases tight : room < 2 <;> simp [full, bmp, supplementary, tight, Decoding.put, Decoding.stop]

/-! ### A text and what comes behind it -/

/-- The decoder reads a text for which there is room. -/
theorem convertLoop_text (text : List Char) (rest : List UInt8) {rounds room : Nat}
    (enough : (utf8 text ++ rest).length ≤ rounds) (fits : (utf16 text).length ≤ room) :
      ∃ mark rounds', rest.length ≤ rounds' ∧ convertUTF8ToUTF16Loop strict rounds (utf8 text ++ rest) room =
        .put (utf16 text) mark (convertUTF8ToUTF16Loop strict rounds' rest (room - (utf16 text).length)) := by
  induction text generalizing rounds room with
  | nil =>
    refine ⟨0, rounds, enough, ?_⟩
    show convertUTF8ToUTF16Loop strict rounds rest room = .put [] 0 (convertUTF8ToUTF16Loop strict rounds rest room)
    simp [Decoding.put]
  | cons c text ih =>
    rw [utf16_cons, List.length_append] at fits ⊢
    rw [utf8_cons, List.append_assoc] at enough ⊢
    have positive := encode_length_pos c
    rw [List.length_append] at enough
    obtain ⟨fewer, rfl⟩ : ∃ fewer, rounds = fewer + 1 := ⟨rounds - 1, by omega⟩
    obtain ⟨mark, step⟩ := convertLoop_char strict c (utf8 text ++ rest) fewer room
    obtain ⟨mark', rounds', enough', run⟩ := @ih fewer (room - (utf16Units c).length) (by omega) (by omega)
    refine ⟨mark ||| mark', rounds', enough', ?_⟩
    rw [step, if_neg (by omega), run, Nat.sub_sub]
    simp [Decoding.put, UInt16.or_assoc]

/-- The decoder stops before the first character for which there is no room. -/
theorem convertLoop_full (text : List Char) (rest : List UInt8) {rounds room : Nat}
    (enough : (utf8 text ++ rest).length ≤ rounds) (full : room < (utf16 text).length) :
      ∃ done c later mark, text = done ++ c :: later ∧ (utf16 done).length ≤ room ∧
      room < (utf16 done).length + (utf16Units c).length ∧
      convertUTF8ToUTF16Loop strict rounds (utf8 text ++ rest) room =
        .put (utf16 done) mark (.stop .targetExhausted (utf8 (c :: later) ++ rest)) := by
  induction text generalizing rounds room with
  | nil => exact absurd full (Nat.not_lt_zero room)
  | cons c text ih =>
    rw [utf8_cons, List.append_assoc] at enough ⊢
    have positive := encode_length_pos c
    rw [List.length_append] at enough
    obtain ⟨fewer, rfl⟩ : ∃ fewer, rounds = fewer + 1 := ⟨rounds - 1, by omega⟩
    obtain ⟨mark, step⟩ := convertLoop_char strict c (utf8 text ++ rest) fewer room
    by_cases tight : room < (utf16Units c).length
    · refine ⟨[], c, text, 0, rfl, Nat.zero_le room,
        by rw [utf16, List.flatMap_nil, List.length_nil, Nat.zero_add]; exact tight, ?_⟩
      rw [step, if_pos tight, utf8_cons, List.append_assoc]
      simp [Decoding.put, Decoding.stop, utf16]
    · rw [utf16_cons, List.length_append] at full
      obtain ⟨done, next, later, mark', rfl, fits, stuck, run⟩ :=
        @ih fewer (room - (utf16Units c).length) (by omega) (by omega)
      refine ⟨c :: done, next, later, mark ||| mark', rfl, ?_, ?_, ?_⟩
      · rw [utf16_cons, List.length_append]
        omega
      · rw [utf16_cons, List.length_append]
        omega
      · rw [step, if_neg tight, run, utf16_cons]
        simp [Decoding.put, UInt16.or_assoc]

end Decoding

/-! ### Encoding a text -/

theorem toNat_unit {n : Nat} (less : n < 65536) : (UInt16.ofNat n).toNat = n := UInt16.toNat_ofNat_of_lt' less

theorem isHighSurrogate_ofNat {n : Nat} (less : n < 65536) :
    isHighSurrogate (UInt16.ofNat n) = decide (0xD800 ≤ n ∧ n ≤ 0xDBFF) := by
  rw [isHighSurrogate, Bool.decide_and]
  simp only [UInt16.le_iff_toNat_le, toNat_unit less, UInt16.reduceToNat]

theorem isLowSurrogate_ofNat {n : Nat} (less : n < 65536) :
    isLowSurrogate (UInt16.ofNat n) = decide (0xDC00 ≤ n ∧ n ≤ 0xDFFF) := by
  rw [isLowSurrogate, Bool.decide_and]
  simp only [UInt16.le_iff_toNat_le, toNat_unit less, UInt16.reduceToNat]

/-- The encoder writes a character if there is room for its bytes. -/
theorem convertUTF16ToUTF8_char (strict : Bool) (c : Char) (rest : List UChar) (room : Nat) :
    convertUTF16ToUTF8 strict (utf16Units c ++ rest) room =
      Conversion.write (utf16Units c ++ rest) (String.utf8EncodeChar c) room (convertUTF16ToUTF8 strict rest) := by
  have valid := toNat_cases c
  rw [← encodeUTF8_char, utf16Units]
  by_cases small : c.toNat < 0x10000
  · have notHigh : isHighSurrogate (UInt16.ofNat c.toNat) = false := by
      rw [isHighSurrogate_ofNat small, decide_eq_false_iff_not]
      omega
    have notLow : isLowSurrogate (UInt16.ofNat c.toNat) = false := by
      rw [isLowSurrogate_ofNat small, decide_eq_false_iff_not]
      omega
    rw [if_pos small, List.singleton_append, convertUTF16ToUTF8.eq_def]
    simp only [notHigh, notLow, toNat_unit small]
    simp
  · have high : isHighSurrogate (UInt16.ofNat (0xD800 + (c.toNat - 0x10000) / 0x400)) = true := by
      rw [isHighSurrogate_ofNat (by omega), decide_eq_true_iff]
      omega
    have low : isLowSurrogate (UInt16.ofNat (0xDC00 + (c.toNat - 0x10000) % 0x400)) = true := by
      rw [isLowSurrogate_ofNat (by omega), decide_eq_true_iff]
      omega
    have combined : combineSurrogates (UInt16.ofNat (0xD800 + (c.toNat - 0x10000) / 0x400))
        (UInt16.ofNat (0xDC00 + (c.toNat - 0x10000) % 0x400)) = c.toNat := by
      rw [combineSurrogates, toNat_unit (by omega), toNat_unit (by omega), Nat.shiftLeft_eq]
      omega
    rw [if_neg small, List.cons_append, List.singleton_append, convertUTF16ToUTF8.eq_def]
    simp only [high, low, combined]
    simp

/-! ### Conversions that are resumed -/

/-- How a conversion stopped, the source that is left and what was written. -/
structure Call (σ τ : Type) where
  result : ConversionResult
  source : List σ
  target : List τ

def encodeCall (strict : Bool) (source : List UChar) (room : Nat) : Call UChar UInt8 :=
  let conversion := convertUTF16ToUTF8 strict source room
  ⟨conversion.result, conversion.source, conversion.target⟩

def decodeCall (strict : Bool) (source : List UInt8) (room : Nat) : Call UInt8 UChar :=
  let decoding := convertUTF8ToUTF16 strict source room
  ⟨decoding.result, decoding.source, decoding.target⟩

theorem encodeCall_eq {strict : Bool} {source : List UChar} {room : Nat} {conversion : Conversion}
    (run : convertUTF16ToUTF8 strict source room = conversion) :
    encodeCall strict source room = ⟨conversion.result, conversion.source, conversion.target⟩ := by
  rw [encodeCall, run]

theorem decodeCall_eq {strict : Bool} {source : List UInt8} {room : Nat} {decoding : Decoding}
    (run : convertUTF8ToUTF16 strict source room = decoding) :
    decodeCall strict source room = ⟨decoding.result, decoding.source, decoding.target⟩ := by
  rw [decodeCall, run]

section Resuming

variable {σ τ : Type} (sourceOf : Char → List σ) (targetOf : Char → List τ) (convert : List σ → Nat → Call σ τ)

/-- A call writes the characters that fit, within its buffer, and stops before the next one. -/
structure Stops (text : List Char) (room : Nat) (done rest : List Char) : Prop where
  split : text = done ++ rest
  call : convert (text.flatMap sourceOf) room =
    ⟨if rest.isEmpty then .conversionOK else .targetExhausted, rest.flatMap sourceOf, done.flatMap targetOf⟩
  fits : (done.flatMap targetOf).length ≤ room
  stuck : ∀ c later, rest = c :: later → room < (done.flatMap targetOf).length + (targetOf c).length

/-- Calls with buffers of the given sizes, each for the source that the call before left. -/
inductive Resumes : List Char → List Nat → List τ → List Char → Prop
  | done (text : List Char) : Resumes text [] [] text
  | call {text done rest final : List Char} {room : Nat} {rooms : List Nat} {output : List τ} :
      Stops sourceOf targetOf convert text room done rest → Resumes rest rooms output final →
      Resumes text (room :: rooms) (done.flatMap targetOf ++ output) final

variable {sourceOf targetOf convert}

theorem Resumes.total {text rest : List Char} {rooms : List Nat} {output : List τ}
    (resumes : Resumes sourceOf targetOf convert text rooms output rest) :
    output ++ rest.flatMap targetOf = text.flatMap targetOf := by
  induction resumes with
  | done => rfl
  | call stops _ ih => rw [stops.split, List.flatMap_append, List.append_assoc, ih]

/-- With buffers for at least one character each, every call gets on. -/
theorem Resumes.finishes {text rest : List Char} {rooms : List Nat} {output : List τ}
    (resumes : Resumes sourceOf targetOf convert text rooms output rest)
    (large : ∀ room ∈ rooms, ∀ c, (targetOf c).length ≤ room) (many : text.length ≤ rooms.length) : rest = [] := by
  induction resumes with
  | done text => exact List.length_eq_zero_iff.mp (Nat.le_zero.mp many)
  | @call text done rest final room rooms output stops _ ih =>
    refine ih (fun other member => large other (List.mem_cons_of_mem _ member)) ?_
    cases rest with
    | nil => exact Nat.zero_le _
    | cons c later =>
      have stuck := stops.stuck c later rfl
      have fits := large room List.mem_cons_self c
      have progress : done ≠ [] := by
        rintro rfl
        rw [List.flatMap_nil, List.length_nil] at stuck
        omega
      have positive := List.length_pos_of_ne_nil progress
      rw [stops.split, List.length_append, List.length_cons, List.length_cons] at many
      rw [List.length_cons]
      omega

theorem exists_resumes (stops : ∀ text room, ∃ done rest, Stops sourceOf targetOf convert text room done rest)
    (text : List Char) (rooms : List Nat) :
    ∃ output rest, Resumes sourceOf targetOf convert text rooms output rest := by
  induction rooms generalizing text with
  | nil => exact ⟨[], text, .done text⟩
  | cons room rooms ih =>
    obtain ⟨done, rest, first⟩ := stops text room
    obtain ⟨output, final, later⟩ := ih rest
    exact ⟨_, final, .call first later⟩

end Resuming

theorem encode_stops (strict : Bool) (text : List Char) (room : Nat) :
    ∃ done rest, Stops utf16Units String.utf8EncodeChar (encodeCall strict) text room done rest := by
  induction text generalizing room with
  | nil => exact ⟨[], [], rfl, rfl, Nat.zero_le room, nofun⟩
  | cons c text ih =>
    have step := convertUTF16ToUTF8_char strict c (utf16 text) room
    rw [Conversion.write] at step
    by_cases full : room < (String.utf8EncodeChar c).length
    · rw [if_pos full] at step
      refine ⟨[], c :: text, rfl, ?_, Nat.zero_le room, fun c' later same => ?_⟩
      · exact encodeCall_eq step
      · obtain ⟨rfl, rfl⟩ := List.cons.inj same
        rw [List.flatMap_nil, List.length_nil, Nat.zero_add]
        exact full
    · rw [if_neg full] at step
      obtain ⟨done, rest, split, call, fits, stuck⟩ := ih (room - (String.utf8EncodeChar c).length)
      refine ⟨c :: done, rest, by rw [split, List.cons_append], ?_, ?_, fun c' later same => ?_⟩
      · obtain ⟨result, source, target⟩ := Call.mk.inj call
        rw [List.flatMap_cons, List.flatMap_cons, ← target, ← source, ← result]
        exact encodeCall_eq step
      · rw [List.flatMap_cons, List.length_append]
        omega
      · have tight := stuck c' later same
        rw [List.flatMap_cons, List.length_append]
        omega

theorem decode_stops (strict : Bool) (text : List Char) (room : Nat) :
    ∃ done rest, Stops String.utf8EncodeChar utf16Units (decodeCall strict) text room done rest := by
  have enough : (utf8 text ++ []).length ≤ (utf8 text).length := by rw [List.append_nil]
  by_cases fits : (utf16 text).length ≤ room
  · obtain ⟨mark, rounds, -, run⟩ := convertLoop_text strict text [] enough fits
    rw [List.append_nil] at run
    refine ⟨text, [], (List.append_nil _).symm, ?_, fits, nofun⟩
    have ends : convertUTF8ToUTF16Loop strict rounds [] (room - (utf16 text).length) = .stop .conversionOK [] := by
      cases rounds <;> rfl
    rw [ends] at run
    exact (decodeCall_eq run).trans (congrArg (Call.mk _ _) (List.append_nil _))
  · obtain ⟨done, c, later, mark, split, room_le, stuck, run⟩ :=
      convertLoop_full strict text [] enough (Nat.lt_of_not_le fits)
    rw [List.append_nil, List.append_nil] at run
    refine ⟨done, c :: later, split, ?_, room_le, fun c' later' same => ?_⟩
    · exact (decodeCall_eq run).trans (congrArg (Call.mk _ _) (List.append_nil _))
    · obtain ⟨rfl, rfl⟩ := List.cons.inj same
      exact stuck

/-! ### Every byte sequence -/

/-- The decoder reads the text and stops where no character is spelled. -/
def StopsAt (strict : Bool) (text : List Char) (rest : List UInt8) (room : Nat) : Prop :=
  (decodeCall strict (utf8 text ++ rest) room).source = rest ∧
    (decodeCall strict (utf8 text ++ rest) room).target = utf16 text ∧
    (decodeCall strict (utf8 text ++ rest) room).result =
      if rest.isEmpty then .conversionOK else if rest.length < announced rest then .sourceExhausted else .sourceIllegal

theorem stopsAt_iff (strict : Bool) {text : List Char} {rest : List UInt8} (unspelled : Unspelled rest) {room : Nat}
    (fits : (utf16 text).length ≤ room) : StopsAt strict text rest room ↔ ¬Overlooked rest := by
  obtain ⟨mark, rounds, enough, run⟩ := convertLoop_text strict text rest (Nat.le_refl _) fits
  simp only [StopsAt, decodeCall, convertUTF8ToUTF16, run]
  by_cases nothing : rest = []
  · subst nothing
    have ends : convertUTF8ToUTF16Loop strict rounds [] (room - (utf16 text).length) = .stop .conversionOK [] := by
      cases rounds <;> rfl
    rw [ends]
    exact iff_of_true ⟨rfl, List.append_nil _, rfl⟩ nofun
  · have positive := List.length_pos_of_ne_nil nothing
    obtain ⟨fewer, rfl⟩ : ∃ fewer, rounds = fewer + 1 := ⟨rounds - 1, by omega⟩
    have some : rest.isEmpty = false := Bool.eq_false_iff.mpr fun isEmpty => nothing (List.isEmpty_iff.mp isEmpty)
    by_cases overlooked : Overlooked rest
    · refine iff_of_false (fun ⟨_, target, result⟩ => ?_) (not_not.mpr overlooked)
      rcases convertLoop_overlooked strict overlooked fewer (room - (utf16 text).length) with exhausted | written
      · replace result : (convertUTF8ToUTF16Loop strict (fewer + 1) rest (room - (utf16 text).length)).result = _ :=
          result
        rw [exhausted, some] at result
        split at result
        · next wrong => cases wrong
        · split at result <;> cases result
      · replace target :
          utf16 text ++ (convertUTF8ToUTF16Loop strict (fewer + 1) rest (room - (utf16 text).length)).target = _ :=
            target
        exact written (List.append_right_eq_self.mp target)
    · rw [convertLoop_unspelled strict nothing unspelled overlooked, some]
      exact iff_of_true ⟨rfl, List.append_nil _, rfl⟩ overlooked

/-- A text goes through both conversions piece by piece, and every byte sequence is read up to the
first place where no character is spelled exactly if the check does not overlook the bytes there. -/
theorem conversions_exact_iff (strict : Bool) :
    (∀ text rooms, ∃ output rest, Resumes utf16Units String.utf8EncodeChar (encodeCall strict) text rooms output rest ∧
      output ++ utf8 rest = utf8 text ∧
      ((∀ room ∈ rooms, ∀ c, (String.utf8EncodeChar c).length ≤ room) → text.length ≤ rooms.length →
      output = utf8 text)) ∧
    (∀ text rooms, ∃ output rest, Resumes String.utf8EncodeChar utf16Units (decodeCall strict) text rooms output rest ∧
      output ++ utf16 rest = utf16 text ∧
      ((∀ room ∈ rooms, ∀ c, (utf16Units c).length ≤ room) → text.length ≤ rooms.length → output = utf16 text)) ∧
    ∀ bytes, ∃ text rest, bytes = utf8 text ++ rest ∧ Unspelled rest ∧
      (∀ room, room < (utf16 text).length → (decodeCall strict bytes room).result = .targetExhausted) ∧
      ((∀ room, (utf16 text).length ≤ room → StopsAt strict text rest room) ↔ ¬Overlooked rest) := by
  refine ⟨fun text rooms => ?_, fun text rooms => ?_, fun bytes => ?_⟩
  · obtain ⟨output, rest, resumes⟩ := exists_resumes (encode_stops strict) text rooms
    refine ⟨output, rest, resumes, resumes.total, fun large many => ?_⟩
    have total := resumes.total
    rwa [resumes.finishes large many, List.flatMap_nil, List.append_nil] at total
  · obtain ⟨output, rest, resumes⟩ := exists_resumes (decode_stops strict) text rooms
    refine ⟨output, rest, resumes, resumes.total, fun large many => ?_⟩
    have total := resumes.total
    rwa [resumes.finishes large many, List.flatMap_nil, List.append_nil] at total
  · obtain ⟨text, rest, rfl, unspelled⟩ := exists_text bytes
    refine ⟨text, rest, rfl, unspelled, fun room full => ?_, ?_⟩
    · obtain ⟨done, c, later, mark, -, -, -, run⟩ := convertLoop_full strict text rest (Nat.le_refl _) full
      show (convertUTF8ToUTF16Loop strict _ _ room).result = _
      rw [run]
      rfl
    · constructor
      · exact fun stops => (stopsAt_iff strict unspelled (Nat.le_refl _)).mp (stops _ (Nat.le_refl _))
      · exact fun seen room fits => (stopsAt_iff strict unspelled fits).mpr seen

/-- The bytes ED 20 80 are no UTF-8 and are read as the character U+B800. -/
theorem overlooked_is_read : (∀ text, utf8 text ≠ [0xED, 0x20, 0x80]) ∧
    convertUTF8ToUTF16 true [0xED, 0x20, 0x80] 3 = ⟨.conversionOK, [], [0xB800], 0xB800⟩ := by
  refine ⟨fun text same => ?_, by decide⟩
  cases text with
  | nil => cases same
  | cons c text =>
    have sequence := sequence_encode c
    rw [utf8_cons] at same
    generalize String.utf8EncodeChar c = bytes at sequence same
    generalize c.toNat = code at sequence
    cases sequence with
    | one less =>
      obtain ⟨rfl, -⟩ := List.cons.inj same
      exact absurd less (by decide)
    | two low high tail =>
      obtain ⟨rfl, -⟩ := List.cons.inj same
      exact absurd high (by decide)
    | three low high second third least most =>
      obtain ⟨rfl, rest⟩ := List.cons.inj same
      obtain ⟨rfl, -⟩ := List.cons.inj rest
      exact absurd second.1 (by decide)
    | four low high second third last least most =>
      obtain ⟨rfl, -⟩ := List.cons.inj same
      exact absurd low (by decide)

end WebNode.Wtf
