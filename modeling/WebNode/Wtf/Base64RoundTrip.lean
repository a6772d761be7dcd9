import WebNode.Wtf.Base64Decode

/-!
# Base64 is decoded to what was encoded

The encoder writes the sextets of the bytes with line feeds between them, and never more of those
than it has announced.
-/

namespace WebNode.Wtf.Base64

open WebNode.Lib

/-! ### Characters of an encoding -/

theorem sextetOf_encodeCharacter {alphabet : Alphabet} {index : Nat} (inside : index < 64) :
    sextetOf alphabet (encodeCharacter alphabet index).toNat = some index := by
  have checked : ∀ alphabet :
      Alphabet, ∀ index < 64, sextetOf alphabet (encodeCharacter alphabet index).toNat = some index := by
    intro alphabet
    cases alphabet <;> decide +kernel
  exact checked alphabet index inside

theorem sextetOf_lineFeed (alphabet : Alphabet) : sextetOf alphabet 10 = none := by
  cases alphabet <;> rfl

theorem sextetOf_padding (alphabet : Alphabet) : sextetOf alphabet 61 = none := by
  cases alphabet <;> rfl

section Indices

variable (a b c : UInt8)

theorem firstIndex_eq : a.toNat >>> 2 &&& 0o77 = a.toNat / 4 := by
  have bound : a.toNat < 256 := a.toNat_lt
  rw [Nat.shiftRight_eq_div_pow, show 0o77 = 2 ^ 6 - 1 from rfl, and_mask]
  omega

theorem secondIndex_eq : b.toNat >>> 4 &&& 0o17 ||| a.toNat <<< 4 &&& 0o77 = a.toNat % 4 * 16 + b.toNat / 16 := by
  have bound : b.toNat < 256 := b.toNat_lt
  have high : a.toNat <<< 4 &&& 0o77 = 2 ^ 4 * (a.toNat % 4) := by
    rw [Nat.shiftLeft_eq, show 0o77 = 2 ^ 6 - 1 from rfl, and_mask]
    omega
  have low : b.toNat >>> 4 &&& 0o17 = b.toNat / 16 := by
    rw [Nat.shiftRight_eq_div_pow, show 0o17 = 2 ^ 4 - 1 from rfl, and_mask]
    omega
  rw [high, low, Nat.or_comm, or_eq_add (by omega)]
  omega

theorem thirdIndex_eq : c.toNat >>> 6 &&& 0o3 ||| b.toNat <<< 2 &&& 0o77 = b.toNat % 16 * 4 + c.toNat / 64 := by
  have bound : c.toNat < 256 := c.toNat_lt
  have high : b.toNat <<< 2 &&& 0o77 = 2 ^ 2 * (b.toNat % 16) := by
    rw [Nat.shiftLeft_eq, show 0o77 = 2 ^ 6 - 1 from rfl, and_mask]
    omega
  have low : c.toNat >>> 6 &&& 0o3 = c.toNat / 64 := by
    rw [Nat.shiftRight_eq_div_pow, show 0o3 = 2 ^ 2 - 1 from rfl, and_mask]
    omega
  rw [high, low, Nat.or_comm, or_eq_add (by omega)]
  omega

theorem fourthIndex_eq : c.toNat &&& 0o77 = c.toNat % 64 := and_mask c.toNat 6

theorem lastIndex_eq_of_two : b.toNat <<< 2 &&& 0o77 = b.toNat % 16 * 4 := by
  rw [Nat.shiftLeft_eq, show 0o77 = 2 ^ 6 - 1 from rfl, and_mask]
  omega

theorem lastIndex_eq_of_one : a.toNat <<< 4 &&& 0o77 = a.toNat % 4 * 16 := by
  rw [Nat.shiftLeft_eq, show 0o77 = 2 ^ 6 - 1 from rfl, and_mask]
  omega

end Indices

/-- The characters for sextets. -/
def spelled (alphabet : Alphabet) (numbers : List Nat) : List UInt8 := numbers.map (encodeCharacter alphabet)

theorem encodeGroups_three {alphabet : Alphabet} {insertLFs : Bool} {count : BitVec 32} (a b c : UInt8)
    (rest : List UInt8) :
    encodeGroups alphabet insertLFs count (a :: b :: c :: rest) =
      lineFeed (insertLFs && count != 0 && count.toInt.tmod 76 == 0) ++
        (spelled alphabet ((Sextets.unpack (a :: b :: c :: rest)).take 4) ++
          encodeGroups alphabet insertLFs (if insertLFs then count + 4 else count) rest) := by
  have aBound : a.toNat < 256 := a.toNat_lt
  have bBound : b.toNat < 256 := b.toNat_lt
  have cBound : c.toNat < 256 := c.toNat_lt
  have digits : (Sextets.unpack (a :: b :: c :: rest)).take 4 =
      [a.toNat / 4, a.toNat % 4 * 16 + b.toNat / 16, b.toNat % 16 * 4 + c.toNat / 64, c.toNat % 64] := by
    simp only [Sextets.unpack, Sextets.value_three, List.cons_append, List.take_succ_cons, List.take_zero,
      List.cons.injEq, and_true]
    omega
  rw [encodeGroups, firstIndex_eq, secondIndex_eq, thirdIndex_eq, fourthIndex_eq, digits]
  rfl

theorem encodeGroups_two {alphabet : Alphabet} {insertLFs : Bool} {count : BitVec 32} (a b : UInt8) :
    encodeGroups alphabet insertLFs count [a, b] =
      lineFeed (insertLFs && count.toInt > 0 && count.toInt.tmod 76 == 0) ++
      spelled alphabet (Sextets.unpack [a, b]) := by
  have aBound : a.toNat < 256 := a.toNat_lt
  have bBound : b.toNat < 256 := b.toNat_lt
  have digits : Sextets.unpack [a, b] = [a.toNat / 4, a.toNat % 4 * 16 + b.toNat / 16, b.toNat % 16 * 4] := by
    simp only [Sextets.unpack, Sextets.value_two, List.cons.injEq, and_true]
    omega
  rw [encodeGroups, firstIndex_eq, secondIndex_eq, lastIndex_eq_of_two, digits]
  rfl

theorem encodeGroups_one {alphabet : Alphabet} {insertLFs : Bool} {count : BitVec 32} (a : UInt8) :
    encodeGroups alphabet insertLFs count [a] =
      lineFeed (insertLFs && count.toInt > 0 && count.toInt.tmod 76 == 0) ++ spelled alphabet (Sextets.unpack [a]) := by
  have aBound : a.toNat < 256 := a.toNat_lt
  have digits : Sextets.unpack [a] = [a.toNat / 4, a.toNat % 4 * 16] := by
    simp only [Sextets.unpack, Sextets.value_one, List.cons.injEq, and_true]
    omega
  rw [encodeGroups, firstIndex_eq, lastIndex_eq_of_one, digits]
  rfl

theorem unpack_three (a b c : UInt8) (rest : List UInt8) :
    Sextets.unpack (a :: b :: c :: rest) = (Sextets.unpack (a :: b :: c :: rest)).take 4 ++ Sextets.unpack rest := by
  simp only [Sextets.unpack, List.cons_append, List.nil_append, List.take_succ_cons, List.take_zero]

/-! ### The sextets of an encoding -/

theorem filterMap_lineFeed (alphabet : Alphabet) (inserted : Bool) :
    ((lineFeed inserted).map UInt8.toNat).filterMap (sextetOf alphabet) = [] := by
  cases inserted
  · rfl
  · exact List.filterMap_cons_none (sextetOf_lineFeed alphabet)

theorem filterMap_spelled (alphabet : Alphabet) {numbers : List Nat} (small : ∀ number ∈ numbers, number < 64) :
    ((spelled alphabet numbers).map UInt8.toNat).filterMap (sextetOf alphabet) = numbers := by
  induction numbers with
  | nil => rfl
  | cons number rest ih =>
    have restEq := ih fun other member => small other (List.mem_cons_of_mem _ member)
    rw [spelled, List.map_cons, List.map_cons,
      List.filterMap_cons_some (sextetOf_encodeCharacter (small number (List.mem_cons_self ..)))]
    exact congrArg _ restEq

theorem filterMap_encodeGroups (alphabet : Alphabet) (insertLFs : Bool) (count : BitVec 32) (data : List UInt8) :
    ((encodeGroups alphabet insertLFs count data).map UInt8.toNat).filterMap (sextetOf alphabet) =
      Sextets.unpack data := by
  induction data using Sextets.unpack.induct generalizing count with
  | case1 a b c rest ih =>
    have small : ∀ number ∈ (Sextets.unpack (a :: b :: c :: rest)).take 4, number < 64 :=
      fun number member => Sextets.unpack_lt _ number (List.mem_of_mem_take member)
    rw [encodeGroups_three, List.map_append, List.map_append, List.filterMap_append, List.filterMap_append,
      filterMap_lineFeed, filterMap_spelled alphabet small, ih, List.nil_append, ← unpack_three]
  | case2 a b =>
    rw [encodeGroups_two, List.map_append, List.filterMap_append, filterMap_lineFeed,
      filterMap_spelled alphabet (Sextets.unpack_lt _), List.nil_append]
  | case3 a =>
    rw [encodeGroups_one, List.map_append, List.filterMap_append, filterMap_lineFeed,
      filterMap_spelled alphabet (Sextets.unpack_lt _), List.nil_append]
  | case4 => rfl

/-- A character of the encoding is in the alphabet, or a line feed if those are inserted. -/
def Written (alphabet : Alphabet) (insertLFs : Bool) (character : UInt8) : Prop :=
  (∃ index, sextetOf alphabet character.toNat = some index) ∨ insertLFs = true ∧ character = 10

theorem written_lineFeed {alphabet : Alphabet} {insertLFs condition : Bool} :
    ∀ character ∈ lineFeed (insertLFs && condition), Written alphabet insertLFs character := by
  cases insertLFs
  · exact fun _ member => (List.not_mem_nil member).elim
  · cases condition
    · exact fun _ member => (List.not_mem_nil member).elim
    · exact fun _ member => .inr ⟨rfl, List.mem_singleton.mp member⟩

theorem written_spelled {alphabet : Alphabet} {insertLFs : Bool} {numbers : List Nat}
    (small : ∀ number ∈ numbers, number < 64) :
    ∀ character ∈ spelled alphabet numbers, Written alphabet insertLFs character := by
  intro character member
  obtain ⟨number, there, rfl⟩ := List.mem_map.mp member
  exact .inl ⟨number, sextetOf_encodeCharacter (small number there)⟩

theorem written_encodeGroups (alphabet : Alphabet) (insertLFs : Bool) (count : BitVec 32) (data : List UInt8) :
    ∀ character ∈ encodeGroups alphabet insertLFs count data, Written alphabet insertLFs character := by
  induction data using Sextets.unpack.induct generalizing count with
  | case1 a b c rest ih =>
    have small : ∀ number ∈ (Sextets.unpack (a :: b :: c :: rest)).take 4, number < 64 :=
      fun number member => Sextets.unpack_lt _ number (List.mem_of_mem_take member)
    rw [encodeGroups_three, Bool.and_assoc]
    simp only [List.forall_mem_append]
    exact ⟨written_lineFeed, written_spelled small, ih _⟩
  | case2 a b =>
    rw [encodeGroups_two, Bool.and_assoc]
    simp only [List.forall_mem_append]
    exact ⟨written_lineFeed, written_spelled (Sextets.unpack_lt _)⟩
  | case3 a =>
    rw [encodeGroups_one, Bool.and_assoc]
    simp only [List.forall_mem_append]
    exact ⟨written_lineFeed, written_spelled (Sextets.unpack_lt _)⟩
  | case4 => exact fun _ member => (List.not_mem_nil member).elim

/-! ### The length of an encoding -/

/-- The groups before the given one that begin with a line feed. The counter of the encoder becomes
negative at group 2^29. -/
def lineFeedsBefore (group : Nat) : Nat :=
  if group ≤ 2 ^ 29 then (group - 1) / 19 else 28256363 + (group - 2 ^ 29 + 3) / 19

/-- The counter before a group. -/
def counter (group : Nat) : BitVec 32 := BitVec.ofNat 32 (4 * group)

theorem counter_succ (group : Nat) : counter group + 4 = counter (group + 1) := by
  rw [counter, counter, Nat.mul_add, BitVec.ofNat_add]
  rfl

theorem toInt_counter {group : Nat} (small : 4 * group < 2 ^ 32) :
    (counter group).toInt = if 4 * group < 2 ^ 31 then (4 * group : Int) else (4 * group : Int) - 2 ^ 32 := by
  rw [counter, BitVec.toInt_eq_toNat_cond, BitVec.toNat_ofNat, Nat.mod_eq_of_lt small]
  split <;> split <;> omega

theorem length_lineFeed (inserted : Bool) : (lineFeed inserted).length = if inserted then 1 else 0 := by
  cases inserted <;> rfl

/-- A line feed stands before a group only if the group counts. -/
theorem lineFeedsBefore_succ {group : Nat} (small : 4 * group < 2 ^ 32) (condition : Bool)
    (inserted : condition = true → counter group ≠ 0 ∧ (counter group).toInt.tmod 76 = 0) :
    (lineFeed condition).length + lineFeedsBefore group ≤ lineFeedsBefore (group + 1) := by
  rw [length_lineFeed]
  split
  · rename_i holds
    obtain ⟨nonzero, divides⟩ := inserted holds
    have divides' := Int.dvd_of_tmod_eq_zero divides
    have positive : group ≠ 0 := by
      rintro rfl
      exact nonzero rfl
    rw [toInt_counter small] at divides'
    rw [lineFeedsBefore, lineFeedsBefore]
    split at divides' <;> split <;> split <;> omega
  · rw [lineFeedsBefore, lineFeedsBefore]
    split <;> split <;> omega

/-- The characters behind the groups begin with a line feed only if a group would. -/
theorem lineFeedsBefore_tail {group : Nat} (small : 4 * group < 2 ^ 32) :
    (lineFeed
      (true && (counter group).toInt > 0 && (counter group).toInt.tmod 76 == 0)).length + lineFeedsBefore group ≤
      lineFeedsBefore (group + 1) := by
  refine lineFeedsBefore_succ small _ fun inserted => ?_
  simp only [Bool.true_and, Bool.and_eq_true, decide_eq_true_eq, beq_iff_eq] at inserted
  refine ⟨fun zero => ?_, inserted.2⟩
  rw [zero] at inserted
  exact absurd inserted.1 (by decide)

theorem length_encodeGroups_of_lineFeeds (alphabet : Alphabet) (data : List UInt8) (group : Nat)
    (small : 4 * (group + (data.length + 2) / 3) < 2 ^ 32) :
    (encodeGroups alphabet true (counter group) data).length + lineFeedsBefore group ≤
      (Sextets.unpack data).length + lineFeedsBefore (group + (data.length + 2) / 3) := by
  induction data using Sextets.unpack.induct generalizing group with
  | case1 a b c rest ih =>
    have groups : group + ((a :: b :: c :: rest).length + 2) / 3 = group + 1 + (rest.length + 2) / 3 := by
      simp only [List.length_cons]
      omega
    rw [groups] at small ⊢
    have here := lineFeedsBefore_succ (show 4 * group < 2 ^ 32 by omega)
      (true && counter group != 0 && (counter group).toInt.tmod 76 == 0) (by simp)
    have behind := ih (group + 1) small
    have split_eq := congrArg List.length (unpack_three a b c rest)
    rw [List.length_append] at split_eq
    rw [encodeGroups_three, if_pos rfl, counter_succ, List.length_append, List.length_append, spelled, List.length_map]
    omega
  | case2 a b =>
    have groups : group + ([a, b].length + 2) / 3 = group + 1 := by simp
    rw [groups] at small ⊢
    have here := lineFeedsBefore_tail (show 4 * group < 2 ^ 32 by omega)
    rw [encodeGroups_two, List.length_append, spelled, List.length_map]
    omega
  | case3 a =>
    have groups : group + ([a].length + 2) / 3 = group + 1 := by simp
    rw [groups] at small ⊢
    have here := lineFeedsBefore_tail (show 4 * group < 2 ^ 32 by omega)
    rw [encodeGroups_one, List.length_append, spelled, List.length_map]
    omega
  | case4 => exact Nat.le_refl _

theorem length_encodeGroups (alphabet : Alphabet) (data : List UInt8) (count : BitVec 32) :
    (encodeGroups alphabet false count data).length = (Sextets.unpack data).length := by
  induction data using Sextets.unpack.induct generalizing count with
  | case1 a b c rest ih =>
    have split_eq := congrArg List.length (unpack_three a b c rest)
    rw [List.length_append] at split_eq
    rw [encodeGroups_three, List.length_append, List.length_append, spelled, List.length_map, ih, split_eq]
    exact Nat.zero_add _
  | case2 a b =>
    rw [encodeGroups_two, List.length_append, spelled, List.length_map]
    exact Nat.zero_add _
  | case3 a =>
    rw [encodeGroups_one, List.length_append, spelled, List.length_map]
    exact Nat.zero_add _
  | case4 => rfl

/-- What is written fits the announced length. -/
theorem length_encodeGroups_le {alphabet : Alphabet} {policy : Base64EncodePolicy} {data : List UInt8}
    (nonempty : data ≠ []) (small : data.length ≤ maxInputBufferSize) :
    (encodeGroups alphabet (insertsLFs policy data.length) 0 data).length ≤ outLength policy data.length := by
  have unpacked := Sextets.length_unpack data
  have positive := List.length_pos_iff.mpr nonempty
  rw [outLength]
  cases inserted : insertsLFs policy data.length with
  | false =>
    rw [length_encodeGroups, unpacked, if_neg Bool.false_ne_true]
    omega
  | true =>
    have groups : (data.length + 2) / 3 ≤ 1059797124 := by
      have bound : maxInputBufferSize = 3179391370 := by decide
      omega
    have written := length_encodeGroups_of_lineFeeds alphabet data 0 (by omega)
    rw [Nat.zero_add, unpacked] at written
    have feeds : lineFeedsBefore ((data.length + 2) / 3) ≤ ((data.length + 2) / 3 * 4 - 1) / 76 := by
      rw [lineFeedsBefore]
      split <;> omega
    rw [if_pos rfl]
    have start : counter 0 = 0 := rfl
    rw [start, show lineFeedsBefore 0 = 0 from rfl] at written
    omega

/-! ### Decoding an encoding -/

section Accepting

variable {alphabet : Alphabet} {policy : Base64DecodePolicy} {isWhiteSpaceNeutral : Nat → Bool} {length : Nat}

theorem scan_append (front back : List Nat) (before : Scanned) :
    scan alphabet policy isWhiteSpaceNeutral length (front ++ back) before =
      (scan alphabet policy isWhiteSpaceNeutral length front before).bind
        (scan alphabet policy isWhiteSpaceNeutral length back) := by
  induction front generalizing before with
  | nil => rfl
  | cons ch rest ih =>
    rw [List.cons_append, scan, scan]
    split
    · split
      · rfl
      · exact ih _
    · split
      · split
        · rfl
        · exact ih _
      · split
        · rfl
        · exact ih _

/-- Characters of the alphabet and characters that the policy ignores are accepted. -/
theorem exists_scan {data : List Nat} {before : Scanned} (unpadded : before.equalsSignCount = 0)
    (accepted : ∀ ch ∈ data, ch ≠ 61 ∧ (sextetOf alphabet ch ≠ none ∨ refuses policy isWhiteSpaceNeutral ch = false)) :
    ∃ after, scan alphabet policy isWhiteSpaceNeutral length data before = some after ∧ after.equalsSignCount = 0 := by
  induction data generalizing before with
  | nil => exact ⟨before, rfl, unpadded⟩
  | cons ch rest ih =>
    obtain ⟨⟨noPadding, here⟩, restAccepted⟩ := List.forall_mem_cons.mp accepted
    rw [scan, if_neg noPadding]
    by_cases member : decodeCharacter alphabet ch = nonAlphabet
    · rw [if_neg (not_not.mpr member)]
      have missing : sextetOf alphabet ch = none := if_pos member
      rw [here.resolve_left (not_not.mpr missing), if_neg Bool.false_ne_true]
      exact ih unpadded restAccepted
    · rw [if_pos member, if_neg (not_not.mpr unpadded)]
      exact ih (by exact unpadded) restAccepted

theorem exists_scan_padding (count : Nat) {before : Scanned}
    (fine : policy = .failOnInvalidCharacterOrExcessPadding → length % 4 = 0 ∧ before.equalsSignCount + count ≤ 2) :
    ∃ after, scan alphabet policy isWhiteSpaceNeutral length (List.replicate count 61) before = some after := by
  induction count generalizing before with
  | zero => exact ⟨before, rfl⟩
  | succ count ih =>
    rw [List.replicate_succ, scan, if_pos rfl, if_neg]
    · refine ih fun strict => ?_
      have bound := fine strict
      exact ⟨bound.1, by show before.equalsSignCount + 1 + count ≤ 2; omega⟩
    · rintro ⟨strict, excess⟩
      have bound := fine strict
      omega

end Accepting

/-- The policies under which an encoding can be decoded: inserted line feeds have to be ignored. -/
def Matching (encodePolicy : Base64EncodePolicy) (decodePolicy : Base64DecodePolicy) : Prop :=
  encodePolicy = .insertLFs → decodePolicy = .ignoreWhitespace ∨ decodePolicy = .ignoreInvalidCharacters

section Text

variable {alphabet : Alphabet} {encodePolicy : Base64EncodePolicy} {decodePolicy : Base64DecodePolicy}
  {isWhiteSpaceNeutral : Nat → Bool} {memory : Nat → UInt8} {bytes : List UInt8}

theorem accepted_of_written (isMatching : Matching encodePolicy decodePolicy) {insertLFs : Bool}
    (inserts : insertLFs = true → encodePolicy = .insertLFs) {character : UInt8}
    (written : Written alphabet insertLFs character) :
    character.toNat ≠ 61 ∧
      (sextetOf alphabet character.toNat ≠ none ∨
        refuses decodePolicy isWhiteSpaceNeutral character.toNat = false) := by
  rcases written with ⟨index, found⟩ | ⟨inserted, rfl⟩
  · refine ⟨fun padding => ?_, .inl (by rw [found]; nofun)⟩
    rw [padding, sextetOf_padding] at found
    cases found
  · refine ⟨by decide, .inr ?_⟩
    rcases isMatching (inserts inserted) with rfl | rfl <;> rfl

theorem sextets_text {insertLFs : Bool} {count : BitVec 32} {padding : Nat} :
    sextets alphabet ((encodeGroups alphabet insertLFs count bytes ++ List.replicate padding 61).map UInt8.toNat) =
      Sextets.unpack bytes := by
  have noPadding : ∀ ch ∈ (encodeGroups alphabet insertLFs count bytes).map UInt8.toNat, (ch != 61) = true := by
    intro ch member
    obtain ⟨character, there, rfl⟩ := List.mem_map.mp member
    rcases written_encodeGroups alphabet insertLFs count bytes character there with ⟨index, found⟩ | ⟨_, rfl⟩
    · refine bne_iff_ne.mpr fun padded => ?_
      rw [padded, sextetOf_padding] at found
      cases found
    · rfl
  have front : ((encodeGroups alphabet insertLFs count bytes ++ List.replicate padding 61).map UInt8.toNat).takeWhile
      (· != 61) =
      (encodeGroups alphabet insertLFs count bytes).map UInt8.toNat := by
    rw [List.map_append, List.takeWhile_append_of_pos noPadding, List.map_replicate]
    cases padding <;> exact List.append_nil _
  rw [sextets, front, filterMap_encodeGroups]

/-- Characters that were scanned are decoded if they can be the sextets of bytes. -/
theorem decode_of_scan {data : List Nat} {after : Scanned}
    (run : scan alphabet decodePolicy isWhiteSpaceNeutral data.length data ⟨(List.range data.length).map memory, 0, 0⟩ =
      some after)
    (sextets_eq : sextets alphabet data = Sextets.unpack bytes) (nonempty : bytes ≠ []) :
    base64DecodeInternal alphabet decodePolicy isWhiteSpaceNeutral memory data = some bytes := by
  have positive := List.length_pos_iff.mpr nonempty
  have unpacked := Sextets.length_unpack bytes
  have length_eq := (scan_start run).1
  rw [sextets_eq, unpacked] at length_eq
  have some_data : data.length ≠ 0 := fun none_there => by
    rw [List.length_eq_zero_iff.mp none_there] at sextets_eq
    rw [← sextets_eq] at unpacked
    exact absurd unpacked (by show 0 ≠ _; omega)
  obtain ⟨out, decoded⟩ :
    ∃ out, base64DecodeInternal alphabet decodePolicy isWhiteSpaceNeutral memory data = some out := by
    rw [base64DecodeInternal, if_neg some_data, run]
    show ∃ out, (if after.outLength = 0 then _ else if after.outLength % 4 = 1 then none else _) = some out
    rw [if_neg (by omega), if_neg (by omega)]
    simp only
    rw [if_neg (by omega)]
    exact ⟨_, rfl⟩
  have unpackedSome : sextets alphabet data ≠ [] := fun none_there => by
    rw [← sextets_eq, none_there] at unpacked
    exact absurd unpacked (by show 0 ≠ _; omega)
  rcases decode_cases decoded with ⟨_, out_eq⟩ | ⟨_, none_there, _⟩
  · rw [decoded, out_eq, sextets_eq, Sextets.pack_unpack]
  · exact absurd none_there unpackedSome

/-- A text of written characters and padding is decoded to the bytes. -/
theorem decode_text (isMatching : Matching encodePolicy decodePolicy) (nonempty : bytes ≠ []) {insertLFs : Bool}
    {count : BitVec 32} {padding : Nat} (inserts : insertLFs = true → encodePolicy = .insertLFs)
    (strict : decodePolicy = .failOnInvalidCharacterOrExcessPadding → padding = 0 ∨
      ((encodeGroups alphabet insertLFs count bytes).length + padding) % 4 = 0 ∧ padding ≤ 2) :
    base64DecodeInternal alphabet decodePolicy isWhiteSpaceNeutral memory
      ((encodeGroups alphabet insertLFs count bytes ++ List.replicate padding 61).map UInt8.toNat) = some bytes := by
  have length_eq : ((encodeGroups alphabet insertLFs count bytes ++ List.replicate padding 61).map UInt8.toNat).length =
      (encodeGroups alphabet insertLFs count bytes).length + padding := by
    rw [List.length_map, List.length_append, List.length_replicate]
  obtain ⟨middle, front, unpadded⟩ : ∃ middle, scan alphabet decodePolicy isWhiteSpaceNeutral
      ((encodeGroups alphabet insertLFs count bytes).length + padding)
        ((encodeGroups alphabet insertLFs count bytes).map UInt8.toNat)
      ⟨(List.range ((encodeGroups alphabet insertLFs count bytes).length + padding)).map memory, 0, 0⟩ = some middle ∧
      middle.equalsSignCount = 0 := by
    refine exists_scan rfl fun ch member => ?_
    obtain ⟨character, there, rfl⟩ := List.mem_map.mp member
    exact accepted_of_written isMatching inserts (written_encodeGroups alphabet insertLFs count bytes character there)
  obtain ⟨after, back⟩ : ∃ after, scan alphabet decodePolicy isWhiteSpaceNeutral
      ((encodeGroups alphabet insertLFs count bytes).length + padding) (List.replicate padding 61) middle =
        some after := by
    cases padding with
    | zero => exact ⟨middle, rfl⟩
    | succ padding =>
      refine exists_scan_padding _ fun isStrict => ?_
      have bound := (strict isStrict).resolve_left (Nat.succ_ne_zero _)
      exact ⟨bound.1, by omega⟩
  have run :
      scan alphabet decodePolicy isWhiteSpaceNeutral ((encodeGroups alphabet insertLFs count bytes).length + padding)
      ((encodeGroups alphabet insertLFs count bytes ++ List.replicate padding 61).map UInt8.toNat)
      ⟨(List.range ((encodeGroups alphabet insertLFs count bytes).length + padding)).map memory, 0, 0⟩ =
        some after := by
    rw [List.map_append, scan_append, front, List.map_replicate]
    exact back
  rw [← length_eq] at run
  exact decode_of_scan run sextets_text nonempty

/-- The text of bytes that are not too many has the announced length and is decoded to them. -/
theorem decode_encode (isMatching : Matching encodePolicy decodePolicy) (small : bytes.length ≤ maxInputBufferSize) :
    ∃ text, base64EncodeInternal alphabet encodePolicy bytes = some text ∧
      text.length =
      (if encodePolicy = .urlPolicy then (bytes.length * 4 + 2) / 3 else outLength encodePolicy bytes.length) ∧
      base64DecodeInternal alphabet decodePolicy isWhiteSpaceNeutral memory (text.map UInt8.toNat) = some bytes := by
  by_cases nonempty : bytes = []
  · subst nonempty
    refine ⟨[], rfl, ?_, rfl⟩
    cases encodePolicy <;> rfl
  have written :
      (encodeGroups alphabet (insertsLFs encodePolicy bytes.length) 0 bytes).length ≤
        outLength encodePolicy bytes.length :=
    length_encodeGroups_le nonempty small
  have positive := List.length_pos_iff.mpr nonempty
  have unpacked := Sextets.length_unpack bytes
  have inserts : insertsLFs encodePolicy bytes.length = true → encodePolicy = .insertLFs := fun inserted => by
    rw [insertsLFs, Bool.and_eq_true, beq_iff_eq] at inserted
    exact inserted.1
  have plain : encodePolicy ≠ .insertLFs → insertsLFs encodePolicy bytes.length = false := fun other =>
    Bool.eq_false_iff.mpr fun inserted => other (inserts inserted)
  rw [base64EncodeInternal, if_neg (by omega), if_neg (by omega)]
  simp only
  rw [if_neg (by omega)]
  by_cases url : encodePolicy = .urlPolicy
  · have none_inserted := plain (by rw [url]; nofun)
    rw [if_pos url, if_pos url, none_inserted]
    refine ⟨_, rfl, by rw [length_encodeGroups, unpacked], ?_⟩
    have decoded : base64DecodeInternal alphabet decodePolicy isWhiteSpaceNeutral memory
        ((encodeGroups alphabet false 0 bytes ++ List.replicate 0 61).map UInt8.toNat) = some bytes :=
      decode_text isMatching nonempty nofun fun _ => .inl rfl
    rwa [List.replicate_zero, List.append_nil] at decoded
  · rw [if_neg url, if_neg url]
    refine ⟨_, rfl, ?_, decode_text isMatching nonempty inserts fun strict => .inr ?_⟩
    · rw [List.length_append, List.length_replicate]
      omega
    · have none_inserted := plain fun inserted => by
        rcases isMatching inserted with ignores | ignores <;> rw [strict] at ignores <;> cases ignores
      rw [none_inserted, outLength, none_inserted, if_neg Bool.false_ne_true, length_encodeGroups, unpacked]
      omega

end Text

/-- Decoding is exact if the input is empty or has a character of the alphabet, and an encoding is
decoded to what was encoded if that was not too long for the encoder. -/
theorem base64_exact_iff (alphabet : Alphabet) (isWhiteSpaceNeutral : Nat → Bool) (memory : Nat → UInt8) :
    (∀ policy data out, base64DecodeInternal alphabet policy isWhiteSpaceNeutral memory data = some out →
      (out.length = (sextets alphabet data).length * 3 / 4 ∧ out = Sextets.pack (sextets alphabet data) ↔
        data = [] ∨ sextets alphabet data ≠ [])) ∧
    (∀ encodePolicy decodePolicy bytes, Matching encodePolicy decodePolicy →
      ((∃ text, base64EncodeInternal alphabet encodePolicy bytes = some text ∧
        text.length =
        (if encodePolicy = .urlPolicy then (bytes.length * 4 + 2) / 3 else outLength encodePolicy bytes.length) ∧
        base64DecodeInternal alphabet decodePolicy isWhiteSpaceNeutral memory (text.map UInt8.toNat) = some bytes) ↔
      bytes.length ≤ maxInputBufferSize)) := by
  refine ⟨fun policy data out decoded => ?_,
    fun encodePolicy decodePolicy bytes isMatching => ⟨?_, decode_encode isMatching⟩⟩
  · rcases decode_cases decoded with ⟨fine, out_eq⟩ | ⟨some_data, none_there, length_eq⟩
    · exact iff_of_true ⟨by rw [out_eq, Sextets.length_pack], out_eq⟩ fine
    · refine iff_of_false (fun ⟨wrong, _⟩ => ?_) fun fine => ?_
      · rw [length_eq, none_there] at wrong
        exact some_data (List.length_eq_zero_iff.mp wrong)
      · exact fine.elim some_data fun there => there none_there
  · rintro ⟨text, encoded, _, decoded⟩
    by_contra long
    have nonempty : bytes.length ≠ 0 := by omega
    rw [base64EncodeInternal, if_neg nonempty, if_pos (by omega)] at encoded
    cases encoded
    cases decoded
    exact nonempty rfl

/-- "TWFu" is "Man", and "M" is encoded and decoded again. -/
theorem base64_exact_man :
    (base64DecodeInternal .base64 .failOnInvalidCharacterOrExcessPadding (fun _ => false) (fun _ => 170) [84, 87, 70,
      117] = some [77, 97, 110] ∧ [77, 97, 110] = Sextets.pack (sextets .base64 [84, 87, 70, 117])) ∧
    ∃ text, base64EncodeInternal .base64 .insertLFs [77] = some text ∧
      base64DecodeInternal .base64 .ignoreWhitespace (fun _ => false) (fun _ => 170)
      (text.map UInt8.toNat) = some [77] := by
  obtain ⟨exact_iff, round_iff⟩ := base64_exact_iff .base64 (fun _ => false) (fun _ => 170)
  have decoded :
      base64DecodeInternal .base64 .failOnInvalidCharacterOrExcessPadding (fun _ => false)
        (fun _ => 170) [84, 87, 70, 117] =
    some [77, 97, 110] := rfl
  refine ⟨⟨decoded, ((exact_iff _ _ _ decoded).mpr (.inr (List.cons_ne_nil 19 _))).2⟩, ?_⟩
  obtain ⟨text, encoded, _, back⟩ := (round_iff .insertLFs .ignoreWhitespace [77] fun _ => .inl rfl).mpr (by decide)
  exact ⟨text, encoded, back⟩

/-- A blank is accepted, with a byte of memory as the output. -/
theorem decode_blank : base64DecodeInternal .base64 .ignoreWhitespace (fun _ => false) (fun _ => 170)
    [32] = some [170] :=
  rfl

end WebNode.Wtf.Base64
