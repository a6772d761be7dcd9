import WebNode.Lib.Sextets
import WebNode.Wtf.Base64

/-!
# What Base64 decoding returns

The characters are scanned into the front of the output and packed there, group by group, into
the bytes that they spell.
-/

namespace WebNode.Wtf.Base64

open WebNode.Lib

/-! ### Characters -/

/-- The sextet of a character of the alphabet. -/
def sextetOf (alphabet : Alphabet) (ch : Nat) : Option Nat :=
  if decodeCharacter alphabet ch = nonAlphabet then none else some (decodeCharacter alphabet ch).toNat

/-- The sextets of the characters before the padding. -/
def sextets (alphabet : Alphabet) (data : List Nat) : List Nat :=
  (data.takeWhile (· != 61)).filterMap (sextetOf alphabet)

theorem decodeCharacter_lt {alphabet : Alphabet} {ch : Nat} (member : decodeCharacter alphabet ch ≠ nonAlphabet) :
    (decodeCharacter alphabet ch).toNat < 64 := by
  have checked : ∀ alphabet : Alphabet, ∀ ch < 128, decodeCharacter alphabet ch ≠ nonAlphabet →
      (decodeCharacter alphabet ch).toNat < 64 := by
    intro alphabet
    cases alphabet <;> decide +kernel
  by_cases ascii : ch < 128
  · exact checked alphabet ch ascii member
  · exact absurd (if_neg ascii) member

theorem sextets_lt (alphabet : Alphabet) (data : List Nat) : ∀ sextet ∈ sextets alphabet data, sextet < 64 := by
  intro sextet member
  obtain ⟨ch, _, found⟩ := List.mem_filterMap.mp member
  rw [sextetOf] at found
  split at found
  · cases found
  · rename_i there
    cases found
    exact decodeCharacter_lt there

theorem sextets_cons {alphabet : Alphabet} {ch : Nat} {data : List Nat} (noPadding : ch ≠ 61) :
    sextets alphabet (ch :: data) = (sextetOf alphabet ch).toList ++ sextets alphabet data := by
  rw [sextets, List.takeWhile_cons_of_pos (by exact bne_iff_ne.mpr noPadding), List.filterMap_cons]
  cases sextetOf alphabet ch <;> rfl

/-! ### Scanning -/

section Scanning

variable {alphabet : Alphabet} {policy : Base64DecodePolicy} {isWhiteSpaceNeutral : Nat → Bool} {length : Nat}

/-- Behind the padding, no character is added. -/
theorem scan_behind {data : List Nat} {before after : Scanned} (padded : before.equalsSignCount ≠ 0)
    (run : scan alphabet policy isWhiteSpaceNeutral length data before = some after) :
    after.out = before.out ∧ after.outLength = before.outLength ∧ after.equalsSignCount ≠ 0 := by
  induction data generalizing before with
  | nil =>
    cases run
    exact ⟨rfl, rfl, padded⟩
  | cons ch rest ih =>
    rw [scan] at run
    split at run
    · split at run
      · cases run
      · obtain ⟨out_eq, length_eq, still⟩ := ih (by exact Nat.succ_ne_zero _) run
        exact ⟨out_eq, length_eq, still⟩
    · split at run
      · cases run
      · split at run
        · cases run
        · exact ih padded run

/-- The scanned characters are the first ones of the output. -/
theorem scan_spec {data : List Nat} {before after : Scanned} (unpadded : before.equalsSignCount = 0)
    (room : before.outLength + data.length ≤ before.out.length)
    (run : scan alphabet policy isWhiteSpaceNeutral length data before = some after) :
    after.outLength = before.outLength + (sextets alphabet data).length ∧ after.out.length = before.out.length ∧
      (∀ i < before.outLength, after.out.getD i 0 = before.out.getD i 0) ∧
      ∀ i < (sextets alphabet data).length,
      (after.out.getD (before.outLength + i) 0).toNat = (sextets alphabet data).getD i 0 := by
  induction data generalizing before with
  | nil =>
    cases run
    exact ⟨rfl, rfl, fun _ _ => rfl, fun i inside => absurd inside (Nat.not_lt_zero i)⟩
  | cons ch rest ih =>
    rw [List.length_cons] at room
    rw [scan] at run
    split at run
    · rename_i padding
      subst padding
      split at run
      · cases run
      · obtain ⟨out_eq, length_eq, _⟩ := scan_behind (by exact Nat.succ_ne_zero _) run
        exact ⟨length_eq, by rw [out_eq], fun i _ => by rw [out_eq], fun i inside => absurd inside (Nat.not_lt_zero i)⟩
    · rename_i noPadding
      rw [sextets_cons noPadding]
      split at run
      · rename_i member
        rw [if_neg (by omega)] at run
        have here : sextetOf alphabet ch = some (decodeCharacter alphabet ch).toNat := if_neg member
        obtain ⟨length_eq, out_eq, front, back⟩ := ih (by exact unpadded) (by simp only [List.length_set]; omega) run
        simp only [List.length_set] at out_eq
        rw [here, Option.toList_some, List.singleton_append, List.length_cons]
        have at_front : ∀ i < before.outLength, after.out.getD i 0 = before.out.getD i 0 := fun i inside => by
          rw [front i (Nat.lt_succ_of_lt inside), List.getD_eq_getElem?_getD,
            List.getElem?_set_ne (by omega), ← List.getD_eq_getElem?_getD]
        refine ⟨by rw [length_eq]; exact Nat.add_right_comm .., out_eq, at_front, fun i inside => ?_⟩
        cases i with
        | zero =>
          rw [Nat.add_zero, front before.outLength (Nat.lt_succ_self _), List.getD_eq_getElem?_getD,
            List.getElem?_set_self (by omega)]
          rfl
        | succ i =>
          rw [show before.outLength + (i + 1) = before.outLength + 1 + i by omega, List.getD_cons_succ]
          exact back i (Nat.lt_of_succ_lt_succ inside)
      · rename_i noMember
        have here : sextetOf alphabet ch = none := if_pos (not_not.mp noMember)
        rw [here, Option.toList_none, List.nil_append]
        split at run
        · cases run
        · exact ih unpadded (by omega) run

end Scanning

/-! ### Packing -/

section Packing

theorem or_eq_add {high low bits : Nat} (lowSmall : low < 2 ^ bits) : 2 ^ bits * high ||| low = 2 ^ bits * high + low :=
  (Nat.two_pow_add_eq_or_of_lt lowSmall high).symm

theorem and_mask (number bits : Nat) : number &&& (2 ^ bits - 1) = number % 2 ^ bits :=
  Nat.and_two_pow_sub_one_eq_mod number bits

variable {out : List UInt8} {sidx : Nat}

theorem firstByte_eq (small : (out.getD (sidx + 1) 0).toNat < 64) :
    firstByte out sidx = .ofNat ((out.getD sidx 0).toNat * 4 + (out.getD (sidx + 1) 0).toNat / 16) := by
  have high : (out.getD sidx 0).toNat <<< 2 &&& 255 = 2 ^ 2 * ((out.getD sidx 0).toNat % 64) := by
    rw [Nat.shiftLeft_eq, show 255 = 2 ^ 8 - 1 from rfl, and_mask]
    omega
  have low : (out.getD (sidx + 1) 0).toNat >>> 4 &&& 0o3 = (out.getD (sidx + 1) 0).toNat / 16 := by
    rw [Nat.shiftRight_eq_div_pow, show 0o3 = 2 ^ 2 - 1 from rfl, and_mask]
    omega
  rw [firstByte, high, low, or_eq_add (by omega)]
  exact Sextets.byte_eq (by omega)

theorem secondByte_eq (small : (out.getD (sidx + 2) 0).toNat < 64) :
    secondByte out sidx = .ofNat ((out.getD (sidx + 1) 0).toNat % 16 * 16 + (out.getD (sidx + 2) 0).toNat / 4) := by
  have high : (out.getD (sidx + 1) 0).toNat <<< 4 &&& 255 = 2 ^ 4 * ((out.getD (sidx + 1) 0).toNat % 16) := by
    rw [Nat.shiftLeft_eq, show 255 = 2 ^ 8 - 1 from rfl, and_mask]
    omega
  have low : (out.getD (sidx + 2) 0).toNat >>> 2 &&& 0o17 = (out.getD (sidx + 2) 0).toNat / 4 := by
    rw [Nat.shiftRight_eq_div_pow, show 0o17 = 2 ^ 4 - 1 from rfl, and_mask]
    omega
  rw [secondByte, high, low, or_eq_add (by omega)]
  congr 1
  omega

theorem thirdByte_eq (small : (out.getD (sidx + 3) 0).toNat < 64) :
    thirdByte out sidx = .ofNat ((out.getD (sidx + 2) 0).toNat % 4 * 64 + (out.getD (sidx + 3) 0).toNat) := by
  have high : (out.getD (sidx + 2) 0).toNat <<< 6 &&& 255 = 2 ^ 6 * ((out.getD (sidx + 2) 0).toNat % 4) := by
    rw [Nat.shiftLeft_eq, show 255 = 2 ^ 8 - 1 from rfl, and_mask]
    omega
  have low : (out.getD (sidx + 3) 0).toNat &&& 0o77 = (out.getD (sidx + 3) 0).toNat := by
    rw [show 0o77 = 2 ^ 6 - 1 from rfl, and_mask]
    omega
  rw [thirdByte, high, low, or_eq_add (by omega)]
  congr 1
  omega

/-- The groups before the given one are packed, and the characters from it on are still there. -/
structure Packed (scanned : List Nat) (out : List UInt8) (group : Nat) : Prop where
  room : scanned.length ≤ out.length
  bytes : ∀ i < group * 3, out[i]? = (Sextets.pack scanned)[i]?
  characters : ∀ i, group * 4 ≤ i → i < scanned.length → (out.getD i 0).toNat = scanned.getD i 0

theorem getD_set_ne {list : List UInt8} {i j : Nat} (different : i ≠ j) (value : UInt8) :
    (list.set i value).getD j 0 = list.getD j 0 := by
  rw [List.getD_eq_getElem?_getD, List.getElem?_set_ne different, ← List.getD_eq_getElem?_getD]

/-- The bytes of a group are written over characters that were read already. -/
theorem convertGroup_eq {didx : Nat} (before : didx ≤ sidx) : convertGroup out sidx didx =
    ((out.set didx (firstByte out sidx)).set (didx + 1) (secondByte out sidx)).set (didx + 2) (thirdByte out sidx) := by
  have second : secondByte (out.set didx (firstByte out sidx)) sidx = secondByte out sidx := by
    rw [secondByte, getD_set_ne (by omega), getD_set_ne (by omega), secondByte]
  have third :
      thirdByte ((out.set didx (firstByte out sidx)).set (didx + 1) (secondByte out sidx)) sidx =
        thirdByte out sidx := by
    rw [thirdByte,
      getD_set_ne (by omega), getD_set_ne (by omega), getD_set_ne (by omega), getD_set_ne (by omega), thirdByte]
  rw [convertGroup, second, third]

section Groups

variable {scanned : List Nat} {group : Nat} (small : ∀ sextet ∈ scanned, sextet < 64)
    (packed : Packed scanned out group)

include small packed

theorem Packed.character_lt {i : Nat} (after : group * 4 ≤ i) (inside : i < scanned.length) :
    (out.getD i 0).toNat < 64 := by
  rw [packed.characters i after inside, List.getD_eq_getElem?_getD, List.getElem?_eq_getElem inside]
  exact small _ (List.getElem_mem inside)

theorem Packed.firstByte_eq (inside : group * 4 + 1 < scanned.length) :
    (Sextets.pack scanned)[group * 3]? = some (firstByte out (group * 4)) := by
  rw [(Sextets.getElem?_pack small group).1 inside, Base64.firstByte_eq (packed.character_lt small (by omega) inside),
    packed.characters _ (by omega) (by omega), packed.characters _ (by omega) (by omega)]

theorem Packed.secondByte_eq (inside : group * 4 + 2 < scanned.length) :
    (Sextets.pack scanned)[group * 3 + 1]? = some (secondByte out (group * 4)) := by
  rw [(Sextets.getElem?_pack small group).2.1 inside,
    Base64.secondByte_eq (packed.character_lt small (by omega) inside), packed.characters _ (by omega) (by omega),
    packed.characters _ (by omega) (by omega)]

theorem Packed.thirdByte_eq (inside : group * 4 + 3 < scanned.length) :
    (Sextets.pack scanned)[group * 3 + 2]? = some (thirdByte out (group * 4)) := by
  rw [(Sextets.getElem?_pack small group).2.2 inside, Base64.thirdByte_eq (packed.character_lt small (by omega) inside),
    packed.characters _ (by omega) (by omega), packed.characters _ (by omega) (by omega)]

theorem Packed.step (inside : group * 4 + 3 < scanned.length) :
    Packed scanned (convertGroup out (group * 4) (group * 3)) (group + 1) := by
  have room := packed.room
  rw [convertGroup_eq (by omega)]
  refine ⟨by simpa using room, fun i before => ?_, fun i after there => ?_⟩
  · rcases Nat.lt_or_ge i (group * 3) with old | new
    · rw [List.getElem?_set_ne (by omega), List.getElem?_set_ne (by omega), List.getElem?_set_ne (by omega),
        packed.bytes i old]
    · obtain rfl | rfl | rfl : i = group * 3 ∨ i = group * 3 + 1 ∨ i = group * 3 + 2 := by omega
      · rw [List.getElem?_set_ne (by omega), List.getElem?_set_ne (by omega), List.getElem?_set_self (by omega),
          packed.firstByte_eq small (by omega)]
      · rw [List.getElem?_set_ne (by omega), List.getElem?_set_self (by rw [List.length_set]; omega),
          packed.secondByte_eq small (by omega)]
      · rw [List.getElem?_set_self (by rw [List.length_set, List.length_set]; omega), packed.thirdByte_eq small inside]
  · rw [getD_set_ne (by omega), getD_set_ne (by omega), getD_set_ne (by omega), packed.characters i (by omega) there]

end Groups

theorem convert_eq {scanned : List Nat} {group fuel : Nat} (small : ∀ sextet ∈ scanned, sextet < 64)
    (packed : Packed scanned out group) (whole : scanned.length % 4 ≠ 1) (before : group * 4 ≤ scanned.length)
    (enough : scanned.length * 3 / 4 < group * 3 + fuel) :
    (convert (scanned.length * 3 / 4) fuel out (group * 4) (group * 3)).take (scanned.length * 3 / 4) =
      Sextets.pack scanned := by
  have length_eq := Sextets.length_pack scanned
  have room := packed.room
  induction fuel generalizing out group with
  | zero => omega
  | succ fuel ih =>
    rw [convert]
    by_cases more : group * 4 + 3 < scanned.length
    · rw [if_pos (by omega), show group * 4 + 4 = (group + 1) * 4 by omega,
        show group * 3 + 3 = (group + 1) * 3 by omega]
      have stepped := packed.step small more
      exact ih stepped (by omega) (by omega) stepped.room
    · rw [if_neg (by omega)]
      refine List.ext_getElem? fun i => ?_
      rcases Nat.lt_or_ge i (scanned.length * 3 / 4) with inside | outside
      · rw [List.getElem?_take_of_lt inside]
        have second :
            secondByte (out.set (group * 3) (firstByte out (group * 4))) (group * 4) = secondByte out (group * 4) := by
          rw [secondByte, getD_set_ne (by omega), getD_set_ne (by omega), secondByte]
        obtain none_left | two_left | three_left : scanned.length = group * 4 ∨ scanned.length = group * 4 + 2 ∨
            scanned.length = group * 4 + 3 := by omega
        · rw [if_neg (by omega), if_neg (by omega), packed.bytes i (by omega)]
        · rw [if_pos (show group * 3 < scanned.length * 3 / 4 by omega),
            if_neg (show ¬group * 3 + 1 < scanned.length * 3 / 4 by omega)]
          rcases Nat.lt_or_ge i (group * 3) with old | new
          · rw [List.getElem?_set_ne (by omega), packed.bytes i old]
          · obtain rfl : i = group * 3 := by omega
            rw [List.getElem?_set_self (by omega), packed.firstByte_eq small (by omega)]
        · rw [if_pos (show group * 3 < scanned.length * 3 / 4 by omega),
            if_pos (show group * 3 + 1 < scanned.length * 3 / 4 by omega), second]
          rcases Nat.lt_or_ge i (group * 3) with old | new
          · rw [List.getElem?_set_ne (by omega), List.getElem?_set_ne (by omega), packed.bytes i old]
          · obtain rfl | rfl : i = group * 3 ∨ i = group * 3 + 1 := by omega
            · rw [List.getElem?_set_ne (by omega), List.getElem?_set_self (by omega),
                packed.firstByte_eq small (by omega)]
            · rw [List.getElem?_set_self (by rw [List.length_set]; omega), packed.secondByte_eq small (by omega)]
      · rw [List.getElem?_eq_none (by rw [List.length_take]; omega), List.getElem?_eq_none (by omega)]

end Packing

/-! ### Decoding -/

section Decoding

variable {alphabet : Alphabet} {policy : Base64DecodePolicy} {isWhiteSpaceNeutral : Nat → Bool} {memory : Nat → UInt8}
    {data : List Nat}

theorem scan_start {after : Scanned}
    (run : scan alphabet policy isWhiteSpaceNeutral data.length data ⟨(List.range data.length).map memory, 0, 0⟩ =
      some after) :
    after.outLength = (sextets alphabet data).length ∧ after.out.length = data.length ∧
      Packed (sextets alphabet data) after.out 0 := by
  have lengthLe : (sextets alphabet data).length ≤ data.length :=
    Nat.le_trans (List.length_filterMap_le ..) (List.takeWhile_prefix _).length_le
  have memoryLength : ((List.range data.length).map memory).length = data.length := by
    rw [List.length_map, List.length_range]
  obtain ⟨length_eq, out_eq, _, characters⟩ :=
    scan_spec rfl (by rw [memoryLength]; exact Nat.le_of_eq (Nat.zero_add _)) run
  rw [Nat.zero_add] at length_eq
  rw [memoryLength] at out_eq
  refine ⟨length_eq, out_eq, by rwa [out_eq], fun i before => absurd before (by omega), fun i _ inside => ?_⟩
  have character := characters i inside
  rwa [Nat.zero_add] at character

/-- Input that is accepted is decoded if it is empty or has a character of the alphabet. Other
input is accepted with as many bytes of memory as it has characters. -/
theorem decode_cases {out : List UInt8}
    (run : base64DecodeInternal alphabet policy isWhiteSpaceNeutral memory data = some out) :
    (data = [] ∨ sextets alphabet data ≠ []) ∧ out = Sextets.pack (sextets alphabet data) ∨
      data ≠ [] ∧ sextets alphabet data = [] ∧ out.length = data.length := by
  rw [base64DecodeInternal] at run
  by_cases nothing : data = []
  · subst nothing
    cases run
    exact .inl ⟨.inl rfl, rfl⟩
  rw [if_neg (by rwa [List.length_eq_zero_iff])] at run
  obtain ⟨scanned, scan_eq, rest⟩ := Option.bind_eq_some_iff.mp run
  obtain ⟨length_eq, out_eq, packed⟩ := scan_start scan_eq
  split at rest
  · rename_i none_scanned
    rw [length_eq, List.length_eq_zero_iff] at none_scanned
    split at rest
    · cases rest
      exact .inr ⟨nothing, none_scanned, out_eq⟩
    · cases rest
  · rename_i some_scanned
    split at rest
    · cases rest
    · rename_i whole
      simp only at rest
      split at rest
      · cases rest
      · cases rest
        rw [length_eq] at some_scanned whole ⊢
        have bytes_eq :
            (sextets alphabet data).length - ((sextets alphabet data).length + 3) / 4 =
              (sextets alphabet data).length * 3 / 4 := by
          omega
        refine .inl ⟨.inr fun none_there => some_scanned (by rw [none_there]; rfl), ?_⟩
        rw [bytes_eq]
        exact convert_eq (sextets_lt alphabet data) packed whole (by omega) (by omega)

end Decoding

end WebNode.Wtf.Base64
