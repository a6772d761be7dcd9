import WebNode.Yarr.Canonicalize

/-!
# Character classes

`CharacterClassConstructor`, and the characters that `testCharacterClass` accepts.
-/

namespace WebNode.Yarr

open WebNode.Yarr.Parser

structure CharacterRange where
  first : Nat
  last : Nat
  deriving DecidableEq, Repr

/-- The four vectors of `CharacterClass` and of its constructor. -/
structure CharacterClass where
  asciiMatches : List Nat
  ranges : List CharacterRange
  matchesUnicode : List Nat
  rangesUnicode : List CharacterRange
  deriving DecidableEq, Repr

def CharacterClass.empty : CharacterClass := ⟨[], [], [], []⟩

/-- The binary chop of `addSorted`: the place for a character, unless it is there already. -/
def chop (characters : List Nat) (ch : Nat) : Nat → Nat → Nat → Option Nat
  | 0, pos, _ | _, pos, 0 => some pos
  | rounds + 1, pos, range + 1 =>
    let index := (range + 1) / 2
    let value := characters.getD (pos + index) 0
    if value = ch then none
    else if value > ch then chop characters ch rounds pos index
    else chop characters ch rounds (pos + (index + 1)) (range + 1 - (index + 1))

def addSorted (characters : List Nat) (ch : Nat) : List Nat :=
  match chop characters ch characters.length 0 characters.length with
  | none => characters
  | some pos => characters.take pos ++ ch :: characters.drop pos

/-- A range that takes in the ranges behind it that it meets. -/
def subsume (range : CharacterRange) : List CharacterRange → List CharacterRange
  | [] => [range]
  | next :: rest =>
    if next.first ≤ range.last + 1 then subsume ⟨range.first, max range.last next.last⟩ rest else range :: next :: rest

/-- The scan of `addSortedRange`. -/
def addSortedRange (lo hi : Nat) : List CharacterRange → List CharacterRange
  | [] => [⟨lo, hi⟩]
  | range :: rest =>
    if hi < range.first then
      if hi + 1 = range.first then ⟨lo, range.last⟩ :: rest else ⟨lo, hi⟩ :: range :: rest
    else if lo ≤ range.last + 1 then subsume ⟨min range.first lo, max range.last hi⟩ rest
    else range :: addSortedRange lo hi rest

namespace CharacterClass

def addMatch (target : CharacterClass) (ch : Nat) : CharacterClass :=
  { target with asciiMatches := addSorted target.asciiMatches ch }

def addMatchUnicode (target : CharacterClass) (ch : Nat) : CharacterClass :=
  { target with matchesUnicode := addSorted target.matchesUnicode ch }

def addRange (target : CharacterClass) (lo hi : Nat) : CharacterClass :=
  { target with ranges := addSortedRange lo hi target.ranges }

def addRangeUnicode (target : CharacterClass) (lo hi : Nat) : CharacterClass :=
  { target with rangesUnicode := addSortedRange lo hi target.rangesUnicode }

def append (target other : CharacterClass) : CharacterClass :=
  let target := other.asciiMatches.foldl addMatch target
  let target := other.ranges.foldl (fun target range => target.addRange range.first range.last) target
  let target := other.matchesUnicode.foldl addMatchUnicode target
  other.rangesUnicode.foldl (fun target range => target.addRangeUnicode range.first range.last) target

/-- `getCanonicalPair`; the entries of other types have no pairs. -/
def getCanonicalPair (info : UCS2CanonicalizationRange) (ch : Nat) : Nat :=
  match info.type with
  | .rangeLo => ch + info.value
  | .rangeHi => ch - info.value
  | .alternatingAligned => (xorOne ch).toNat
  | .alternatingUnaligned => (xorOne (ch - 1) + 1).toNat
  | .unique | .set => ch

variable (table : CanonicalizationTable)

def putUnicodeIgnoreCase (target : CharacterClass) (ch : Nat) (info : UCS2CanonicalizationRange) : CharacterClass :=
  if info.type = .set then (table.characterSet info.value).foldl addMatchUnicode target
  else (target.addMatchUnicode ch).addMatchUnicode (getCanonicalPair info ch)

def putChar (isCaseInsensitive : Bool) (target : CharacterClass) (ch : Nat) : CharacterClass :=
  if ch ≤ 0x7F then
    if isCaseInsensitive && isASCIIAlpha ch then (target.addMatch (toASCIIUpper ch)).addMatch (toASCIILower ch)
    else target.addMatch ch
  else if !isCaseInsensitive then target.addMatchUnicode ch
  else
    match table.rangeInfoFor ch with
    | [] => target
    | info :: _ => if info.type = .unique then target.addMatchUnicode ch else target.putUnicodeIgnoreCase table ch info

/-- The part of `putRange` for the characters of one entry. -/
def putEquivalents (target : CharacterClass) (info : UCS2CanonicalizationRange) (lo last : Nat) : CharacterClass :=
  match info.type with
  | .unique => target
  | .set => (table.characterSet info.value).foldl addMatchUnicode target
  | .rangeLo => target.addRangeUnicode (lo + info.value) (last + info.value)
  | .rangeHi => target.addRangeUnicode (lo - info.value) (last - info.value)
  | .alternatingAligned =>
    let target := if lo % 2 = 1 then target.addRangeUnicode (lo - 1) (lo - 1) else target
    if last % 2 = 0 then target.addRangeUnicode (last + 1) (last + 1) else target
  | .alternatingUnaligned =>
    let target := if lo % 2 = 0 then target.addRangeUnicode (lo - 1) (lo - 1) else target
    if last % 2 = 1 then target.addRangeUnicode (last + 1) (last + 1) else target

/-- The loop of `putRange` over the entries that a range meets. -/
def putRangeEquivalents (hi : Nat) : List UCS2CanonicalizationRange → Nat → CharacterClass → CharacterClass
  | [], _, target => target
  | info :: rest, lo, target =>
    let last := min info.last hi
    let target := target.putEquivalents table info lo last
    if hi = last then target
    else
      match rest with
      | [] => target
      | next :: others => putRangeEquivalents hi (next :: others) next.first target

/-- The part of `putRange` below `0x80`. -/
def putASCIIRange (isCaseInsensitive : Bool) (target : CharacterClass) (lo hi : Nat) : CharacterClass :=
  let target := target.addRange lo hi
  if !isCaseInsensitive then target
  else
    let target :=
      if lo ≤ code 'Z' ∧ hi ≥ code 'A' then
        target.addRange (max lo (code 'A') + 0x20) (min hi (code 'Z') + 0x20) else target
    if lo ≤ code 'z' ∧ hi ≥ code 'a' then
      target.addRange (max lo (code 'a') - 0x20) (min hi (code 'z') - 0x20) else target

/-- The part of `putRange` from `0x80` on. -/
def putUnicodeRange (isCaseInsensitive : Bool) (target : CharacterClass) (lo hi : Nat) : CharacterClass :=
  let target := target.addRangeUnicode lo hi
  if !isCaseInsensitive then target else putRangeEquivalents table hi (table.rangeInfoFor lo) lo target

def putRange (isCaseInsensitive : Bool) (target : CharacterClass) (lo hi : Nat) : CharacterClass :=
  let target := if lo ≤ 0x7F then target.putASCIIRange isCaseInsensitive lo (min hi 0x7F) else target
  if hi ≤ 0x7F then target else target.putUnicodeRange table isCaseInsensitive (max lo 0x80) hi

/-- `ch & 0xFF80` is not zero just for the code units that are not ASCII. -/
def testCharacterClass (characterClass : CharacterClass) (ch : Nat) : Bool :=
  if ch / 0x80 % 0x200 ≠ 0 then
    ch ∈ characterClass.matchesUnicode ||
      characterClass.rangesUnicode.any fun range => ch ≥ range.first && ch ≤ range.last
  else ch ∈ characterClass.asciiMatches || characterClass.ranges.any fun range => ch ≥ range.first && ch ≤ range.last

end CharacterClass

section SortedVectors

theorem chop_spec {characters : List Nat} {ch : Nat} (sorted : characters.Pairwise (· < ·)) {rounds pos range : Nat}
    (enough : range ≤ rounds) (fits : pos + range ≤ characters.length) (below : ∀ c ∈ characters.take pos, c < ch)
    (above : ∀ c ∈ characters.drop (pos + range), ch < c) :
    match chop characters ch rounds pos range with
    | none => ch ∈ characters
    | some place => (∀ c ∈ characters.take place, c < ch) ∧ ∀ c ∈ characters.drop place, ch < c := by
  induction rounds generalizing pos range with
  | zero =>
    obtain rfl : range = 0 := by omega
    exact ⟨below, above⟩
  | succ rounds ih =>
    cases range with
    | zero => exact ⟨below, above⟩
    | succ range =>
      rw [chop]
      generalize half : (range + 1) / 2 = index
      obtain ⟨left, value, right, rfl, length⟩ := exists_split (show pos + index < characters.length by omega)
      obtain ⟨-, rightSorted, across⟩ := List.pairwise_append.mp sorted
      have read : (left ++ value :: right).getD (pos + index) 0 = value := by
        rw [← length]
        simp
      rw [read]
      rcases Nat.lt_trichotomy value ch with less | rfl | greater
      · rw [if_neg (by omega), if_neg (by omega)]
        refine ih (by omega) (by omega) ?_ ?_
        · rw [show pos + (index + 1) = (left ++ [value]).length by simp [length]; omega,
            show left ++ value :: right = (left ++ [value]) ++ right by simp, List.take_left]
          intro c member
          rcases List.mem_append.mp member with member | member
          · exact Nat.lt_trans (across c member value List.mem_cons_self) less
          · rwa [List.mem_singleton.mp member]
        · rwa [show pos + (index + 1) + (range + 1 - (index + 1)) = pos + (range + 1) by omega]
      · rw [if_pos rfl]
        simp
      · rw [if_neg (by omega), if_pos greater]
        refine ih (by omega) (by omega) below ?_
        rw [List.drop_left' length]
        intro c member
        rcases List.mem_cons.mp member with rfl | member
        · exact greater
        · exact Nat.lt_trans greater ((List.pairwise_cons.mp rightSorted).1 c member)

theorem addSorted_spec {characters : List Nat} (sorted : characters.Pairwise (· < ·)) (ch : Nat) :
    (addSorted characters ch).Pairwise (· < ·) ∧ ∀ c, c ∈ addSorted characters ch ↔ c ∈ characters ∨ c = ch := by
  have spec :=
    @chop_spec characters ch sorted characters.length 0 characters.length le_rfl (by omega) (by simp) (by simp)
  rw [addSorted]
  split at spec
  · exact ⟨sorted, fun c => ⟨.inl, fun either => either.elim id fun same => same ▸ spec⟩⟩
  · next place _ =>
    obtain ⟨below, above⟩ := spec
    have parts := sorted
    rw [← List.take_append_drop place characters, List.pairwise_append] at parts
    obtain ⟨front, back, across⟩ := parts
    refine ⟨?_, fun c => ?_⟩
    · refine List.pairwise_append.mpr ⟨front, List.pairwise_cons.mpr ⟨above, back⟩, fun c member d memberToo => ?_⟩
      rcases List.mem_cons.mp memberToo with rfl | memberToo
      · exact below c member
      · exact across c member d memberToo
    · conv_rhs => rw [← List.take_append_drop place characters]
      simp only [List.mem_append, List.mem_cons]
      tauto

/-- Some range has the character. -/
def Within (ranges : List CharacterRange) (c : Nat) : Prop := ∃ range ∈ ranges, range.first ≤ c ∧ c ≤ range.last

theorem within_cons {range : CharacterRange} {ranges : List CharacterRange} {c : Nat} :
    Within (range :: ranges) c ↔ range.first ≤ c ∧ c ≤ range.last ∨ Within ranges c := by
  simp [Within]

/-- No range is empty, and there is a gap between any two. -/
def Separated (ranges : List CharacterRange) : Prop :=
  (∀ range ∈ ranges, range.first ≤ range.last) ∧ ranges.Pairwise fun range later => range.last + 1 < later.first

theorem separated_cons {range : CharacterRange} {ranges : List CharacterRange} :
    Separated (range :: ranges) ↔
      range.first ≤ range.last ∧ (∀ later ∈ ranges, range.last + 1 < later.first) ∧ Separated ranges := by
  simp only [Separated, List.forall_mem_cons, List.pairwise_cons]
  tauto

theorem Separated.cons_of_within {range : CharacterRange} {ranges : List CharacterRange} (separated : Separated ranges)
    (nonempty : range.first ≤ range.last) (gap : ∀ c, Within ranges c → range.last + 1 < c) :
    Separated (range :: ranges) :=
  separated_cons.mpr ⟨nonempty, fun later member => gap _ ⟨later, member, le_rfl, separated.1 later member⟩, separated⟩

theorem subsume_spec {range : CharacterRange} {ranges : List CharacterRange} (nonempty : range.first ≤ range.last)
    (separated : Separated ranges) (behind : ∀ later ∈ ranges, range.first ≤ later.first) :
    Separated (subsume range ranges) ∧
      ∀ c, Within (subsume range ranges) c ↔ range.first ≤ c ∧ c ≤ range.last ∨ Within ranges c := by
  induction ranges generalizing range with
  | nil => exact ⟨separated_cons.mpr ⟨nonempty, by simp, separated⟩, fun c => by rw [subsume, within_cons]⟩
  | cons next rest ih =>
    obtain ⟨nextNonempty, gap, others⟩ := separated_cons.mp separated
    have nextBehind := behind next List.mem_cons_self
    rw [subsume]
    split
    · next meets =>
      obtain ⟨result, contents⟩ := @ih ⟨range.first, max range.last next.last⟩ (by dsimp only; omega) others
        fun later member => behind later (List.mem_cons_of_mem next member)
      refine ⟨result, fun c => ?_⟩
      rw [contents, within_cons]
      dsimp only
      by_cases inside : Within rest c
      · simp [inside]
      · simp only [inside, or_false]
        omega
    · next apart =>
      refine ⟨separated_cons.mpr ⟨nonempty, fun later member => ?_, separated⟩, fun c => by rw [within_cons]⟩
      rcases List.mem_cons.mp member with rfl | member
      · omega
      · have := gap later member
        omega

theorem addSortedRange_spec {lo hi : Nat} (nonempty : lo ≤ hi) {ranges : List CharacterRange}
    (separated : Separated ranges) :
    Separated (addSortedRange lo hi ranges) ∧
      ∀ c, Within (addSortedRange lo hi ranges) c ↔ Within ranges c ∨ lo ≤ c ∧ c ≤ hi := by
  induction ranges with
  | nil =>
    exact ⟨separated_cons.mpr ⟨nonempty,
      by simp, separated⟩, fun c => by rw [addSortedRange, within_cons]; exact or_comm⟩
  | cons range rest ih =>
    obtain ⟨rangeNonempty, gap, others⟩ := separated_cons.mp separated
    rw [addSortedRange]
    split
    · next before =>
      split
      · refine ⟨separated_cons.mpr ⟨by dsimp only; omega, gap, others⟩, fun c => ?_⟩
        rw [within_cons, within_cons]
        dsimp only
        by_cases inside : Within rest c
        · simp [inside]
        · simp only [inside, or_false]
          omega
      · refine ⟨separated_cons.mpr ⟨nonempty, fun later member => ?_, separated⟩, fun c => ?_⟩
        · rcases List.mem_cons.mp member with rfl | member
          · dsimp only
            omega
          · have := gap later member
            dsimp only
            omega
        · rw [within_cons]
          exact or_comm
    · next notBefore =>
      split
      · next meets =>
        obtain ⟨result, contents⟩ :=
          @subsume_spec ⟨min range.first lo, max range.last hi⟩ rest (by dsimp only; omega) others
          fun later member => by have := gap later member; dsimp only; omega
        refine ⟨result, fun c => ?_⟩
        rw [contents, within_cons]
        dsimp only
        by_cases inside : Within rest c
        · simp [inside]
        · simp only [inside, or_false]
          omega
      · next beyond =>
        obtain ⟨result, contents⟩ := ih others
        refine ⟨result.cons_of_within rangeNonempty fun c inside => ?_, fun c => ?_⟩
        · rcases (contents c).mp inside with ⟨later, member, low, high⟩ | added
          · have := gap later member
            omega
          · omega
        · rw [within_cons, within_cons, contents, or_assoc]

end SortedVectors

namespace CharacterClass

/-- The vectors are sorted, and ASCII stands in its own. -/
structure Valid (target : CharacterClass) : Prop where
  asciiMatches_sorted : target.asciiMatches.Pairwise (· < ·)
  ranges_separated : Separated target.ranges
  matchesUnicode_sorted : target.matchesUnicode.Pairwise (· < ·)
  rangesUnicode_separated : Separated target.rangesUnicode
  asciiMatches_ascii : ∀ c ∈ target.asciiMatches, c ≤ 0x7F
  ranges_ascii : ∀ c, Within target.ranges c → c ≤ 0x7F
  matchesUnicode_apart : ∀ c ∈ target.matchesUnicode, 0x80 ≤ c ∧ c ≤ 0xFFFF
  rangesUnicode_apart : ∀ c, Within target.rangesUnicode c → 0x80 ≤ c ∧ c ≤ 0xFFFF

def Contains (target : CharacterClass) (c : Nat) : Prop :=
  (c ∈ target.asciiMatches ∨ Within target.ranges c) ∨ c ∈ target.matchesUnicode ∨ Within target.rangesUnicode c

theorem valid_empty : empty.Valid := by
  constructor <;> simp [empty, Separated, Within]

theorem not_contains_empty (c : Nat) : ¬ empty.Contains c := by
  simp [empty, Contains, Within]

/-- The vectors that the test looks at are the only ones that can have the character. -/
theorem Valid.test_iff {target : CharacterClass} (valid : target.Valid) {c : Nat} (unit : c ≤ 0xFFFF) :
    target.testCharacterClass c = true ↔ target.Contains c := by
  have any : ∀ ranges : List CharacterRange,
      (ranges.any fun range => c ≥ range.first && c ≤ range.last) = true ↔ Within ranges c := by
    intro ranges
    simp [Within, List.any_eq_true]
  rw [testCharacterClass]
  split
  · next high =>
    rw [Bool.or_eq_true, decide_eq_true_iff, any, Contains]
    refine ⟨.inr, fun either => either.elim (fun ascii => ?_) id⟩
    have := ascii.elim (valid.asciiMatches_ascii c) (valid.ranges_ascii c)
    omega
  · next low =>
    rw [Bool.or_eq_true, decide_eq_true_iff, any, Contains]
    refine ⟨.inl, fun either => either.elim id fun unicode => ?_⟩
    have := unicode.elim (valid.matchesUnicode_apart c) (valid.rangesUnicode_apart c)
    omega

/-- From a valid class, the result is valid and has the given characters in addition. -/
def Adds (target result : CharacterClass) (added : Nat → Prop) : Prop :=
  target.Valid → result.Valid ∧ ∀ c, result.Contains c ↔ target.Contains c ∨ added c

section Additions

variable {target middle result : CharacterClass} {added more : Nat → Prop} {ch lo hi : Nat}

theorem Adds.refl : Adds target target fun _ => False := fun valid => ⟨valid, fun c => by rw [or_false]⟩

theorem Adds.trans (first : Adds target middle added) (second : Adds middle result more) :
    Adds target result fun c => added c ∨ more c := by
  intro valid
  obtain ⟨middleValid, contents⟩ := first valid
  obtain ⟨resultValid, contentsToo⟩ := second middleValid
  exact ⟨resultValid, fun c => by rw [contentsToo, contents, or_assoc]⟩

theorem Adds.congr (adds : Adds target result added) (same : ∀ c, added c ↔ more c) : Adds target result more := by
  intro valid
  obtain ⟨resultValid, contents⟩ := adds valid
  exact ⟨resultValid, fun c => by rw [contents, same]⟩

theorem adds_foldl {α : Type} {step : CharacterClass → α → CharacterClass} {addedBy : α → Nat → Prop} {items : List α}
    (adds : ∀ item ∈ items, ∀ target, Adds target (step target item) (addedBy item)) :
    Adds target (items.foldl step target) fun c => ∃ item ∈ items, addedBy item c := by
  induction items generalizing target with
  | nil => exact Adds.refl.congr (by simp)
  | cons item rest ih =>
    have first := adds item List.mem_cons_self target
    exact (first.trans (ih fun other member => adds other (List.mem_cons_of_mem item member))).congr (by simp)

theorem adds_addMatch (ascii : ch ≤ 0x7F) : Adds target (target.addMatch ch) (· = ch) := by
  intro valid
  obtain ⟨sorted, contents⟩ := addSorted_spec valid.asciiMatches_sorted ch
  refine ⟨{ valid with asciiMatches_sorted := sorted, asciiMatches_ascii := fun c member => ?_ }, fun c => ?_⟩
  · exact ((contents c).mp member).elim (valid.asciiMatches_ascii c) (by omega)
  · simp only [Contains, addMatch, contents]
    tauto

theorem adds_addMatchUnicode (low : 0x80 ≤ ch) (high : ch ≤ 0xFFFF) :
    Adds target (target.addMatchUnicode ch) (· = ch) := by
  intro valid
  obtain ⟨sorted, contents⟩ := addSorted_spec valid.matchesUnicode_sorted ch
  refine ⟨{ valid with matchesUnicode_sorted := sorted, matchesUnicode_apart := fun c member => ?_ }, fun c => ?_⟩
  · exact ((contents c).mp member).elim (valid.matchesUnicode_apart c) (by omega)
  · simp only [Contains, addMatchUnicode, contents]
    tauto

theorem adds_addRange (nonempty : lo ≤ hi) (ascii : hi ≤ 0x7F) :
    Adds target (target.addRange lo hi) fun c => lo ≤ c ∧ c ≤ hi := by
  intro valid
  obtain ⟨separated, contents⟩ := addSortedRange_spec nonempty valid.ranges_separated
  refine ⟨{ valid with ranges_separated := separated, ranges_ascii := fun c inside => ?_ }, fun c => ?_⟩
  · exact ((contents c).mp inside).elim (valid.ranges_ascii c) (by omega)
  · simp only [Contains, addRange, contents]
    tauto

theorem adds_addRangeUnicode (nonempty : lo ≤ hi) (low : 0x80 ≤ lo) (high : hi ≤ 0xFFFF) :
    Adds target (target.addRangeUnicode lo hi) fun c => lo ≤ c ∧ c ≤ hi := by
  intro valid
  obtain ⟨separated, contents⟩ := addSortedRange_spec nonempty valid.rangesUnicode_separated
  refine ⟨{ valid with rangesUnicode_separated := separated, rangesUnicode_apart := fun c inside => ?_ }, fun c => ?_⟩
  · exact ((contents c).mp inside).elim (valid.rangesUnicode_apart c) (by omega)
  · simp only [Contains, addRangeUnicode, contents]
    tauto

theorem adds_if {condition : Prop} [Decidable condition] (adds : condition → Adds target result added) :
    Adds target (if condition then result else target) fun c => condition ∧ added c := by
  split
  · next holds => exact (adds holds).congr (by simp [holds])
  · next fails => exact Adds.refl.congr (by simp [fails])

/-- A class with the characters of a range gets what is related to them, if it gets what is missing of that. -/
theorem Adds.relatives {related : Nat → Nat → Prop} (adds : Adds target result added)
    (present : ∀ x, lo ≤ x → x ≤ hi → target.Contains x) (sound : ∀ c, added c → ∃ x, lo ≤ x ∧ x ≤ hi ∧ related x c)
    (complete : ∀ x, lo ≤ x → x ≤ hi → ∀ c, related x c → lo ≤ c ∧ c ≤ hi ∨ added c) :
    Adds target result fun c => ∃ x, lo ≤ x ∧ x ≤ hi ∧ related x c := by
  intro valid
  obtain ⟨resultValid, contents⟩ := adds valid
  refine ⟨resultValid, fun c => ?_⟩
  rw [contents]
  constructor
  · exact fun either => either.imp_right (sound c)
  · rintro (already | ⟨x, below, above, isRelated⟩)
    · exact .inl already
    · exact (complete x below above c isRelated).imp_left fun inside => present c inside.1 inside.2

section Relatives

variable {related : Nat → Nat → Prop} (nonempty : lo ≤ hi) (present : ∀ x, lo ≤ x → x ≤ hi → target.Contains x)
  (bounds : ∀ x, lo ≤ x → x ≤ hi → ∀ c, related x c → 0x80 ≤ c ∧ c ≤ 0xFFFF)

include nonempty present bounds

/-- Every character has a relative at a fixed distance. -/
theorem adds_shifted {up down first second : Nat} (firstShifted : first + down = lo + up)
    (secondShifted : second + down = hi + up)
    (relates : ∀ x, lo ≤ x → x ≤ hi → ∀ c, related x c ↔ x = c ∨ x + up = c + down) :
    Adds target (target.addRangeUnicode first second) fun c => ∃ x, lo ≤ x ∧ x ≤ hi ∧ related x c := by
  have low := (bounds lo le_rfl nonempty first ((relates lo le_rfl nonempty _).mpr (.inr firstShifted.symm))).1
  have high := (bounds hi nonempty le_rfl second ((relates hi nonempty le_rfl _).mpr (.inr secondShifted.symm))).2
  refine (adds_addRangeUnicode (by omega) low high).relatives present (fun c inside => ?_)
    fun x below above c isRelated => ?_
  · exact ⟨c + down - up, by omega, by omega, (relates _ (by omega) (by omega) c).mpr (by omega)⟩
  · have := (relates x below above c).mp isRelated
    omega

/-- The characters come in pairs, and only the first and the last of the range can lack their partners. -/
theorem adds_paired {below above : Prop} [Decidable below] [Decidable above] {k : Nat} (positive : 0 < lo)
    (belowIff : below ↔ (lo + k) % 2 = 1) (aboveIff : above ↔ (hi + k) % 2 = 0)
    (relates : ∀ x, lo ≤ x → x ≤ hi → ∀ c, related x c ↔ (x + k) / 2 = (c + k) / 2) :
    Adds target (let target := if below then target.addRangeUnicode (lo - 1) (lo - 1) else target
      if above then target.addRangeUnicode (hi + 1) (hi + 1) else target) fun c => ∃ x,
      lo ≤ x ∧ x ≤ hi ∧ related x c := by
  have partnerBelow : below → related lo (lo - 1) := by
    intro holds
    have odd := belowIff.mp holds
    exact (relates lo le_rfl nonempty _).mpr (by omega)
  have partnerAbove : above → related hi (hi + 1) := by
    intro holds
    have even := aboveIff.mp holds
    exact (relates hi nonempty le_rfl _).mpr (by omega)
  have low : below → 0x80 ≤ lo - 1 ∧ lo - 1 ≤ 0xFFFF := fun holds => bounds lo le_rfl nonempty _ (partnerBelow holds)
  have high : above → 0x80 ≤ hi + 1 ∧ hi + 1 ≤ 0xFFFF := fun holds => bounds hi nonempty le_rfl _ (partnerAbove holds)
  have first := @adds_if target (target.addRangeUnicode (lo - 1) (lo - 1)) (fun c => lo - 1 ≤ c ∧ c ≤ lo - 1) below _
    fun holds => adds_addRangeUnicode le_rfl (low holds).1 (low holds).2
  have both := first.trans (adds_if fun holds => adds_addRangeUnicode le_rfl (high holds).1 (high holds).2)
  refine both.relatives present (fun c either => ?_) fun x atLeast atMost c isRelated => ?_
  · rcases either with ⟨holds, inside⟩ | ⟨holds, inside⟩
    · obtain rfl : c = lo - 1 := by omega
      exact ⟨lo, le_rfl, nonempty, partnerBelow holds⟩
    · obtain rfl : c = hi + 1 := by omega
      exact ⟨hi, nonempty, le_rfl, partnerAbove holds⟩
  · have same := (relates x atLeast atMost c).mp isRelated
    rw [belowIff, aboveIff]
    omega

end Relatives

/-- A valid class is appended as it is. -/
theorem adds_append {other : CharacterClass} (valid : other.Valid) :
    Adds target (target.append other) other.Contains := by
  have first : ∀ start, Adds start (other.asciiMatches.foldl addMatch start) fun c => ∃ ch ∈ other.asciiMatches,
      c = ch := by
    intro start
    exact adds_foldl fun ch member _ => adds_addMatch (valid.asciiMatches_ascii ch member)
  have second :
      ∀ start, Adds start (other.ranges.foldl (fun target range => target.addRange range.first range.last) start)
      (Within other.ranges) := by
    intro start
    refine adds_foldl fun range member _ => ?_
    have nonempty := valid.ranges_separated.1 range member
    exact adds_addRange nonempty (valid.ranges_ascii _ ⟨range, member, nonempty, le_rfl⟩)
  have third : ∀ start, Adds start (other.matchesUnicode.foldl addMatchUnicode start)
      fun c => ∃ ch ∈ other.matchesUnicode, c = ch := by
    intro start
    refine adds_foldl fun ch member _ => ?_
    exact adds_addMatchUnicode (valid.matchesUnicode_apart ch member).1 (valid.matchesUnicode_apart ch member).2
  have fourth : ∀ start, Adds start
      (other.rangesUnicode.foldl (fun target range => target.addRangeUnicode range.first range.last) start)
      (Within other.rangesUnicode) := by
    intro start
    refine adds_foldl fun range member _ => ?_
    have nonempty := valid.rangesUnicode_separated.1 range member
    exact adds_addRangeUnicode nonempty (valid.rangesUnicode_apart _ ⟨range, member, le_rfl, nonempty⟩).1
      (valid.rangesUnicode_apart _ ⟨range, member, nonempty, le_rfl⟩).2
  refine ((((first target).trans (second _)).trans (third _)).trans (fourth _)).congr fun c => ?_
  simp only [exists_eq_right', Contains, or_assoc]

end Additions

section Equivalents

variable {table : CanonicalizationTable} (wellFormed : table.WellFormed) {target : CharacterClass}
  {before after : List UCS2CanonicalizationRange} {info : UCS2CanonicalizationRange} {ch lo hi last : Nat}

include wellFormed

/-- What is equivalent to a code unit that is not ASCII. -/
theorem equivalent_bounds (low : 0x80 ≤ ch) (high : ch ≤ 0xFFFF) {c : Nat}
    (equivalent : table.areCanonicallyEquivalent ch c = true) : 0x80 ≤ c ∧ c ≤ 0xFFFF := by
  have apart := wellFormed.apart ch c high equivalent
  exact ⟨by omega, wellFormed.unit ch c high equivalent⟩

theorem adds_set (entries : table.rangeInfo = before ++ info :: after) (holds : info.first ≤ ch ∧ ch ≤ info.last)
    (type : info.type = .set) (low : 0x80 ≤ ch) (high : ch ≤ 0xFFFF) :
    Adds target ((table.characterSet info.value).foldl addMatchUnicode target)
      fun c => table.areCanonicallyEquivalent ch c = true := by
  have members : ∀ c, table.areCanonicallyEquivalent ch c = true ↔ c ∈ table.characterSet info.value := by
    intro c
    rw [equivalent_eq wellFormed.consecutive entries holds, CanonicalizationTable.equivalentIn, type]
    exact decide_eq_true_iff
  refine (@adds_foldl _ _ _ (fun member c => c = member) _ fun member inside _ => ?_).congr fun c => by simp [members]
  have bounds := equivalent_bounds wellFormed low high ((members member).mpr inside)
  exact adds_addMatchUnicode bounds.1 bounds.2

/-- The equivalents of a code unit whose entry has pairs. -/
theorem pair_iff (entries : table.rangeInfo = before ++ info :: after) (holds : info.first ≤ ch ∧ ch ≤ info.last)
    (notSet : info.type ≠ .set) (notUnique : info.type ≠ .unique) (c : Nat) :
    table.areCanonicallyEquivalent ch c = true ↔ c = ch ∨ c = getCanonicalPair info ch := by
  have paired := wellFormed.paired info (by simp [entries])
  rw [equivalent_eq wellFormed.consecutive entries holds]
  obtain ⟨first, final, value, type⟩ := info
  cases type with
  | unique => exact absurd rfl notUnique
  | set => exact absurd rfl notSet
  | rangeLo =>
    simp only [CanonicalizationTable.equivalentIn, getCanonicalPair, Bool.or_eq_true, decide_eq_true_iff]
    omega
  | rangeHi =>
    simp only [UCS2CanonicalizationRange.Paired] at paired holds
    simp only [CanonicalizationTable.equivalentIn, getCanonicalPair, Bool.or_eq_true, decide_eq_true_iff]
    omega
  | alternatingAligned =>
    simp only [CanonicalizationTable.equivalentIn, getCanonicalPair, decide_eq_true_iff]
    unfold orOne xorOne
    split_ifs <;> omega
  | alternatingUnaligned =>
    simp only [UCS2CanonicalizationRange.Paired] at paired holds
    simp only [CanonicalizationTable.equivalentIn, getCanonicalPair, decide_eq_true_iff]
    unfold orOne xorOne
    split_ifs <;> omega

theorem adds_putUnicodeIgnoreCase (entries : table.rangeInfo = before ++ info :: after)
    (holds : info.first ≤ ch ∧ ch ≤ info.last) (notUnique : info.type ≠ .unique) (low : 0x80 ≤ ch)
    (high : ch ≤ 0xFFFF) :
    Adds target (target.putUnicodeIgnoreCase table ch info) fun c => table.areCanonicallyEquivalent ch c = true := by
  rw [putUnicodeIgnoreCase]
  split
  · next set => exact adds_set wellFormed entries holds set low high
  · next notSet =>
    have pair := pair_iff wellFormed entries holds notSet notUnique
    have bounds := equivalent_bounds wellFormed low high ((pair _).mpr (.inr rfl))
    exact ((adds_addMatchUnicode low high).trans (adds_addMatchUnicode bounds.1 bounds.2)).congr fun c => (pair c).symm

theorem ascii_equivalent_iff (ascii : ch ≤ 0x7F) (c : Nat) :
    table.areCanonicallyEquivalent ch c = true ↔
      ch = c ∨ (0x41 ≤ ch ∧ ch ≤ 0x5A ∧ c = ch + 0x20) ∨ (0x61 ≤ ch ∧ ch ≤ 0x7A ∧ c + 0x20 = ch) := by
  rcases Nat.lt_or_ge 0x7F c with notAscii | asciiToo
  · refine iff_of_false (fun related => ?_) (by omega)
    have := wellFormed.apart ch c (by omega) related
    omega
  · rw [wellFormed.ascii ch c ascii asciiToo, toASCIIUpper_eq_iff]

theorem adds_putChar (isCaseInsensitive : Bool) (high : ch ≤ 0xFFFF) :
    Adds target (target.putChar table isCaseInsensitive ch)
      fun c => c = ch ∨ isCaseInsensitive = true ∧ table.areCanonicallyEquivalent ch c = true := by
  rw [putChar]
  split
  · next ascii =>
    have equivalent := fun c => ascii_equivalent_iff wellFormed ascii c
    have letter : isASCIIAlpha ch = true ↔ 0x41 ≤ ch ∧ ch ≤ 0x5A ∨ 0x61 ≤ ch ∧ ch ≤ 0x7A := by
      simp only [isASCIIAlpha, isASCIIUpper, isASCIILower, Bool.or_eq_true, Bool.and_eq_true, decide_eq_true_iff]
      exact Iff.rfl
    cases isCaseInsensitive with
    | false => exact (adds_addMatch ascii).congr (by simp)
    | true =>
      simp only [Bool.true_and, equivalent, true_and]
      split
      · next alpha =>
        have cases := letter.mp alpha
        have upper : toASCIIUpper ch = if 0x61 ≤ ch then ch - 0x20 else ch := by
          simp only [toASCIIUpper, isASCIILower, code, Bool.and_eq_true, decide_eq_true_iff,
            show 'a'.toNat = 0x61 from rfl, show 'z'.toNat = 0x7A from rfl]
          split_ifs <;> omega
        have lower : toASCIILower ch = if 0x61 ≤ ch then ch else ch + 0x20 := by
          simp only [toASCIILower, isASCIIUpper, code, Bool.and_eq_true, decide_eq_true_iff,
            show 'A'.toNat = 0x41 from rfl, show 'Z'.toNat = 0x5A from rfl]
          split_ifs <;> omega
        rw [upper, lower]
        refine ((adds_addMatch (by split <;> omega)).trans (adds_addMatch (by split <;> omega))).congr fun c => ?_
        split <;> omega
      · next notAlpha =>
        rw [letter] at notAlpha
        refine (adds_addMatch ascii).congr fun c => ?_
        omega
  · next notAscii =>
    cases isCaseInsensitive with
    | false => exact (adds_addMatchUnicode (by omega) high).congr (by simp)
    | true =>
      obtain ⟨before, info, after, found, entries, holds⟩ := exists_rangeInfoFor wellFormed.consecutive high
      have reflexive := wellFormed.reflexive ch high
      simp only [found, Bool.not_true, Bool.false_eq_true, if_false]
      split
      · next unique =>
        refine (adds_addMatchUnicode (by omega) high).congr fun c => ?_
        have equivalent : table.areCanonicallyEquivalent ch c = true ↔ ch = c := by
          rw [equivalent_eq wellFormed.consecutive entries holds, CanonicalizationTable.equivalentIn, unique]
          exact decide_eq_true_iff
        simp [equivalent, eq_comm]
      · next notUnique =>
        refine (adds_putUnicodeIgnoreCase wellFormed entries holds notUnique (by omega) high).congr fun c => ?_
        simp only [true_and]
        exact ⟨.inr, fun either => either.elim (fun same => same ▸ reflexive) id⟩

/-- The characters of one entry, where they are in the class already. -/
theorem adds_putEquivalents (entries : table.rangeInfo = before ++ info :: after) (first : info.first ≤ lo)
    (nonempty : lo ≤ last) (final : last ≤ info.last) (low : 0x80 ≤ lo) (high : last ≤ 0xFFFF)
    (present : ∀ x, lo ≤ x → x ≤ last → target.Contains x) :
    Adds target (target.putEquivalents table info lo last)
      fun c => ∃ x, lo ≤ x ∧ x ≤ last ∧ table.areCanonicallyEquivalent x c = true := by
  have paired := wellFormed.paired info (by simp [entries])
  have relation : ∀ x, lo ≤ x → x ≤ last → ∀ c, table.areCanonicallyEquivalent x c = table.equivalentIn info x c :=
    fun x below above => equivalent_eq wellFormed.consecutive entries ⟨by omega, by omega⟩
  have bounds : ∀ x, lo ≤ x → x ≤ last → ∀ c, table.areCanonicallyEquivalent x c = true → 0x80 ≤ c ∧ c ≤ 0xFFFF :=
    fun x below above c => equivalent_bounds wellFormed (by omega) (by omega)
  rw [putEquivalents]
  split
  · next type =>
    refine Adds.refl.relatives present nofun fun x below above c related => ?_
    rw [relation x below above, CanonicalizationTable.equivalentIn, type, decide_eq_true_iff] at related
    omega
  · next type =>
    refine (adds_set wellFormed entries ⟨first, by omega⟩ type low (by omega)).relatives present
      (fun c related => ⟨lo, le_rfl, nonempty, related⟩) fun x below above c related => .inr ?_
    rw [relation x below above, CanonicalizationTable.equivalentIn, type] at related
    rw [relation lo le_rfl nonempty, CanonicalizationTable.equivalentIn, type]
    exact related
  · next type =>
    refine adds_shifted nonempty present bounds (Nat.add_zero _) (Nat.add_zero _) fun x below above c => ?_
    rw [relation x below above, CanonicalizationTable.equivalentIn, type, Bool.or_eq_true, decide_eq_true_iff,
      decide_eq_true_iff, Nat.add_zero]
  · next type =>
    simp only [UCS2CanonicalizationRange.Paired, type] at paired
    have firstShifted : lo - info.value + info.value = lo + 0 := Nat.sub_add_cancel (by omega)
    have lastShifted : last - info.value + info.value = last + 0 := Nat.sub_add_cancel (by omega)
    refine adds_shifted nonempty present bounds firstShifted lastShifted fun x below above c => ?_
    rw [relation x below above, CanonicalizationTable.equivalentIn, type, Bool.or_eq_true, decide_eq_true_iff,
      decide_eq_true_iff]
    omega
  · next type =>
    refine adds_paired nonempty present bounds (k := 0) (by omega) Iff.rfl Iff.rfl fun x below above c => ?_
    rw [relation x below above, CanonicalizationTable.equivalentIn, type]
    simp only [decide_eq_true_iff]
    unfold orOne
    omega
  · next type =>
    refine adds_paired nonempty present bounds (k := 1) (by omega) (by omega) (by omega) fun x below above c => ?_
    rw [relation x below above, CanonicalizationTable.equivalentIn, type]
    simp only [decide_eq_true_iff]
    unfold orOne
    omega

/-- The loop adds the equivalents of the whole range. -/
theorem putRangeEquivalents_spec (entries : table.rangeInfo = before ++ info :: after) (first : info.first ≤ lo)
    (final : lo ≤ info.last) (nonempty : lo ≤ hi) (low : 0x80 ≤ lo) (high : hi ≤ 0xFFFF) (valid : target.Valid)
    (present : ∀ x, lo ≤ x → x ≤ hi → target.Contains x) :
    (putRangeEquivalents table hi (info :: after) lo target).Valid ∧
      ∀ c, (putRangeEquivalents table hi (info :: after) lo target).Contains c ↔
        target.Contains c ∨ ∃ x, lo ≤ x ∧ x ≤ hi ∧ table.areCanonicallyEquivalent x c = true := by
  induction after generalizing before info lo target with
  | nil =>
    have consecutive := wellFormed.consecutive
    rw [entries] at consecutive
    have ends : info.last + 1 = 0x10000 := consecutive.bounds.2.2.2
    have here : min info.last hi = hi := by omega
    rw [putRangeEquivalents, here, if_pos rfl]
    exact adds_putEquivalents wellFormed entries first nonempty (by omega) low high present valid
  | cons next others ih =>
    have consecutive := wellFormed.consecutive
    rw [entries] at consecutive
    obtain ⟨begins, nextNonempty, -, -⟩ := consecutive.bounds.2.2.2
    rcases Nat.lt_or_ge info.last hi with beyond | inside
    · have here : min info.last hi = info.last := by omega
      obtain ⟨middleValid, contents⟩ := adds_putEquivalents wellFormed entries first final le_rfl low (by omega)
        (fun x below above => present x below (by omega)) valid
      obtain ⟨resultValid, contentsToo⟩ :=
        @ih (target.putEquivalents table info lo info.last) (before ++ [info]) next next.first
        (by simp [entries]) le_rfl nextNonempty (by omega) (by omega) middleValid
        fun x below above => (contents x).mpr (.inl (present x (by omega) above))
      rw [putRangeEquivalents, here, if_neg (by omega)]
      refine ⟨resultValid, fun c => ?_⟩
      rw [contentsToo, contents, or_assoc]
      refine or_congr_right ⟨?_, ?_⟩
      · rintro (⟨x, below, above, related⟩ | ⟨x, below, above, related⟩)
        · exact ⟨x, below, by omega, related⟩
        · exact ⟨x, by omega, above, related⟩
      · rintro ⟨x, below, above, related⟩
        rcases Nat.lt_or_ge info.last x with later | earlier
        · exact .inr ⟨x, by omega, above, related⟩
        · exact .inl ⟨x, below, earlier, related⟩
    · have here : min info.last hi = hi := by omega
      rw [putRangeEquivalents, here, if_pos rfl]
      exact adds_putEquivalents wellFormed entries first nonempty inside low high present valid

/-- The characters of a range, and what is equivalent to them. -/
def RangeAccepts (table : CanonicalizationTable) (isCaseInsensitive : Bool) (lo hi c : Nat) : Prop :=
  ∃ x, lo ≤ x ∧ x ≤ hi ∧ (c = x ∨ isCaseInsensitive = true ∧ table.areCanonicallyEquivalent x c = true)

omit wellFormed in
theorem rangeAccepts_false (c : Nat) : RangeAccepts table false lo hi c ↔ lo ≤ c ∧ c ≤ hi := by
  simp [RangeAccepts]

theorem adds_putASCIIRange (isCaseInsensitive : Bool) (nonempty : lo ≤ hi) (ascii : hi ≤ 0x7F) :
    Adds target (target.putASCIIRange isCaseInsensitive lo hi) (RangeAccepts table isCaseInsensitive lo hi) := by
  cases isCaseInsensitive with
  | false => exact (adds_addRange nonempty ascii).congr fun c => (rangeAccepts_false c).symm
  | true =>
    have codes : code 'A' = 0x41 ∧ code 'Z' = 0x5A ∧ code 'a' = 0x61 ∧ code 'z' = 0x7A := ⟨rfl, rfl, rfl, rfl⟩
    refine ((adds_addRange nonempty ascii).trans (adds_if fun holds => adds_addRange (by omega) (by omega)) |>.trans
      (adds_if fun holds => adds_addRange (by omega) (by omega))).congr fun c => ?_
    have related : ∀ x, lo ≤ x ∧ x ≤ hi → (table.areCanonicallyEquivalent x c = true ↔
        x = c ∨ (0x41 ≤ x ∧ x ≤ 0x5A ∧ c = x + 0x20) ∨ (0x61 ≤ x ∧ x ≤ 0x7A ∧ c + 0x20 = x)) :=
      fun x inside => ascii_equivalent_iff wellFormed (by omega) c
    constructor
    · rintro ((inside | ⟨meets, inside⟩) | ⟨meets, inside⟩)
      · exact ⟨c, inside.1, inside.2, .inl rfl⟩
      · exact ⟨c - 0x20, by omega, by omega, .inr ⟨rfl, (related _ (by omega)).mpr (by omega)⟩⟩
      · exact ⟨c + 0x20, by omega, by omega, .inr ⟨rfl, (related _ (by omega)).mpr (by omega)⟩⟩
    · rintro ⟨x, below, above, rfl | ⟨-, equivalent⟩⟩
      · exact .inl (.inl ⟨below, above⟩)
      · have := (related x ⟨below, above⟩).mp equivalent
        omega

theorem adds_putUnicodeRange (isCaseInsensitive : Bool) (nonempty : lo ≤ hi) (low : 0x80 ≤ lo) (high : hi ≤ 0xFFFF) :
    Adds target (target.putUnicodeRange table isCaseInsensitive lo hi)
    (RangeAccepts table isCaseInsensitive lo hi) := by
  cases isCaseInsensitive with
  | false => exact (adds_addRangeUnicode nonempty low high).congr fun c => (rangeAccepts_false c).symm
  | true =>
    intro valid
    obtain ⟨middleValid, contents⟩ := adds_addRangeUnicode nonempty low high valid
    obtain ⟨before, info, after, found, entries, first, final⟩ :=
      exists_rangeInfoFor wellFormed.consecutive (show lo ≤ 0xFFFF by omega)
    obtain ⟨resultValid, contentsToo⟩ :=
      putRangeEquivalents_spec wellFormed entries first final nonempty low high middleValid
      fun x below above => (contents x).mpr (.inr ⟨below, above⟩)
    rw [← found] at resultValid contentsToo
    refine ⟨resultValid, fun c => (contentsToo c).trans ?_⟩
    rw [contents, or_assoc]
    refine or_congr_right ⟨?_, ?_⟩
    · rintro (inside | ⟨x, below, above, equivalent⟩)
      · exact ⟨c, inside.1, inside.2, .inl rfl⟩
      · exact ⟨x, below, above, .inr ⟨rfl, equivalent⟩⟩
    · rintro ⟨x, below, above, rfl | ⟨-, equivalent⟩⟩
      · exact .inl ⟨below, above⟩
      · exact .inr ⟨x, below, above, equivalent⟩

theorem adds_putRange (isCaseInsensitive : Bool) (nonempty : lo ≤ hi) (high : hi ≤ 0xFFFF) :
    Adds target (target.putRange table isCaseInsensitive lo hi) (RangeAccepts table isCaseInsensitive lo hi) := by
  have first : Adds target (if lo ≤ 0x7F then target.putASCIIRange isCaseInsensitive lo (min hi 0x7F) else target) _ :=
    adds_if fun ascii => adds_putASCIIRange wellFormed isCaseInsensitive (show lo ≤ min hi 0x7F by omega) (by omega)
  rw [putRange]
  split
  · next allAscii =>
    refine first.congr fun c => ?_
    rw [show min hi 0x7F = hi by omega]
    exact and_iff_right (by omega)
  · next beyond =>
    refine (first.trans (adds_putUnicodeRange wellFormed isCaseInsensitive (by omega) (by omega) high)).congr fun c =>
      ⟨?_, ?_⟩
    · rintro (⟨ascii, x, below, above, accepts⟩ | ⟨x, below, above, accepts⟩)
      · exact ⟨x, below, by omega, accepts⟩
      · exact ⟨x, by omega, above, accepts⟩
    · rintro ⟨x, below, above, accepts⟩
      rcases Nat.lt_or_ge 0x7F x with unicode | ascii
      · exact .inr ⟨x, by omega, above, accepts⟩
      · exact .inl ⟨by omega, x, below, by omega, accepts⟩

end Equivalents

/-- What is put into a class. -/
inductive Item where
  | char (ch : Nat)
  | range (lo hi : Nat)
  | characterClass (other : CharacterClass)

/-- Code units in order, and classes that the constructor could have made. -/
def Item.Fits : Item → Prop
  | char ch => ch ≤ 0xFFFF
  | range lo hi => lo ≤ hi ∧ hi ≤ 0xFFFF
  | characterClass other => other.Valid

def put (table : CanonicalizationTable) (isCaseInsensitive : Bool) (target : CharacterClass) : Item → CharacterClass
  | .char ch => target.putChar table isCaseInsensitive ch
  | .range lo hi => target.putRange table isCaseInsensitive lo hi
  | .characterClass other => target.append other

/-- The characters that an item stands for. A class that is appended is not closed under equivalence. -/
def Item.Accepts (table : CanonicalizationTable) (isCaseInsensitive : Bool) : Item → Nat → Prop
  | char ch, c => c = ch ∨ isCaseInsensitive = true ∧ table.areCanonicallyEquivalent ch c = true
  | range lo hi, c => RangeAccepts table isCaseInsensitive lo hi c
  | characterClass other, c => other.testCharacterClass c = true

/-- The same, by the contents of an appended class. -/
def Item.Has (table : CanonicalizationTable) (isCaseInsensitive : Bool) : Item → Nat → Prop
  | characterClass other, c => other.Contains c
  | item, c => item.Accepts table isCaseInsensitive c

theorem Item.has_iff {table : CanonicalizationTable} {isCaseInsensitive : Bool} {item : Item} (fits : item.Fits)
    {c : Nat} (unit : c ≤ 0xFFFF) : item.Has table isCaseInsensitive c ↔ item.Accepts table isCaseInsensitive c := by
  cases item with
  | char ch => rfl
  | range lo hi => rfl
  | characterClass other => exact (Valid.test_iff fits unit).symm

theorem adds_put {table : CanonicalizationTable} (wellFormed : table.WellFormed) (isCaseInsensitive : Bool)
    {item : Item} (fits : item.Fits) (target : CharacterClass) :
    Adds target (put table isCaseInsensitive target item) (item.Has table isCaseInsensitive) := by
  cases item with
  | char ch => exact adds_putChar wellFormed isCaseInsensitive fits
  | range lo hi => exact adds_putRange wellFormed isCaseInsensitive fits.1 fits.2
  | characterClass other => exact adds_append fits

/-- A constructed class has its vectors sorted and apart, and accepts what some item stands for. -/
theorem construct_accepts {table : CanonicalizationTable} (wellFormed : table.WellFormed) (isCaseInsensitive : Bool)
    {items : List Item} (fits : ∀ item ∈ items, item.Fits) :
    (items.foldl (put table isCaseInsensitive) empty).Valid ∧
      ∀ c ≤ 0xFFFF, (items.foldl (put table isCaseInsensitive) empty).testCharacterClass c = true ↔
        ∃ item ∈ items, item.Accepts table isCaseInsensitive c := by
  obtain ⟨valid, contents⟩ :=
    adds_foldl (fun item member => adds_put wellFormed isCaseInsensitive (fits item member)) valid_empty
  refine ⟨valid, fun c unit => ?_⟩
  rw [valid.test_iff unit, contents, or_iff_right (not_contains_empty c)]
  exact exists_congr fun item => and_congr_right fun member => Item.has_iff (fits item member) unit

/-- A class of a letter and a range that crosses `0x80`. -/
theorem construct_accepts_kelvin :
    ([Item.char 0x6B, .range 0x70 0x212A].foldl (put letterTable true) empty).testCharacterClass 0x4B = true :=
  ((construct_accepts letterTable_wellFormed true (by simp [Item.Fits])).2 0x4B (by decide)).mpr
    ⟨.char 0x6B, by simp, .inr ⟨rfl, by decide⟩⟩

/-- An appended class is not closed under equivalence. -/
theorem append_diverges :
    letterTable.areCanonicallyEquivalent 0x61 0x41 = true ∧
      ([Item.characterClass ⟨[0x61], [], [], []⟩].foldl (put letterTable true) empty).testCharacterClass 0x41 =
      false := by
  decide

end CharacterClass

end WebNode.Yarr
