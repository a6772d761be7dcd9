import WebNode.Ipc.BufferRoundTrip
import WebNode.Wtf.HashTableAdd

/-!
# Hash tables from the wire

`ArgumentCoder<HashMap>` and `ArgumentCoder<HashSet>` read the entries one after the other and add
each to the table. They refuse a key that is there already, and nothing else.
-/

namespace WebNode.Ipc

open WebNode.Wtf

/-! ### Reading and adding -/

section Adding

variable {κ ν : Type} [Inhabited ν] (traits : HashTraits κ)

/-- The table after an entry with a new key was added. -/
def addNew (table : HashTable κ ν) (entry : κ × ν) : Option (HashTable κ ν) :=
  match table.add traits entry.1 entry.2 with
  | some (true, changed) => some changed
  | _ => none

/-- The table after all entries were added, each with a new key. -/
def addAll (table : HashTable κ ν) (entries : List (κ × ν)) : Option (HashTable κ ν) :=
  entries.foldlM (addNew traits) table

variable {traits} {table changed : HashTable κ ν} {decoder final : ArgumentDecoder}

theorem addAll_cons (entry : κ × ν) (rest : List (κ × ν)) :
    addAll traits table (entry :: rest) = some changed ↔
      ∃ next, addNew traits table entry = some next ∧ addAll traits next rest = some changed := by
  rw [addAll, List.foldlM_cons]
  exact Option.bind_eq_some_iff

theorem addNew_eq_some_iff {entry : κ × ν} :
    addNew traits table entry = some changed ↔ table.add traits entry.1 entry.2 = some (true, changed) := by
  rw [addNew]
  split
  · simp_all
  · rename_i other
    exact ⟨nofun, fun added => absurd added (other changed)⟩

theorem addEntry_eq_some_iff {key : κ} {value : ν} :
    ArgumentCoder.addEntry traits table key value decoder = some (some changed, final) ↔
      addNew traits table (key, value) = some changed ∧ final = decoder := by
  rw [addNew_eq_some_iff, ArgumentCoder.addEntry]
  rcases table.add traits key value with _ | ⟨_ | _, next⟩
  · simp [Decode.crash]
  · simp [Decode.invalid]
  · show some (some next, decoder) = _ ↔ some (true, next) = _ ∧ _
    simp [eq_comm]

omit [Inhabited ν] in
theorem pair_decode_iff {keyCoder : ArgumentCoder κ} {valueCoder : ArgumentCoder ν} {entry : κ × ν} :
    (ArgumentCoder.pair keyCoder valueCoder).decode decoder = some (some entry, final) ↔
      ∃ middle, keyCoder.decode decoder = some (some entry.1, middle) ∧
      valueCoder.decode middle = some (some entry.2, final) := by
  obtain ⟨key, value⟩ := entry
  refine Decode.bind_eq_some_iff.trans ⟨?_, ?_⟩
  · rintro ⟨key', middle, keyRun, rest⟩
    obtain ⟨value', final', valueRun, result⟩ := Decode.bind_eq_some_iff.mp rest
    cases result
    exact ⟨middle, keyRun, valueRun⟩
  · rintro ⟨middle, keyRun, valueRun⟩
    exact ⟨key, middle, keyRun, Decode.bind_eq_some_iff.mpr ⟨value, final, valueRun, rfl⟩⟩

theorem decodeElements_succ_iff {coder : ArgumentCoder κ} {count : Nat} {elements : List κ} :
    ArgumentCoder.decodeElements coder (count + 1) decoder = some (some elements, final) ↔
      ∃ element rest middle, elements = element :: rest ∧ coder.decode decoder = some (some element, middle) ∧
        ArgumentCoder.decodeElements coder count middle = some (some rest, final) := by
  refine Decode.bind_eq_some_iff.trans ⟨?_, ?_⟩
  · rintro ⟨element, middle, run, next⟩
    obtain ⟨rest, final', restRun, result⟩ := Decode.bind_eq_some_iff.mp next
    cases result
    exact ⟨element, rest, middle, rfl, run, restRun⟩
  · rintro ⟨element, rest, middle, rfl, run, restRun⟩
    exact ⟨element, middle, run, Decode.bind_eq_some_iff.mpr ⟨rest, final, restRun, rfl⟩⟩

theorem decodeElements_zero_iff {coder : ArgumentCoder κ} {elements : List κ} :
    ArgumentCoder.decodeElements coder 0 decoder = some (some elements, final) ↔ elements = [] ∧ final = decoder := by
  show some (some [], decoder) = _ ↔ _
  simp [eq_comm]

/-- A loop that reads an element and adds its entry reads as the loop over elements does. -/
theorem loop_eq_some_iff {α : Type} {coder : ArgumentCoder α} {entryOf : α → κ × ν}
    {loop : Nat → HashTable κ ν → Decode (HashTable κ ν)} (done : ∀ table, loop 0 table = pure table)
    (step : ∀ {count table decoder changed final}, loop (count + 1) table decoder = some (some changed, final) ↔
      ∃ element middle next, coder.decode decoder = some (some element, middle) ∧
        addNew traits table (entryOf element) = some next ∧
        loop count next middle = some (some changed, final)) (count : Nat) :
    loop count table decoder = some (some changed, final) ↔
      ∃ elements, ArgumentCoder.decodeElements coder count decoder = some (some elements, final) ∧
        addAll traits table (elements.map entryOf) = some changed := by
  induction count generalizing table decoder with
  | zero =>
    simp only [decodeElements_zero_iff, done]
    show some (some table, decoder) = _ ↔ _
    constructor
    · rintro ⟨⟩
      exact ⟨[], ⟨rfl, rfl⟩, rfl⟩
    · rintro ⟨_, ⟨rfl, rfl⟩, ⟨⟩⟩
      rfl
  | succ count ih =>
    simp only [decodeElements_succ_iff, step, ih]
    constructor
    · rintro ⟨element, middle, next, run, added, rest, restRun, restAdded⟩
      exact ⟨_, ⟨element, rest, middle, rfl, run, restRun⟩, (addAll_cons _ _).mpr ⟨next, added, restAdded⟩⟩
    · rintro ⟨_, ⟨element, rest, middle, rfl, run, restRun⟩, added⟩
      obtain ⟨next, first, restAdded⟩ := (addAll_cons _ _).mp added
      exact ⟨element, middle, next, run, first, rest, restRun, restAdded⟩

theorem decodeEntries_eq_some_iff {keyCoder : ArgumentCoder κ} {valueCoder : ArgumentCoder ν} {count : Nat} :
    ArgumentCoder.decodeEntries traits keyCoder valueCoder count table decoder = some (some changed, final) ↔
      ∃ entries, ArgumentCoder.decodeElements (.pair keyCoder valueCoder) count decoder = some (some entries, final) ∧
        addAll traits table entries = some changed := by
  have step : ∀ {count table decoder changed final},
      ArgumentCoder.decodeEntries traits keyCoder valueCoder (count + 1) table decoder = some (some changed, final) ↔
        ∃ entry middle next, (ArgumentCoder.pair keyCoder valueCoder).decode decoder = some (some entry, middle) ∧
          addNew traits table (id entry) = some next ∧
          ArgumentCoder.decodeEntries traits keyCoder valueCoder count next middle = some (some changed, final) := by
    intro count table decoder changed final
    simp only [pair_decode_iff]
    refine Decode.bind_eq_some_iff.trans ⟨?_, ?_⟩
    · rintro ⟨key, middle, keyRun, afterKey⟩
      obtain ⟨value, middle', valueRun, afterValue⟩ := Decode.bind_eq_some_iff.mp afterKey
      obtain ⟨next, _, added, rest⟩ := Decode.bind_eq_some_iff.mp afterValue
      obtain ⟨new, rfl⟩ := addEntry_eq_some_iff.mp added
      exact ⟨(key, value), _, next, ⟨middle, keyRun, valueRun⟩, new, rest⟩
    · rintro ⟨entry, middle', next, ⟨middle, keyRun, valueRun⟩, new, rest⟩
      refine ⟨entry.1, middle, keyRun, Decode.bind_eq_some_iff.mpr ⟨entry.2, middle', valueRun, ?_⟩⟩
      exact Decode.bind_eq_some_iff.mpr ⟨next, middle', addEntry_eq_some_iff.mpr ⟨new, rfl⟩, rest⟩
  refine (loop_eq_some_iff (fun _ => rfl) step count).trans ?_
  simp only [List.map_id]

theorem decodeKeys_eq_some_iff {keyCoder : ArgumentCoder κ} {count : Nat} {table changed : HashTable κ Unit} :
    ArgumentCoder.decodeKeys traits keyCoder count table decoder = some (some changed, final) ↔
      ∃ keys, ArgumentCoder.decodeElements keyCoder count decoder = some (some keys, final) ∧
        addAll traits table (keys.map (·, ())) = some changed := by
  refine loop_eq_some_iff (fun _ => rfl) (fun {count table decoder changed final} => ?_) count
  refine Decode.bind_eq_some_iff.trans ⟨?_, ?_⟩
  · rintro ⟨key, middle, keyRun, afterKey⟩
    obtain ⟨next, _, added, rest⟩ := Decode.bind_eq_some_iff.mp afterKey
    obtain ⟨new, rfl⟩ := addEntry_eq_some_iff.mp added
    exact ⟨key, _, next, keyRun, new, rest⟩
  · rintro ⟨key, middle, next, keyRun, new, rest⟩
    exact ⟨key, middle, keyRun, Decode.bind_eq_some_iff.mpr ⟨next, middle, addEntry_eq_some_iff.mpr ⟨new, rfl⟩, rest⟩⟩

/-! ### Tables with all entries -/

theorem exists_hash_of_addToTable {key : κ} {value : ν} {result : Bool × HashTable κ ν}
    (added : table.addToTable traits key value = some result) : ∃ h, traits.hash key = some h := by
  rw [HashTable.addToTable, Option.bind_eq_bind] at added
  obtain ⟨_, searched, _⟩ := Option.bind_eq_some_iff.mp added
  rw [HashTable.lookupForWriting, Option.bind_eq_bind] at searched
  obtain ⟨h, hashed, _⟩ := Option.bind_eq_some_iff.mp searched
  exact ⟨h, hashed⟩

/-- A key that was added has a hash. -/
theorem exists_hash_of_addNew {entry : κ × ν} (added : addNew traits table entry = some changed) :
    ∃ h, traits.hash entry.1 = some h := by
  rw [addNew_eq_some_iff, HashTable.add, Option.bind_eq_bind] at added
  split at added
  · obtain ⟨_, _, addedTo⟩ := Option.bind_eq_some_iff.mp added
    exact exists_hash_of_addToTable addedTo
  · exact exists_hash_of_addToTable added

open HashTable in
/-- Entries that were all added are all there, provided that no key is a mark of a bucket. -/
theorem valid_addAll (lawful : traits.Lawful) {entries : List (κ × ν)} (valid : Valid traits table)
    (live : ∀ entry ∈ entries, Live traits entry) (added : addAll traits table entries = some changed) :
    Valid traits changed ∧ (changed.entries traits).Perm (entries ++ table.entries traits) := by
  induction entries generalizing table with
  | nil =>
    cases added
    exact ⟨valid, .refl _⟩
  | cons entry rest ih =>
    obtain ⟨next, first, restAdded⟩ := (addAll_cons _ _).mp added
    have isKey : traits.IsKey entry.1 :=
      have here := live_iff.mp (live entry (List.mem_cons_self ..))
      ⟨here.1, here.2, exists_hash_of_addNew first⟩
    have outcome := valid.add lawful isKey entry.2
    rw [addNew_eq_some_iff.mp first] at outcome
    rcases outcome with ⟨_, found⟩ | ⟨_, ⟨_, result, valid', _, perm⟩ | ⟨failed, _⟩⟩
    · cases found
    · cases result
      obtain ⟨final, perm'⟩ := ih valid' (fun other member => live other (List.mem_cons_of_mem _ member)) restAdded
      exact ⟨final, perm'.trans ((perm.append_left rest).trans List.perm_middle)⟩
    · cases failed

open HashTable in
/-- Entries with different keys can all be added, unless there are too many. -/
theorem exists_addAll (lawful : traits.Lawful) {entries : List (κ × ν)} (valid : Valid traits table)
    (keys : Keys traits (entries ++ table.entries traits))
    (room : (entries.length + table.keyCount + table.deletedCount) * 2 < 2 ^ 30) :
    ∃ changed, addAll traits table entries = some changed := by
  induction entries generalizing table with
  | nil => exact ⟨table, rfl⟩
  | cons entry rest ih =>
    rw [List.length_cons] at room
    have isKey := keys.isKey entry (List.mem_cons_self ..)
    rcases valid.add lawful isKey entry.2 with ⟨⟨other, member, same⟩, _⟩ |
      ⟨_, ⟨next, result, valid', deleted, perm⟩ | ⟨_, full⟩⟩
    · have different := (List.pairwise_cons.mp keys.distinct).1 other (List.mem_append_right _ member)
      rw [lawful.equal_symm _ _ same] at different
      cases different
    · have count : next.keyCount = table.keyCount + 1 := by
        rw [valid'.listed.keyCount, perm.length_eq, List.length_cons, valid.listed.keyCount]
      have keys' := keys.perm lawful ((List.perm_middle.symm).trans (perm.symm.append_left rest))
      obtain ⟨changed, restAdded⟩ := ih valid' keys' (by omega)
      exact ⟨changed, (addAll_cons _ _).mpr ⟨next, addNew_eq_some_iff.mpr result, restAdded⟩⟩
    · omega

end Adding

/-! ### The traits of the key types -/

namespace KeyType

theorem lawful_integer (hashes : Hashes) (type : Integer) : ((integer type).traits hashes).Lawful where
  isEmpty_emptyValue := beq_self_eq_true _
  not_deleted_of_empty key empty := by
    obtain rfl := eq_of_beq empty
    cases type <;> rfl
  equal_refl key := beq_self_eq_true key
  equal_symm key other same := by rw [eq_of_beq same]; exact beq_self_eq_true other
  equal_trans key other third same same' := by rw [eq_of_beq same]; exact same'
  hash_eq key other same := by rw [eq_of_beq same]
  isEmpty_eq key other same := by rw [eq_of_beq same]
  isDeleted_eq key other same := by rw [eq_of_beq same]
  minimum := ⟨3, by decide, by decide, rfl⟩

/-- Keys that are compared by what can be observed of them, with the null string as the empty key. -/
theorem lawful_of_view {κ α : Type} [BEq α] [LawfulBEq α] {traits : HashTraits (Option κ)} (view : κ → α)
    (empty : traits.emptyValue = none) (isEmpty : traits.isEmptyValue = Option.isNone)
    (isDeleted : traits.isDeletedValue = fun _ => false)
    (equal : traits.equal = fun key other => key.map view == other.map view)
    (hash : ∀ key other, key.map view = other.map view → traits.hash key = traits.hash other)
    (size : traits.minimumTableSize = 8) :
    traits.Lawful where
  isEmpty_emptyValue := by rw [isEmpty, empty]; rfl
  not_deleted_of_empty key _ := by rw [isDeleted]
  equal_refl key := by simp [equal]
  equal_symm key other same := by
    simp only [equal, beq_iff_eq] at same ⊢
    exact same.symm
  equal_trans key other third same same' := by
    simp only [equal, beq_iff_eq] at same same' ⊢
    exact same.trans same'
  hash_eq key other same := by
    simp only [equal, beq_iff_eq] at same
    exact hash key other same
  isEmpty_eq key other same := by
    simp only [equal, beq_iff_eq] at same
    rw [isEmpty, ← Option.isNone_map, same, Option.isNone_map]
  isDeleted_eq key other _ := by rw [isDeleted]
  minimum := ⟨3, by decide, by decide, size⟩

theorem lawful_pair {hashes : Hashes} {first second : KeyType} (firstLawful : (first.traits hashes).Lawful)
    (secondLawful : (second.traits hashes).Lawful) : ((pair first second).traits hashes).Lawful where
  isEmpty_emptyValue := by simp [traits, firstLawful.isEmpty_emptyValue, secondLawful.isEmpty_emptyValue]
  not_deleted_of_empty key empty := firstLawful.not_deleted_of_empty key.1 (Bool.and_eq_true_iff.mp empty).1
  equal_refl key := Bool.and_eq_true_iff.mpr ⟨firstLawful.equal_refl _, secondLawful.equal_refl _⟩
  equal_symm key other same := by
    obtain ⟨firstSame, secondSame⟩ := Bool.and_eq_true_iff.mp same
    exact Bool.and_eq_true_iff.mpr ⟨firstLawful.equal_symm _ _ firstSame, secondLawful.equal_symm _ _ secondSame⟩
  equal_trans key other third same same' := by
    obtain ⟨firstSame, secondSame⟩ := Bool.and_eq_true_iff.mp same
    obtain ⟨firstSame', secondSame'⟩ := Bool.and_eq_true_iff.mp same'
    exact Bool.and_eq_true_iff.mpr
      ⟨firstLawful.equal_trans _ _ _ firstSame firstSame', secondLawful.equal_trans _ _ _ secondSame secondSame'⟩
  hash_eq key other same := by
    obtain ⟨firstSame, secondSame⟩ := Bool.and_eq_true_iff.mp same
    simp only [traits, firstLawful.hash_eq _ _ firstSame, secondLawful.hash_eq _ _ secondSame]
  isEmpty_eq key other same := by
    obtain ⟨firstSame, secondSame⟩ := Bool.and_eq_true_iff.mp same
    simp only [traits, firstLawful.isEmpty_eq _ _ firstSame, secondLawful.isEmpty_eq _ _ secondSame]
  isDeleted_eq key other same := firstLawful.isDeleted_eq _ _ (Bool.and_eq_true_iff.mp same).1
  minimum := firstLawful.minimum

theorem lawful_traits (hashes : Hashes) (type : KeyType) : (type.traits hashes).Lawful := by
  induction type with
  | integer type => exact lawful_integer hashes type
  | string =>
    refine lawful_of_view StringImpl.characters rfl rfl rfl rfl (fun key other same => ?_) rfl
    have hashed := congrArg (Option.map hashes.string) same
    rwa [Option.map_map, Option.map_map] at hashed
  | cString =>
    refine lawful_of_view CStringBuffer.characters rfl rfl rfl rfl (fun key other same => ?_) rfl
    cases key <;> cases other <;> simp_all [traits]
  | pair first second firstLawful secondLawful => exact lawful_pair firstLawful secondLawful

end KeyType

/-! ### Decoded tables -/

/-- The table has the given entries and no others, and each of their keys is found. -/
structure HoldsExactly {κ ν : Type} [Inhabited ν] (traits : HashTraits κ) (table : HashTable κ ν)
    (entries : List (κ × ν)) : Prop where
  holds : (table.entries traits).Perm entries
  found : ∀ entry ∈ entries, ∃ i, table.lookup traits entry.1 = some (some i)

/-- A table to which entries were added holds exactly these if no key marks a bucket. -/
theorem holdsExactly_iff {κ ν : Type} [Inhabited ν] {traits : HashTraits κ} (lawful : traits.Lawful)
    {table : HashTable κ ν} {entries : List (κ × ν)} (added : addAll traits .empty entries = some table) :
    (∀ entry ∈ entries, traits.isEmptyValue entry.1 = false ∧ traits.isDeletedValue entry.1 = false) ↔
      HoldsExactly traits table entries := by
  constructor
  · intro live
    obtain ⟨valid, perm⟩ :=
      valid_addAll lawful HashTable.valid_empty (fun entry member => HashTable.live_iff.mpr (live entry member)) added
    rw [show HashTable.entries traits .empty = ([] : List (κ × ν)) from rfl, List.append_nil] at perm
    refine ⟨perm, fun entry member => ?_⟩
    have there := perm.mem_iff.mpr member
    obtain ⟨found, run, found_iff⟩ := valid.lookup lawful (valid.listed.keys.isKey entry there)
    obtain ⟨i, rfl⟩ := Option.isSome_iff_exists.mp (found_iff.mpr ⟨entry, there, lawful.equal_refl _⟩)
    exact ⟨i, run⟩
  · intro holdsExactly entry member
    exact HashTable.live_iff.mp (HashTable.mem_entries.mp (holdsExactly.holds.mem_iff.mpr member)).2

/-- A decoded table holds exactly the entries of the bytes if and only if no key among them is
the empty or the deleted value of the key type. -/
theorem decoded_table_holdsExactly {ν : Type} [Inhabited ν] (hashes : Hashes) (type : KeyType)
    (valueCoder : ArgumentCoder ν) (decoder final : ArgumentDecoder) :
    (∀ table, (ArgumentCoder.hashMap (type.traits hashes) type.coder valueCoder).decode decoder =
      some (some table, final) → ∃ entries, (ArgumentCoder.vector (.pair type.coder valueCoder)).decode decoder =
        some (some entries, final) ∧
        ((∀ entry ∈ entries, (type.traits hashes).isEmptyValue entry.1 = false ∧
        (type.traits hashes).isDeletedValue entry.1 = false) ↔
          HoldsExactly (type.traits hashes) table entries)) ∧
    (∀ table, (ArgumentCoder.hashSet (type.traits hashes) type.coder).decode decoder = some (some table, final) →
      ∃ keys, (ArgumentCoder.vector type.coder).decode decoder = some (some keys, final) ∧
        ((∀ key ∈ keys, (type.traits hashes).isEmptyValue key = false ∧
            (type.traits hashes).isDeletedValue key = false) ↔
          HoldsExactly (type.traits hashes) table (keys.map (·, ())))) := by
  refine ⟨fun table decoded => ?_, fun table decoded => ?_⟩
  · obtain ⟨size, middle, sized, loop⟩ := Decode.bind_eq_some_iff.mp decoded
    obtain ⟨entries, run, added⟩ := decodeEntries_eq_some_iff.mp loop
    exact ⟨entries, Decode.bind_eq_some_iff.mpr ⟨size, middle, sized, run⟩,
      holdsExactly_iff (type.lawful_traits hashes) added⟩
  · obtain ⟨size, middle, sized, loop⟩ := Decode.bind_eq_some_iff.mp decoded
    obtain ⟨keys, run, added⟩ := decodeKeys_eq_some_iff.mp loop
    refine ⟨keys, Decode.bind_eq_some_iff.mpr ⟨size, middle, sized, run⟩, ?_⟩
    rw [← holdsExactly_iff (type.lawful_traits hashes) added, List.forall_mem_map]

/-- Hash functions that send every key to the first bucket. -/
def Hashes.constant : Hashes := ⟨fun _ _ => 0, fun _ => 0, fun _ => 0, fun _ _ => 0⟩

theorem exists_decoded {α β : Type} {result : Option (Option α × β)} (decodes : (result.bind Prod.fst).isSome = true) :
    ∃ value final, result = some (some value, final) := by
  obtain ⟨value, found⟩ := Option.isSome_iff_exists.mp decodes
  obtain ⟨⟨_, final⟩, rfl, rfl⟩ := Option.bind_eq_some_iff.mp found
  exact ⟨value, final, rfl⟩

/-- Two keys that begin their walks at one bucket. -/
theorem decoded_table_holdsExactly_two :
    (∃ table final, (ArgumentCoder.hashMap ((KeyType.integer .uint32).traits .constant) (KeyType.integer .uint32).coder
        (.arithmetic .bool)).decode ⟨[2, 0, 0, 0, 0, 0, 0, 0, 5, 0, 0, 0, 1, 0, 0, 0, 6, 0, 0, 0, 0], 4096, 4096⟩ =
          some (some table, final) ∧
      HoldsExactly ((KeyType.integer .uint32).traits .constant) table [(5, true), (6, false)]) ∧
    (∃ table final,
      (ArgumentCoder.hashSet ((KeyType.integer .uint32).traits .constant) (KeyType.integer .uint32).coder).decode
        ⟨[2, 0, 0, 0, 0, 0, 0, 0, 5, 0, 0, 0, 6, 0, 0, 0], 4096, 4096⟩ = some (some table, final) ∧
      HoldsExactly ((KeyType.integer .uint32).traits .constant) table [(5, ()), (6, ())]) := by
  constructor
  · obtain ⟨table, final, decoded⟩ :=
      @exists_decoded _ _ ((ArgumentCoder.hashMap ((KeyType.integer .uint32).traits .constant)
      (KeyType.integer .uint32).coder (.arithmetic .bool)).decode
        ⟨[2, 0, 0, 0, 0, 0, 0, 0, 5, 0, 0, 0, 1, 0, 0, 0, 6, 0, 0, 0, 0], 4096, 4096⟩) (by decide +kernel)
    obtain ⟨entries, run, holds_iff⟩ :=
      (decoded_table_holdsExactly .constant (.integer .uint32) (.arithmetic .bool) _ _).1 _ decoded
    have same : (some (some entries, final)).map Prod.fst = some (some [(5, true), (6, false)]) :=
      run ▸ by decide +kernel
    obtain rfl := Option.some.inj (Option.some.inj same)
    exact ⟨table, final, decoded,
      holds_iff.mp (List.forall_mem_cons.mpr ⟨⟨rfl, rfl⟩, List.forall_mem_singleton.mpr ⟨rfl, rfl⟩⟩)⟩
  · obtain ⟨table, final, decoded⟩ :=
      @exists_decoded _ _ ((ArgumentCoder.hashSet ((KeyType.integer .uint32).traits .constant)
      (KeyType.integer .uint32).coder).decode ⟨[2, 0, 0, 0, 0, 0, 0, 0, 5, 0, 0, 0, 6, 0, 0, 0], 4096,
        4096⟩) (by decide +kernel)
    obtain ⟨keys, run, holds_iff⟩ :=
      (decoded_table_holdsExactly .constant (.integer .uint32) (.arithmetic .bool) _ _).2 _ decoded
    have same : (some (some keys, final)).map Prod.fst = some (some [5, 6]) := run ▸ by decide +kernel
    obtain rfl := Option.some.inj (Option.some.inj same)
    exact ⟨table, final, decoded,
      holds_iff.mp (List.forall_mem_cons.mpr ⟨⟨rfl, rfl⟩, List.forall_mem_singleton.mpr ⟨rfl, rfl⟩⟩)⟩

/-- A set of one key, the number zero: the set is accepted and reports the size one, but no key
is in it. -/
theorem decoded_zero_is_lost : ∃ table final,
    (ArgumentCoder.hashSet ((KeyType.integer .uint32).traits .constant) (KeyType.integer .uint32).coder).decode
      ⟨[1, 0, 0, 0, 0, 0, 0, 0, 0, 0, 0, 0], 4096, 4096⟩ = some (some table, final) ∧
    table.keyCount = 1 ∧ table.entries ((KeyType.integer .uint32).traits .constant) = [] :=
  ⟨_, _, rfl, rfl, rfl⟩

end WebNode.Ipc
