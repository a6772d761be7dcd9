import WebNode.Wtf.HashTableRuns

/-!
# The load of a hash table

What `checkTableConsistency` asks of the size of a table. Every operation resizes at most once, and
one resize is enough for all of them but `removeIf`.
-/

namespace WebNode.Wtf.HashTable

open WebNode.Lib

variable {κ ν : Type} [Inhabited ν] {traits : HashTraits κ} {deletedValue : κ} {table changed next : HashTable κ ν}

omit [Inhabited ν] in
/-- The conditions on the size in `checkTableConsistency`. -/
structure Balanced (traits : HashTraits κ) (table : HashTable κ ν) : Prop where
  size : table.buckets ≠ [] → (∃ log, table.buckets.length = 2 ^ log) ∧ traits.minimumTableSize ≤ table.buckets.length
  shouldExpand : table.buckets ≠ [] → table.shouldExpand = false
  shouldShrink : table.shouldShrink traits = false

omit [Inhabited ν] in
/-- The part of `Balanced` that does not follow from the buckets being in order. -/
def Loaded (traits : HashTraits κ) (table : HashTable κ ν) : Prop :=
  table.buckets ≠ [] → traits.minimumTableSize ≤ table.buckets.length ∧
    (table.buckets.length ≤ table.keyCount * 6 ∨ table.buckets.length ≤ traits.minimumTableSize)

omit [Inhabited ν] in
theorem Balanced.loaded (balanced : Balanced traits table) (count : table.keyCount ≤ 2 ^ 28) : Loaded traits table := by
  intro nonempty
  refine ⟨(balanced.size nonempty).2, ?_⟩
  have notSparse := balanced.shouldShrink
  rw [HashTable.shouldShrink, Bool.and_eq_false_iff, decide_eq_false_iff_not, decide_eq_false_iff_not,
    minLoadProduct_eq count] at notSparse
  omega

theorem Sound.balanced {map : KeyedMap κ ν} (sound : Sound traits table map) (small : table.buckets.length < 2 ^ 30)
    (loaded : Loaded traits table) : Balanced traits table where
  size nonempty := by
    obtain ⟨log, -, -, size_eq⟩ := ((sound.opened nonempty).opened nonempty).size
    exact ⟨⟨log, size_eq⟩, (loaded nonempty).1⟩
  shouldExpand nonempty := by
    have load := (sound.opened nonempty).load nonempty
    rw [HashTable.shouldExpand, decide_eq_false_iff_not]
    omega
  shouldShrink := by
    rw [HashTable.shouldShrink, Bool.and_eq_false_iff, decide_eq_false_iff_not, decide_eq_false_iff_not,
      minLoadProduct_eq (sound.keyCount_lt small).le]
    by_cases null : table.buckets = []
    · left
      rw [null, List.length_nil]
      omega
    · have := loaded null
      omega

theorem loaded_iff {map : KeyedMap κ ν} (sound : Sound traits table map) (small : table.buckets.length < 2 ^ 30) :
    Loaded traits table ↔ Balanced traits table :=
  ⟨sound.balanced small, fun balanced => balanced.loaded (sound.keyCount_lt small).le⟩

/-! ### Resizing -/

theorem reinsert_length {buckets placed : List (κ × ν)} {entry : κ × ν}
    (run : reinsert traits buckets entry = some placed) :
    placed.length = buckets.length := by
  rw [reinsert] at run
  obtain ⟨position, -, same⟩ := Option.bind_eq_some_iff.mp run
  rw [← Option.some.inj same, List.length_set]

theorem reinsertAll_length {entries buckets placed : List (κ × ν)}
    (run : entries.foldlM (reinsert traits) buckets = some placed) :
    placed.length = buckets.length := by
  induction entries generalizing buckets with
  | nil => rw [← Option.some.inj run]
  | cons entry rest ih =>
    rw [List.foldlM_cons] at run
    obtain ⟨between, first, later⟩ := Option.bind_eq_some_iff.mp run
    rw [ih later, reinsert_length first]

theorem rehash_shape {size : Nat} (run : table.rehash traits size = some changed) :
    changed.buckets.length = size ∧ changed.keyCount = table.keyCount := by
  rw [rehash] at run
  obtain ⟨buckets, placed, same⟩ := Option.bind_eq_some_iff.mp run
  obtain rfl := Option.some.inj same
  exact ⟨by rw [reinsertAll_length placed, List.length_replicate], rfl⟩

/-- The size is doubled only for keys that fill the new table well enough. -/
theorem expand_shape (count : table.keyCount ≤ 2 ^ 28) (nonempty : table.buckets ≠ [])
    (run : table.expand traits = some changed) :
    changed.keyCount = table.keyCount ∧ (changed.buckets.length = table.buckets.length ∨
      changed.buckets.length = table.buckets.length * 2 ∧ table.buckets.length * 2 ≤ table.keyCount * 6) := by
  rw [expand, if_neg (List.length_eq_zero_iff.not.mpr nonempty)] at run
  split at run
  · cases run
  · split at run
    · obtain ⟨size_eq, keys_eq⟩ := rehash_shape run
      exact ⟨keys_eq, .inl size_eq⟩
    · next dense =>
      obtain ⟨size_eq, keys_eq⟩ := rehash_shape run
      rw [mustRehashInPlace, decide_eq_true_iff, minLoadProduct_eq count] at dense
      exact ⟨keys_eq, .inr ⟨size_eq, by omega⟩⟩

theorem Loaded.expand (loaded : Loaded traits table) (count : table.keyCount ≤ 2 ^ 28) (nonempty : table.buckets ≠ [])
    (run : table.expand traits = some changed) : Loaded traits changed := by
  intro _
  obtain ⟨keys_eq, size_eq⟩ := expand_shape count nonempty run
  have := loaded nonempty
  omega

/-- A table that shrinks once has half the size. -/
theorem shrinkIfNeeded_loaded_iff (count : table.keyCount ≤ 2 ^ 28) (nonempty : table.buckets ≠ [])
    (even : 2 ∣ table.buckets.length) (minimum : traits.minimumTableSize ≤ table.buckets.length)
      (powers : traits.minimumTableSize < table.buckets.length → traits.minimumTableSize * 2 ≤ table.buckets.length)
      (run : table.shrinkIfNeeded traits = some changed) :
    Loaded traits changed ↔
      table.buckets.length ≤ table.keyCount * 12 ∨ table.buckets.length ≤ traits.minimumTableSize * 2 := by
  rw [shrinkIfNeeded] at run
  have positive : 0 < table.buckets.length := List.length_pos_iff.mpr nonempty
  split at run
  · next sparse =>
    rw [HashTable.shouldShrink, Bool.and_eq_true, decide_eq_true_iff, decide_eq_true_iff, minLoadProduct_eq count]
      at sparse
    obtain ⟨size_eq, keys_eq⟩ := rehash_shape run
    have room := powers sparse.2
    have changedNonempty : changed.buckets ≠ [] := List.length_pos_iff.mp (by omega)
    constructor
    · intro loaded
      have := loaded changedNonempty
      omega
    · intro enough _
      omega
  · next dense =>
    rw [HashTable.shouldShrink, Bool.and_eq_true, decide_eq_true_iff, decide_eq_true_iff, minLoadProduct_eq count]
      at dense
    obtain rfl := Option.some.inj run
    refine iff_of_true (fun _ => ?_) ?_ <;> omega

/-! ### Operations -/

theorem Loaded.addToTable {key : κ} {value : ν} {isNewEntry : Bool} (loaded : Loaded traits table)
    (count : table.keyCount < 2 ^ 28) (nonempty : table.buckets ≠ [])
    (run : table.addToTable traits key value = some (isNewEntry, next)) : Loaded traits next := by
  rw [HashTable.addToTable] at run
  obtain ⟨⟨i, found⟩, -, rest⟩ := Option.bind_eq_some_iff.mp run
  have written : Loaded traits (table.write traits i key value) := by
    intro _
    have before := loaded nonempty
    have length_eq : (table.write traits i key value).buckets.length = table.buckets.length := List.length_set
    have keys_eq : (table.write traits i key value).keyCount = table.keyCount + 1 := rfl
    omega
  cases found with
  | true =>
    obtain ⟨-, rfl⟩ := Prod.mk.inj (Option.some.inj rest)
    exact loaded
  | false =>
    simp only [Bool.false_eq_true, if_false] at rest
    split at rest
    · obtain ⟨grown, expanded, same⟩ := Option.bind_eq_some_iff.mp rest
      obtain ⟨-, rfl⟩ := Prod.mk.inj (Option.some.inj same)
      refine written.expand count (fun null => nonempty ?_) expanded
      rwa [write, List.set_eq_nil_iff] at null
    · obtain ⟨-, rfl⟩ := Prod.mk.inj (Option.some.inj rest)
      exact written

theorem Loaded.add {key : κ} {value : ν} {isNewEntry : Bool} (lawful : traits.Lawful) (loaded : Loaded traits table)
    (count : table.keyCount < 2 ^ 28) (run : table.add traits key value = some (isNewEntry, next)) :
    Loaded traits next := by
  rw [HashTable.add] at run
  split at run
  · next null =>
    obtain ⟨allocated, expanded, added⟩ := Option.bind_eq_some_iff.mp run
    rw [HashTable.expand, if_pos (List.length_eq_zero_iff.mpr (List.isEmpty_iff.mp null))] at expanded
    obtain ⟨size_eq, keys_eq⟩ := rehash_shape expanded
    obtain ⟨least, -, -, minimum⟩ := lawful.minimum
    have positive := Nat.two_pow_pos least
    exact Loaded.addToTable (fun _ => ⟨size_eq.ge, .inr size_eq.le⟩) (keys_eq ▸ count)
      (List.length_pos_iff.mp (by omega)) added
  · next there =>
    exact loaded.addToTable count (fun null => there (List.isEmpty_iff.mpr null)) run

theorem Loaded.set {key : κ} {value : ν} (lawful : traits.Lawful) (loaded : Loaded traits table)
    (count : table.keyCount < 2 ^ 28) (run : table.set traits key value = some next) : Loaded traits next := by
  rw [HashTable.set] at run
  obtain ⟨⟨isNewEntry, added⟩, stored, rest⟩ := Option.bind_eq_some_iff.mp run
  have kept := loaded.add lawful count stored
  cases isNewEntry with
  | true =>
    obtain rfl := Option.some.inj rest
    exact kept
  | false =>
    obtain ⟨position, -, same⟩ := Option.bind_eq_some_iff.mp rest
    obtain rfl := Option.some.inj same
    intro nonempty
    rw [setValue, ne_eq, List.set_eq_nil_iff] at nonempty
    rw [setValue, List.length_set]
    exact kept nonempty

section Shrinking

variable {map : KeyedMap κ ν} (lawful : traits.Lawful) (deleted : traits.isDeletedValue deletedValue = true)
  (sound : Sound traits table map) (small : table.buckets.length < 2 ^ 30)

include lawful sound

/-- The sizes are powers of two. -/
theorem Sound.sizes (nonempty : table.buckets ≠ []) : 2 ∣ table.buckets.length ∧
    (traits.minimumTableSize < table.buckets.length → traits.minimumTableSize * 2 ≤ table.buckets.length) := by
  obtain ⟨log, one_le, -, size_eq⟩ := ((sound.opened nonempty).opened nonempty).size
  obtain ⟨least, -, -, minimum⟩ := lawful.minimum
  rw [size_eq, minimum]
  refine ⟨dvd_pow_self 2 (by omega), fun less => ?_⟩
  rw [← Nat.pow_succ]
  exact Nat.pow_le_pow_right (by decide) ((Nat.pow_lt_pow_iff_right (by decide)).mp less)

include deleted small

/-- One key less leaves enough for half the size. -/
theorem Loaded.removeIterator {i : Nat} (loaded : Loaded traits table) (inside : i < table.buckets.length)
    (live : Live traits (bucketAt traits table.buckets i))
    (run : table.removeIterator traits deletedValue (some i) = some next) : Loaded traits next := by
  have nonempty : table.buckets ≠ [] := List.ne_nil_of_length_pos (by omega)
  obtain ⟨even, powers⟩ := sound.sizes lawful nonempty
  have length_eq : (table.deleteBucket deletedValue i).buckets.length = table.buckets.length := List.length_set
  have keys_eq : (table.deleteBucket deletedValue i).keyCount = table.keyCount - 1 := rfl
  have valid := sound.opened nonempty
  have perm := (valid.deleteBucket lawful deleted inside live).2.length_eq
  have counted := valid.listed.keyCount
  rw [List.length_cons] at perm
  obtain ⟨minimum, dense⟩ := loaded nonempty
  obtain ⟨least, two_le, -, minimum_eq⟩ := lawful.minimum
  have four := Nat.pow_le_pow_right (show 0 < 2 by decide) two_le
  have fewer := sound.keyCount_lt small
  refine (shrinkIfNeeded_loaded_iff (by omega) (List.ne_nil_of_length_pos (by omega)) ?_ ?_ ?_ run).mpr ?_
  · rwa [length_eq]
  · rwa [length_eq]
  · rwa [length_eq]
  · omega

omit lawful deleted small in
/-- The keys that `removeIf` keeps. -/
theorem removeIfLoop_keyCount (lawful : traits.Lawful) (deleted : traits.isDeletedValue deletedValue = true)
    (functor : κ × ν → Bool) (nonempty : table.buckets ≠ []) :
    (removeIfLoop traits deletedValue functor table.buckets.length table).buckets.length = table.buckets.length ∧
    (removeIfLoop traits deletedValue functor table.buckets.length table).keyCount =
      ((table.entries traits).filter fun entry => !functor entry).length := by
  have buckets_eq := @removeIfLoop_buckets _ _ _ traits deletedValue _ table functor (Nat.le_refl _)
  rw [List.take_length, List.drop_length, List.append_nil] at buckets_eq
  have kept := ((sound.opened nonempty).removeIfLoop lawful deleted functor (Nat.le_refl _)).listed.keyCount
  rw [removeIfLoop_entries deleted] at kept
  exact ⟨by rw [buckets_eq, List.length_map], kept⟩

end Shrinking

omit [Inhabited ν] in
/-- A `removeIf` keeps a key for every twelve buckets, unless one shrink leads to the smallest table. -/
def Operation.LeavesEnough (traits : HashTraits κ) (table : HashTable κ ν) : Operation κ ν → Prop
  | .removeIf functor => table.buckets.length ≤
      ((table.entries traits).filter fun entry => !functor entry).length * 12 ∨
      table.buckets.length ≤ traits.minimumTableSize * 2
  | _ => True

/-- One operation keeps the load bounds exactly if it leaves enough keys. -/
theorem loaded_step_iff {map : KeyedMap κ ν} (lawful : traits.Lawful)
    (deleted : traits.isDeletedValue deletedValue = true) (sound : Sound traits table map)
    (small : table.buckets.length < 2 ^ 30) (loaded : Loaded traits table) {operation : Operation κ ν}
    (allowed : operation.Allowed traits table) (run : table.step traits deletedValue operation = some next) :
    Loaded traits next ↔ operation.LeavesEnough traits table := by
  cases operation with
  | add key value =>
    obtain ⟨⟨isNewEntry, added⟩, stored, same⟩ := Option.map_eq_some_iff.mp run
    obtain rfl : added = next := same
    exact iff_of_true (loaded.add lawful (sound.keyCount_lt small) stored) trivial
  | set key value => exact iff_of_true (loaded.set lawful (sound.keyCount_lt small) run) trivial
  | remove key =>
    refine iff_of_true ?_ trivial
    obtain ⟨found, search, rest⟩ := Option.bind_eq_some_iff.mp run
    cases found with
    | none =>
      obtain rfl := Option.some.inj rest
      exact loaded
    | some i =>
      obtain ⟨place, lookup, -, position⟩ := sound.lookup lawful allowed
      have nonempty : ¬table.buckets.isEmpty = true := fun null => by
        rw [find, if_pos null] at search
        cases search
      rw [find, if_neg nonempty, lookup] at search
      have has := (position i).mp (Option.some.inj search)
      exact loaded.removeIterator lawful deleted sound small has.1
        (live_iff.mpr ⟨not_empty_of_equal lawful allowed has.2, not_deleted_of_equal lawful allowed has.2⟩) rest
  | removeIterator position =>
    refine iff_of_true ?_ trivial
    cases position with
    | none =>
      obtain rfl := Option.some.inj run
      exact loaded
    | some i => exact loaded.removeIterator lawful deleted sound small (allowed i rfl).1 (allowed i rfl).2 run
  | removeIf functor =>
    by_cases null : table.buckets = []
    · rw [HashTable.step, HashTable.removeIf, null, List.length_nil, removeIfLoop, shrinkIfNeeded_null null] at run
      obtain rfl := Option.some.inj run
      refine iff_of_true loaded (.inr ?_)
      rw [null]
      exact Nat.zero_le _
    · obtain ⟨length_eq, keys_eq⟩ := removeIfLoop_keyCount sound lawful deleted functor null
      obtain ⟨even, powers⟩ := sound.sizes lawful null
      rw [HashTable.step, HashTable.removeIf] at run
      have fewer : (removeIfLoop traits deletedValue functor table.buckets.length table).keyCount ≤ 2 ^ 28 := by
        rw [keys_eq]
        exact (List.length_filter_le _ _).trans (sound.keyCount ▸ (sound.keyCount_lt small).le)
      have outcome := shrinkIfNeeded_loaded_iff fewer (List.length_pos_iff.mp (by rwa [length_eq, List.length_pos_iff]))
        (by rwa [length_eq]) (by rw [length_eq]; exact (loaded null).1) (by rwa [length_eq]) run
      rwa [length_eq, keys_eq] at outcome
  | clear =>
    obtain rfl := Option.some.inj run
    refine iff_of_true (fun nonempty => ?_) trivial
    unfold HashTable.clear at nonempty ⊢
    split at nonempty
    · next null => exact absurd (List.isEmpty_iff.mp null) nonempty
    · exact absurd rfl nonempty

/-! ### Histories -/

/-- Operations one after the other, each with the table of fewer than 2^30 buckets that it leads to. -/
inductive History (traits : HashTraits κ) (deletedValue : κ) :
    HashTable κ ν → List (Operation κ ν × HashTable κ ν) → Prop
  | nil {table : HashTable κ ν} : History traits deletedValue table []
  | cons {table next : HashTable κ ν} {operation : Operation κ ν} {later : List (Operation κ ν × HashTable κ ν)} :
      operation.Allowed traits table → table.step traits deletedValue operation = some next →
      next.buckets.length < 2 ^ 30 →
      History traits deletedValue next later → History traits deletedValue table ((operation, next) :: later)

omit [Inhabited ν] in
/-- Every operation of a history leaves enough keys in the table that it changes. -/
def LeaveEnough (traits : HashTraits κ) : HashTable κ ν → List (Operation κ ν × HashTable κ ν) → Prop
  | _, [] => True
  | table, (operation, next) :: later => operation.LeavesEnough traits table ∧ LeaveEnough traits next later

/-- From a table that is in order, a history keeps the bounds exactly if it leaves enough keys. -/
theorem History.balanced_iff {map : KeyedMap κ ν} {history : List (Operation κ ν × HashTable κ ν)}
    (lawful : traits.Lawful) (deleted : traits.isDeletedValue deletedValue = true)
    (ran : History traits deletedValue table history) (sound : Sound traits table map)
    (small : table.buckets.length < 2 ^ 30) (loaded : Loaded traits table) :
    (∀ done ∈ history, Balanced traits done.2) ↔ LeaveEnough traits table history := by
  induction ran generalizing map with
  | nil => exact iff_of_true (fun _ member => absurd member List.not_mem_nil) trivial
  | @cons table next operation later allowed run nextSmall _ ih =>
    obtain ⟨reached, run', kept⟩ := sound.step lawful deleted small allowed
    obtain rfl := Option.some.inj (run.symm.trans run')
    have stepped := loaded_step_iff lawful deleted sound small loaded allowed run
    rw [List.forall_mem_cons, LeaveEnough, ← stepped, ← loaded_iff kept nextSmall]
    exact and_congr_right fun nextLoaded => ih kept nextSmall nextLoaded

/-- After every operation of a history the conditions of `checkTableConsistency` on the size hold, exactly
if no `removeIf` takes so many keys that one shrink is not enough. -/
theorem history_balanced_iff_leaveEnough {history : List (Operation κ ν × HashTable κ ν)} (lawful : traits.Lawful)
    (deleted : traits.isDeletedValue deletedValue = true) (ran : History traits deletedValue empty history) :
    (∀ done ∈ history, Balanced traits done.2) ↔ LeaveEnough traits empty history :=
  ran.balanced_iff lawful deleted (valid_empty.sound KeyedMap.represents_empty) (Nat.two_pow_pos 30) fun nonempty =>
    absurd rfl nonempty

/-- A table of integers with the keys from 1 on, each at its own position. -/
def tableOfKeys (size count : Nat) : HashTable UInt32 Nat where
  buckets := (List.range size).map fun i => (if 1 ≤ i ∧ i ≤ count then UInt32.ofNat i else 0, 0)
  keyCount := count
  deletedCount := 0

/-- Removing the only key of the smallest table keeps the bounds. -/
theorem history_balanced_smallest : Balanced (unsignedTraits id) tableAfterRemove := by
  have ran : History (unsignedTraits id) (-1) (empty : HashTable UInt32 Nat)
      [(.add 1 7, ⟨(List.replicate 8 (0, 0)).set 1 (1, 7), 1, 0⟩), (.removeIf fun _ => true, tableAfterRemove)] :=
    .cons (isKey_unsignedTraits (by decide) (by decide)) rfl (by simp)
      (.cons trivial (by decide +kernel) (by decide) .nil)
  have balanced :=
    (history_balanced_iff_leaveEnough (lawful_unsignedTraits id) rfl ran).mpr ⟨trivial, .inr (by decide), trivial⟩
  exact balanced (_, tableAfterRemove) (.tail _ (.head _))

/-- After eight keys are added and all are removed by one `removeIf`, the table of 32 buckets has
shrunk to 16 and should shrink again. -/
theorem removeIf_all_shrinks_once : ∃ history, History (unsignedTraits id) (-1) (empty : HashTable UInt32 Nat) history ∧
    history.getLast?.map Prod.snd = some (tableOfKeys 16 0) ∧
      (tableOfKeys 16 0).shouldShrink (unsignedTraits id) = true := by
  have key (i : UInt32) (notEmpty : i ≠ 0) (notDeleted : i ≠ -1) : (unsignedTraits id).IsKey i :=
    isKey_unsignedTraits notEmpty notDeleted
  have small (size count : Nat) (less : size < 2 ^ 30) : (tableOfKeys size count).buckets.length < 2 ^ 30 := by
    simpa [tableOfKeys] using less
  refine ⟨[(.add 1 0, tableOfKeys 8 1), (.add 2 0, tableOfKeys 8 2), (.add 3 0, tableOfKeys 8 3),
    (.add 4 0, tableOfKeys 16 4), (.add 5 0, tableOfKeys 16 5), (.add 6 0, tableOfKeys 16 6),
      (.add 7 0, tableOfKeys 16 7), (.add 8 0, tableOfKeys 32 8),
    (.removeIf fun _ => true, tableOfKeys 16 0)], ?_, rfl, by decide +kernel⟩
  exact .cons (key 1 (by decide) (by decide)) (by decide +kernel) (small 8 1 (by decide)) <|
    .cons (key 2 (by decide) (by decide)) (by decide +kernel) (small 8 2 (by decide)) <|
    .cons (key 3 (by decide) (by decide)) (by decide +kernel) (small 8 3 (by decide)) <|
    .cons (key 4 (by decide) (by decide)) (by decide +kernel) (small 16 4 (by decide)) <|
    .cons (key 5 (by decide) (by decide)) (by decide +kernel) (small 16 5 (by decide)) <|
    .cons (key 6 (by decide) (by decide)) (by decide +kernel) (small 16 6 (by decide)) <|
    .cons (key 7 (by decide) (by decide)) (by decide +kernel) (small 16 7 (by decide)) <|
    .cons (key 8 (by decide) (by decide)) (by decide +kernel) (small 32 8 (by decide)) <|
    .cons trivial (by decide +kernel) (small 16 0 (by decide)) .nil

end WebNode.Wtf.HashTable
