import WebNode.Lib.KeyedMap
import WebNode.Wtf.HashTableRemove

/-!
# A hash table is a finite map

Whatever is done to a table, it holds the entries of a map that was changed in the same way. Only
`m_deletedCount` may be off, and only while there is no table.
-/

namespace WebNode.Wtf

open WebNode.Lib

theorem HashTraits.Lawful.equality {κ : Type} {traits : HashTraits κ} (lawful : traits.Lawful) :
    KeyedMap.Equality traits.equal :=
  ⟨lawful.equal_refl, lawful.equal_symm, lawful.equal_trans⟩

namespace HashTable

variable {κ ν : Type} [Inhabited ν] {traits : HashTraits κ} {deletedValue : κ}

/-! ### Tables without buckets -/

omit [Inhabited ν] in
/-- The table, with the count of deleted buckets that `expand` would make of it if there are none. -/
def settled (table : HashTable κ ν) : HashTable κ ν :=
  if table.buckets.isEmpty then { table with deletedCount := 0 } else table

omit [Inhabited ν] in
theorem settled_buckets (table : HashTable κ ν) : table.settled.buckets = table.buckets := by
  unfold settled
  split <;> rfl

omit [Inhabited ν] in
theorem settled_keyCount (table : HashTable κ ν) : table.settled.keyCount = table.keyCount := by
  unfold settled
  split <;> rfl

omit [Inhabited ν] in
theorem settled_eq {table : HashTable κ ν} (nonempty : table.buckets ≠ []) : table.settled = table :=
  if_neg fun null => nonempty (List.isEmpty_iff.mp null)

omit [Inhabited ν] in
theorem settled_entries (table : HashTable κ ν) : table.settled.entries traits = table.entries traits := by
  rw [entries, settled_buckets, entries]

theorem settled_add (table : HashTable κ ν) (key : κ) (value : ν) :
    table.settled.add traits key value = table.add traits key value := by
  by_cases null : table.buckets.isEmpty
  · have expanded : table.settled.expand traits = table.expand traits := by
      rw [settled, if_pos null, expand, expand, if_pos (by simpa using null), if_pos (by simpa using null)]
      rfl
    rw [add, add, settled_buckets, if_pos null, if_pos null, expanded]
  · rw [settled, if_neg null]

/-! ### Operations -/

/-- What can be done to a table. A functor sees entries, an iterator is a position or `end()`. -/
inductive Operation (κ ν : Type) where
  | add (key : κ) (value : ν)
  | set (key : κ) (value : ν)
  | remove (key : κ)
  | removeIterator (position : Option Nat)
  | removeIf (functor : κ × ν → Bool)
  | clear

/-- The keys mark no bucket, and an iterator is at an entry. -/
def Operation.Allowed (traits : HashTraits κ) (table : HashTable κ ν) : Operation κ ν → Prop
  | .add key _ | .set key _ | .remove key => traits.IsKey key
  | .removeIterator position => ∀ i ∈ position, i < table.buckets.length ∧ Live traits (bucketAt traits table.buckets i)
  | .removeIf _ | .clear => True

def step (traits : HashTraits κ) (deletedValue : κ) (table : HashTable κ ν) : Operation κ ν → Option (HashTable κ ν)
  | .add key value => (table.add traits key value).map Prod.snd
  | .set key value => table.set traits key value
  | .remove key => table.remove traits deletedValue key
  | .removeIterator position => table.removeIterator traits deletedValue position
  | .removeIf functor => table.removeIf traits deletedValue functor
  | .clear => some table.clear

/-- What the operation is for. An iterator stands for the key at its position. -/
def Operation.meaning (traits : HashTraits κ) (table : HashTable κ ν) (map : KeyedMap κ ν) :
    Operation κ ν → KeyedMap κ ν
  | .add key value => map.insert traits.equal key value
  | .set key value => map.put traits.equal key value
  | .remove key => map.erase traits.equal key
  | .removeIterator position => position.elim map fun i => map.erase traits.equal (bucketAt traits table.buckets i).1
  | .removeIf functor => map.discard functor
  | .clear => .empty

/-- The tables that operations on tables of fewer than 2^30 buckets lead to, each with the map that it stands for. -/
inductive Reached (traits : HashTraits κ) (deletedValue : κ) : HashTable κ ν → KeyedMap κ ν → Prop
  | empty : Reached traits deletedValue empty .empty
  | step {table next : HashTable κ ν} {map : KeyedMap κ ν} (operation : Operation κ ν) :
      Reached traits deletedValue table map → table.buckets.length < 2 ^ 30 → operation.Allowed traits table →
      table.step traits deletedValue operation = some next →
      Reached traits deletedValue next (operation.meaning traits table map)

/-! ### Searches -/

/-- A table stands for a map. -/
structure Sound (traits : HashTraits κ) (table : HashTable κ ν) (map : KeyedMap κ ν) : Prop where
  valid : Valid traits table.settled
  represents : KeyedMap.Represents traits.equal (table.entries traits) map

theorem Valid.settled {table : HashTable κ ν} (valid : Valid traits table) : Valid traits table.settled := by
  by_cases null : table.buckets = []
  · have zero : table.deletedCount = 0 := by rw [valid.deletedCount, null]; rfl
    have same : table.settled = table := by
      unfold HashTable.settled
      split
      · rw [← zero]
      · rfl
    rwa [same]
  · rwa [settled_eq null]

theorem Valid.sound {table : HashTable κ ν} {map : KeyedMap κ ν} (valid : Valid traits table)
    (represents : KeyedMap.Represents traits.equal (table.entries traits) map) : Sound traits table map :=
  ⟨valid.settled, represents⟩

section Searches

variable {table : HashTable κ ν} {map : KeyedMap κ ν} (lawful : traits.Lawful) (sound : Sound traits table map)

include sound

theorem Sound.opened (nonempty : table.buckets ≠ []) : Valid traits table := settled_eq nonempty ▸ sound.valid

theorem Sound.keyCount : table.keyCount = (table.entries traits).length := by
  rw [← settled_keyCount, sound.valid.listed.keyCount, settled_entries]

theorem Sound.perm_distinct {entries : List (κ × ν)} (lawful : traits.Lawful)
    (perm : (table.entries traits).Perm entries) :
    entries.Pairwise fun entry other => traits.equal entry.1 other.1 = false :=
  ((settled_entries table ▸ sound.valid.listed.keys : Keys traits (table.entries traits)).perm lawful perm).distinct

include lawful

variable {key : κ} (isKey : traits.IsKey key)

include isKey

theorem Sound.eq_some_of_has {i : Nat} (has : Has traits table.buckets key i) :
    map key = some (bucketAt traits table.buckets i) := by
  refine (sound.represents key _).mpr ⟨mem_entries.mpr ⟨?_, ?_⟩, has.2⟩
  · rw [bucketAt_eq has.1]
    exact List.getElem_mem has.1
  · exact live_iff.mpr ⟨not_empty_of_equal lawful isKey has.2, not_deleted_of_equal lawful isKey has.2⟩

theorem Sound.eq_none_of_absent (absent : ∀ i, ¬Has traits table.buckets key i) : map key = none := by
  rw [sound.represents.eq_none_iff]
  intro entry member
  refine Bool.eq_false_iff.mpr fun same => ?_
  obtain ⟨i, has⟩ := (has_iff_entries lawful isKey).mpr ⟨entry, member, same⟩
  exact absent i has

/-- The entry at the position that was found is that of the map. -/
theorem Sound.lookup :
    ∃ found, table.lookup traits key = some found ∧ found.map (bucketAt traits table.buckets) = map key ∧
      ∀ i, found = some i ↔ Has traits table.buckets key i := by
  obtain ⟨h, hashed⟩ := isKey.hashed
  by_cases null : table.buckets = []
  · have absent (i : Nat) : ¬Has traits table.buckets key i := fun has => by
      have inside := has.1
      rw [null] at inside
      exact absurd inside (Nat.not_lt_zero i)
    refine ⟨none, ?_, (sound.eq_none_of_absent lawful isKey absent).symm,
      fun i => ⟨nofun, fun has => absurd has (absent i)⟩⟩
    rw [HashTable.lookup, hashed, Option.bind_eq_bind, Option.bind_some, if_pos (List.isEmpty_iff.mpr null),
      Option.pure_def]
  · have valid := sound.opened null
    obtain ⟨found, run, position⟩ :=
      lookupLoop_spec lawful isKey (valid.opened null) hashed (valid.hasEmpty lawful null)
    refine ⟨found, ?_, ?_, position⟩
    · rw [HashTable.lookup, hashed, Option.bind_eq_bind, Option.bind_some,
        if_neg (fun isNull => null (List.isEmpty_iff.mp isNull)), run]
    · cases found with
      | none => exact (sound.eq_none_of_absent lawful isKey fun i has => nomatch (position i).mpr has).symm
      | some i => exact (sound.eq_some_of_has lawful isKey ((position i).mp rfl)).symm

theorem Sound.lookupForWriting (nonempty : table.buckets ≠ []) : ∃ i found,
    lookupForWriting traits table.buckets key = some (i, found) ∧ i < table.buckets.length ∧
      (found = true ∧ Has traits table.buckets key i ∧ map key = some (bucketAt traits table.buckets i) ∨
        found = false ∧ map key = none) := by
  have valid := sound.opened nonempty
  obtain ⟨h, hashed⟩ := isKey.hashed
  obtain ⟨i, found, run, inside, ⟨rfl, has⟩ | ⟨rfl, absent, -⟩⟩ :=
    lookupForWriting_spec lawful isKey (valid.opened nonempty) hashed (valid.hasEmpty lawful nonempty)
  · exact ⟨i, true, run, inside, .inl ⟨rfl, has, sound.eq_some_of_has lawful isKey has⟩⟩
  · exact ⟨i, false, run, inside, .inr ⟨rfl, sound.eq_none_of_absent lawful isKey absent⟩⟩

end Searches

/-! ### One operation -/

section Steps

variable {table : HashTable κ ν} {map : KeyedMap κ ν} (lawful : traits.Lawful)
  (deleted : traits.isDeletedValue deletedValue = true) (sound : Sound traits table map)

include sound

/-- A table has room for one more entry, unless it is the largest possible one. -/
theorem Sound.large_of_full (full : 2 ^ 30 ≤ (table.settled.keyCount + table.settled.deletedCount + 1) * 2) :
    2 ^ 30 ≤ table.buckets.length := by
  by_cases null : table.buckets = []
  · have noKeys : table.settled.keyCount = 0 := by
      rw [sound.valid.listed.keyCount, entries, settled_buckets, null]
      rfl
    have noneDeleted : table.settled.deletedCount = 0 := by
      rw [sound.valid.deletedCount, settled_buckets, null]
      rfl
    rw [noKeys, noneDeleted] at full
    omega
  · have valid := sound.opened null
    obtain ⟨log, one_le, -, size_eq⟩ := (valid.opened null).size
    obtain ⟨half, rfl⟩ : ∃ half, log = half + 1 := ⟨log - 1, by omega⟩
    have load := valid.load null
    rw [settled_eq null] at full
    rw [size_eq, Nat.pow_succ] at load ⊢
    omega

/-- The product with the number of keys is an `int`. -/
theorem Sound.keyCount_lt (small : table.buckets.length < 2 ^ 30) : table.keyCount < 2 ^ 28 := by
  by_cases null : table.buckets = []
  · rw [sound.keyCount, entries, null]
    exact Nat.two_pow_pos 28
  · obtain ⟨log, -, -, size_eq⟩ := ((sound.opened null).opened null).size
    rw [size_eq] at small
    have := Nat.pow_le_pow_right
      (show 0 < 2 by decide) (Nat.lt_succ_iff.mp ((Nat.pow_lt_pow_iff_right (by decide)).mp small))
    have := (sound.opened null).load null
    omega

include lawful

variable {key : κ} (isKey : traits.IsKey key)

include isKey in
/-- `add` stores an entry for a key that the map does not have. -/
theorem Sound.add (value : ν) :
    (∃ isNewEntry next, table.add traits key value = some (isNewEntry, next) ∧
      (isNewEntry = false ↔ (map key).isSome = true) ∧ (isNewEntry = false → next = table) ∧
      Sound traits next (map.insert traits.equal key value)) ∨
    table.add traits key value = none ∧ 2 ^ 30 ≤ table.buckets.length := by
  have outcome := sound.valid.add lawful isKey value
  rw [Added, settled_add, settled_entries] at outcome
  rcases outcome with ⟨present, run⟩ | ⟨absent, ⟨next, run, valid, -, perm⟩ | ⟨run, full⟩⟩
  · have isSome := (sound.represents.isSome_iff key).mpr present
    have nonempty : table.buckets ≠ [] := fun null => by
      obtain ⟨entry, member, -⟩ := present
      rw [entries, null] at member
      exact absurd member List.not_mem_nil
    obtain ⟨entry, stored⟩ := Option.isSome_iff_exists.mp isSome
    rw [settled_eq nonempty] at run
    refine .inl ⟨false, table, run, iff_of_true rfl isSome, fun _ => rfl, ?_⟩
    rwa [sound.represents.insert_present lawful.equality stored]
  · have missing := (sound.represents.eq_none_iff key).mpr absent
    refine .inl
      ⟨true, next, run, by simp [missing], fun isFalse => absurd isFalse.symm Bool.false_ne_true, valid.sound ?_⟩
    exact (sound.represents.insert_new lawful.equality missing).perm perm
  · exact .inr ⟨run, sound.large_of_full full⟩

include isKey in
/-- `set` stores a value whether or not the map has the key. -/
theorem Sound.set (value : ν) :
    (∃ next, table.set traits key value = some next ∧ Sound traits next (map.put traits.equal key value)) ∨
    table.set traits key value = none ∧ 2 ^ 30 ≤ table.buckets.length := by
  rcases sound.add lawful isKey value with ⟨isNewEntry, next, run, found, same, added⟩ | ⟨run, large⟩
  · left
    cases isNewEntry with
    | true =>
      have missing : map key = none := by
        rw [← Option.not_isSome_iff_eq_none]
        intro isSome
        cases found.mpr isSome
      refine ⟨next, by rw [HashTable.set, run]; rfl, ?_⟩
      rwa [KeyedMap.put_new missing]
    | false =>
      obtain rfl := same rfl
      have nonempty : next.buckets ≠ [] := fun null => by
        obtain ⟨entry, member, -⟩ := (sound.represents.isSome_iff key).mp (found.mp rfl)
        rw [entries, null] at member
        exact absurd member List.not_mem_nil
      obtain ⟨i, there, search, inside, ⟨-, has, -⟩ | ⟨-, missing⟩⟩ := sound.lookupForWriting lawful isKey nonempty
      · have live : Live traits (bucketAt traits next.buckets i) :=
          live_iff.mpr ⟨not_empty_of_equal lawful isKey has.2, not_deleted_of_equal lawful isKey has.2⟩
        obtain ⟨valid, rest, before, after⟩ := (sound.opened nonempty).setValue inside live value
        refine ⟨next.setValue traits i value, by rw [HashTable.set, run]; simp [search], valid.sound ?_⟩
        exact ((sound.represents.perm before.symm).put_present lawful.equality (sound.perm_distinct lawful before)
          has.2).perm after
      · rw [missing] at found
        cases found.mp rfl
  · exact .inr ⟨by rw [HashTable.set, run]; rfl, large⟩

variable (small : table.buckets.length < 2 ^ 30)

include deleted small

/-- Removing at an iterator erases the key there. -/
theorem Sound.removeIterator {i : Nat} (inside : i < table.buckets.length)
    (live : Live traits (bucketAt traits table.buckets i))
    (same : traits.equal (bucketAt traits table.buckets i).1 key = true) :
    ∃ next, table.removeIterator traits deletedValue (some i) = some next ∧
      Sound traits next (map.erase traits.equal key) := by
  have nonempty : table.buckets ≠ [] := List.ne_nil_of_length_pos (by omega)
  obtain ⟨next, run, valid, perm⟩ :=
    (sound.opened nonempty).removeIterator lawful deleted (sound.keyCount_lt small).le inside live
  refine ⟨next, run, valid.sound ?_⟩
  exact (sound.represents.perm perm.symm).erase lawful.equality (sound.perm_distinct lawful perm) same

include isKey in
theorem Sound.remove :
    ∃ next, table.remove traits deletedValue key = some next ∧ Sound traits next (map.erase traits.equal key) := by
  obtain ⟨found, run, stored, position⟩ := sound.lookup lawful isKey
  have located : table.find traits key = some found := by
    rw [find]
    split
    · next null =>
      cases found with
      | none => rfl
      | some i =>
        have inside := ((position i).mp rfl).1
        rw [List.isEmpty_iff.mp null] at inside
        exact absurd inside (Nat.not_lt_zero i)
    · exact run
  rw [HashTable.remove, located, Option.bind_eq_bind, Option.bind_some]
  cases found with
  | none =>
    refine ⟨table, rfl, sound.valid, ?_⟩
    have unchanged : map.erase traits.equal key = map := by
      funext other
      rw [KeyedMap.erase]
      split
      · next same =>
        refine ((sound.represents.eq_none_iff other).mpr fun entry member => ?_).symm
        have different := (sound.represents.eq_none_iff key).mp stored.symm entry member
        refine Bool.eq_false_iff.mpr fun there => ?_
        rw [lawful.equal_trans _ _ _ there (lawful.equal_symm _ _ same)] at different
        cases different
      · rfl
    rw [unchanged]
    exact sound.represents
  | some i =>
    have has := (position i).mp rfl
    exact sound.removeIterator lawful deleted small has.1
      (live_iff.mpr ⟨not_empty_of_equal lawful isKey has.2, not_deleted_of_equal lawful isKey has.2⟩) has.2

theorem Sound.removeIf (functor : κ × ν → Bool) :
    ∃ next, table.removeIf traits deletedValue functor = some next ∧ Sound traits next (map.discard functor) := by
  have represents := sound.represents.discard functor
  by_cases null : table.buckets = []
  · have nothing : table.entries traits = [] := by rw [entries, null]; rfl
    refine ⟨table, ?_, sound.valid, ?_⟩
    · rw [HashTable.removeIf, null, List.length_nil, removeIfLoop, shrinkIfNeeded_null null]
    · rwa [nothing, List.filter_nil, ← nothing] at represents
  · obtain ⟨next, run, valid, perm⟩ := (sound.opened null).removeIf lawful deleted (sound.keyCount_lt small).le functor
    exact ⟨next, run, valid.sound (represents.perm perm)⟩

omit lawful deleted small in
theorem Sound.clear : Sound traits table.clear .empty := by
  unfold HashTable.clear
  split
  · next null =>
    have nothing : table.entries traits = [] := by rw [entries, List.isEmpty_iff.mp null]; rfl
    exact ⟨sound.valid, nothing ▸ KeyedMap.represents_empty⟩
  · exact ⟨valid_empty, KeyedMap.represents_empty⟩

/-- An operation changes the table as it should change the map. -/
theorem Sound.step {operation : Operation κ ν} (allowed : operation.Allowed traits table) :
    ∃ next, table.step traits deletedValue operation = some next ∧
      Sound traits next (operation.meaning traits table map) := by
  cases operation with
  | add key value =>
    rcases sound.add lawful allowed value with ⟨isNewEntry, next, run, -, -, added⟩ | ⟨-, large⟩
    · exact ⟨next, by rw [HashTable.step, run]; rfl, added⟩
    · omega
  | set key value => exact (sound.set lawful allowed value).resolve_right fun ⟨_, large⟩ => by omega
  | remove key => exact sound.remove lawful deleted allowed small
  | removeIterator position =>
    cases position with
    | none => exact ⟨table, rfl, sound⟩
    | some i =>
      exact sound.removeIterator lawful deleted small (allowed i rfl).1 (allowed i rfl).2 (lawful.equal_refl _)
  | removeIf functor => exact sound.removeIf lawful deleted small functor
  | clear => exact ⟨table.clear, rfl, sound.clear⟩

end Steps

/-! ### Runs -/

theorem Reached.sound {table : HashTable κ ν} {map : KeyedMap κ ν} (lawful : traits.Lawful)
    (deleted : traits.isDeletedValue deletedValue = true) (reached : Reached traits deletedValue table map) :
    Sound traits table map := by
  induction reached with
  | empty => exact valid_empty.sound KeyedMap.represents_empty
  | step operation _ small allowed run ih =>
    obtain ⟨next, run', sound⟩ := ih.step lawful deleted small allowed
    obtain rfl := Option.some.inj (run.symm.trans run')
    exact sound

/-- What a table says about a key is what the map says. -/
structure Refines (traits : HashTraits κ) (deletedValue : κ) (table : HashTable κ ν) (map : KeyedMap κ ν) : Prop where
  /-- `lookup` ends, at the stored entry if there is one. -/
  lookup : ∀ key, traits.IsKey key → ∃ found, table.lookup traits key = some found ∧
    found.map (bucketAt traits table.buckets) = map key
  /-- `lookupForWriting` ends in the table, at the stored entry if there is one. -/
  lookupForWriting : ∀ key, traits.IsKey key → table.buckets ≠ [] → ∃ i found,
    lookupForWriting traits table.buckets key = some (i, found) ∧ i < table.buckets.length ∧
      (if found then some (bucketAt traits table.buckets i) else none) = map key
  /-- `add` ends, and makes a new entry if there is none. -/
  add : ∀ key value, traits.IsKey key → table.buckets.length < 2 ^ 30 → ∃ isNewEntry next,
    table.add traits key value = some (isNewEntry, next) ∧ (isNewEntry = false ↔ (map key).isSome = true)
  /-- Every operation ends. -/
  ends : ∀ operation, operation.Allowed traits table → table.buckets.length < 2 ^ 30 →
    (table.step traits deletedValue operation).isSome = true
  distinct : ∀ i < table.buckets.length, ∀ j < table.buckets.length, Live traits (bucketAt traits table.buckets i) →
    traits.equal (bucketAt traits table.buckets i).1 (bucketAt traits table.buckets j).1 = true → i = j
  keyCount : table.keyCount = (table.entries traits).length
  /-- While there is a table, the deleted buckets are counted. -/
  deletedCount : table.buckets ≠ [] → table.deletedCount = deletedBuckets traits table.buckets

/-- For every hash function and every sequence of operations on tables of fewer than 2^30 buckets, the table
is the finite map that the operations are meant to change. -/
theorem reached_refines {table : HashTable κ ν} {map : KeyedMap κ ν} (lawful : traits.Lawful)
    (deleted : traits.isDeletedValue deletedValue = true) (reached : Reached traits deletedValue table map) :
    Refines traits deletedValue table map := by
  have sound := reached.sound lawful deleted
  refine ⟨fun key isKey => ?_, fun key isKey nonempty => ?_, fun key value isKey small => ?_,
    fun operation allowed small => ?_, fun i inside => ?_, sound.keyCount,
      fun nonempty => (sound.opened nonempty).deletedCount⟩
  · obtain ⟨found, run, stored, -⟩ := sound.lookup lawful isKey
    exact ⟨found, run, stored⟩
  · obtain ⟨i, found, run, inside, ⟨rfl, -, stored⟩ | ⟨rfl, missing⟩⟩ := sound.lookupForWriting lawful isKey nonempty
    · exact ⟨i, true, run, inside, stored.symm⟩
    · exact ⟨i, false, run, inside, missing.symm⟩
  · rcases sound.add lawful isKey value with ⟨isNewEntry, next, run, found, -⟩ | ⟨-, large⟩
    · exact ⟨isNewEntry, next, run, found⟩
    · omega
  · obtain ⟨next, run, -⟩ := sound.step lawful deleted small allowed
    rw [run]
    rfl
  · have nonempty : table.buckets ≠ [] := List.ne_nil_of_length_pos (by omega)
    exact ((sound.opened nonempty).opened nonempty).distinct i inside

/-! ### A table of integers -/

/-- The traits of an unsigned key: zero and the largest number are no keys. -/
def unsignedTraits (hash : UInt32 → UInt32) : HashTraits UInt32 where
  emptyValue := 0
  isEmptyValue := (· == 0)
  isDeletedValue := (· == -1)
  hash key := some (hash key)
  equal := (· == ·)
  safeToCompareToEmptyOrDeleted := true
  minimumTableSize := 8

theorem lawful_unsignedTraits (hash : UInt32 → UInt32) : (unsignedTraits hash).Lawful where
  isEmpty_emptyValue := rfl
  not_deleted_of_empty key isEmpty := by
    obtain rfl : key = 0 := eq_of_beq isEmpty
    rfl
  equal_refl _ := beq_self_eq_true _
  equal_symm _ _ same := (eq_of_beq same) ▸ beq_self_eq_true _
  equal_trans _ _ _ same same' := (eq_of_beq same) ▸ same'
  hash_eq _ _ same := (eq_of_beq same) ▸ rfl
  isEmpty_eq _ _ same := (eq_of_beq same) ▸ rfl
  isDeleted_eq _ _ same := (eq_of_beq same) ▸ rfl
  minimum := ⟨3, by decide, by decide, rfl⟩

theorem isKey_unsignedTraits {hash : UInt32 → UInt32} {key : UInt32} (notEmpty : key ≠ 0) (notDeleted : key ≠ -1) :
    (unsignedTraits hash).IsKey key :=
  ⟨beq_eq_false_iff_ne.mpr notEmpty, beq_eq_false_iff_ne.mpr notDeleted, _, rfl⟩

/-- The table after `add(1, 7)` and `remove(1)`. -/
def tableAfterRemove : HashTable UInt32 Nat where
  buckets := (List.replicate 8 (0, 0)).set 1 (-1, 0)
  keyCount := 0
  deletedCount := 1

theorem reached_tableAfterRemove : ∃ map, Reached (unsignedTraits id) (-1) tableAfterRemove map := by
  have isKey : (unsignedTraits id).IsKey 1 := isKey_unsignedTraits (by decide) (by decide)
  obtain ⟨one, few, added⟩ : ∃ one : HashTable UInt32 Nat, one.buckets.length < 2 ^ 30 ∧
      (empty : HashTable UInt32 Nat).step (unsignedTraits id) (-1) (.add 1 7) = some one ∧
      one.step (unsignedTraits id) (-1) (.remove 1) = some tableAfterRemove :=
    ⟨{ buckets := (List.replicate 8 (0, 0)).set 1 (1, 7), keyCount := 1, deletedCount := 0 },
      by simp, by rfl, by decide +kernel⟩
  exact ⟨_, (Reached.empty.step (.add 1 7) (Nat.two_pow_pos 30) isKey added.1).step (.remove 1) few isKey added.2⟩

/-- The table of a run finds what was stored, whatever the hash function. -/
theorem reached_refines_removed : ∃ map, Refines (unsignedTraits id) (-1) tableAfterRemove map := by
  obtain ⟨map, reached⟩ := reached_tableAfterRemove
  exact ⟨map, reached_refines (lawful_unsignedTraits id) rfl reached⟩

/-- After `clear` the table counts a deleted bucket and has none. -/
theorem clear_keeps_deletedCount : (∃ map, Reached (unsignedTraits id) (-1) tableAfterRemove.clear map) ∧
    tableAfterRemove.clear.deletedCount = 1 ∧
      deletedBuckets (unsignedTraits id) tableAfterRemove.clear.buckets = 0 := by
  obtain ⟨map, reached⟩ := reached_tableAfterRemove
  exact ⟨⟨_, reached.step .clear (by decide) trivial rfl⟩, rfl, rfl⟩

end HashTable

end WebNode.Wtf
