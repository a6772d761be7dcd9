import WebNode.Wtf.HashTableAdd

/-!
# Removing from a hash table

A removed entry leaves a deleted bucket behind, so that the walks of other keys still pass it. A
table with few keys is rehashed to half its size.
-/

namespace WebNode.Wtf.HashTable

variable {κ ν : Type} [Inhabited ν] (traits : HashTraits κ) (deletedValue : κ)

/-! ### The code -/

/-- `constructDeletedValue` says nothing about the value. -/
def deletedBucket : κ × ν := (deletedValue, default)

/-- `deleteBucket`, with the counts. -/
def deleteBucket (table : HashTable κ ν) (i : Nat) : HashTable κ ν where
  buckets := table.buckets.set i (deletedBucket deletedValue)
  keyCount := table.keyCount - 1
  deletedCount := table.deletedCount + 1

omit [Inhabited ν] in
/-- `m_keyCount * m_minLoad < m_tableSize && m_tableSize > KeyTraits::minimumTableSize` -/
def shouldShrink (table : HashTable κ ν) : Bool :=
  table.minLoadProduct < table.buckets.length && table.buckets.length > traits.minimumTableSize

def shrink (table : HashTable κ ν) : Option (HashTable κ ν) := table.rehash traits (table.buckets.length / 2)

def shrinkIfNeeded (table : HashTable κ ν) : Option (HashTable κ ν) :=
  if table.shouldShrink traits then table.shrink traits else some table

/-- `remove(iterator)`. There is no position at `end()`. -/
def removeIterator (table : HashTable κ ν) : Option Nat → Option (HashTable κ ν)
  | none => some table
  | some position => (table.deleteBucket deletedValue position).shrinkIfNeeded traits

def find (table : HashTable κ ν) (key : κ) : Option (Option Nat) :=
  if table.buckets.isEmpty then some none else table.lookup traits key

/-- `remove(const KeyType&)` -/
def remove (table : HashTable κ ν) (key : κ) : Option (HashTable κ ν) := do
  table.removeIterator traits deletedValue (← table.find traits key)

/-- The loop of `removeIf` goes through the buckets from the last to the first. -/
def removeIfLoop (functor : κ × ν → Bool) : Nat → HashTable κ ν → HashTable κ ν
  | 0, table => table
  | i + 1, table =>
    removeIfLoop functor i <|
      if isEmptyOrDeletedBucket traits (bucketAt traits table.buckets i) then table
      else if !functor (bucketAt traits table.buckets i) then table
      else table.deleteBucket deletedValue i

def removeIf (table : HashTable κ ν) (functor : κ × ν → Bool) : Option (HashTable κ ν) :=
  (removeIfLoop traits deletedValue functor table.buckets.length table).shrinkIfNeeded traits

omit [Inhabited ν] in
/-- `clear` leaves `m_deletedCount`. -/
def clear (table : HashTable κ ν) : HashTable κ ν :=
  if table.buckets.isEmpty then table else { buckets := [], keyCount := 0, deletedCount := table.deletedCount }

/-- `result.iterator->value = value` -/
def setValue (table : HashTable κ ν) (i : Nat) (value : ν) : HashTable κ ν :=
  { table with buckets := table.buckets.set i ((bucketAt traits table.buckets i).1, value) }

/-- `HashMap::set`. For a key that is there, the iterator of `add` is at the bucket that was found. -/
def set (table : HashTable κ ν) (key : κ) (value : ν) : Option (HashTable κ ν) := do
  let (isNewEntry, table) ← table.add traits key value
  if isNewEntry then return table
  let (i, _) ← lookupForWriting traits table.buckets key
  return table.setValue traits i value

/-! ### Deleting a bucket -/

variable {traits deletedValue} {buckets : List (κ × ν)} {i : Nat}

/-- The entries apart from the one in a bucket. -/
theorem entries_perm_erase (inside : i < buckets.length) (live : Live traits (bucketAt traits buckets i)) :
    (liveBuckets traits buckets).Perm (bucketAt traits buckets i :: liveBuckets traits (buckets.eraseIdx i)) := by
  rw [bucketAt_eq inside] at live ⊢
  have perm := (List.getElem_cons_eraseIdx_perm inside).filter fun bucket => !isEmptyOrDeletedBucket traits bucket
  rw [List.filter_cons, if_pos (live_eq.mpr live)] at perm
  exact perm.symm

omit [Inhabited ν] in
theorem entries_set_live (inside : i < buckets.length) {entry : κ × ν} (live : Live traits entry) :
    (liveBuckets traits (buckets.set i entry)).Perm (entry :: liveBuckets traits (buckets.eraseIdx i)) := by
  have perm := (List.set_perm_cons_eraseIdx inside entry).filter fun bucket => !isEmptyOrDeletedBucket traits bucket
  rwa [List.filter_cons, if_pos (live_eq.mpr live)] at perm

omit [Inhabited ν] in
theorem entries_set_dead (inside : i < buckets.length) {entry : κ × ν} (dead : ¬Live traits entry) :
    (liveBuckets traits (buckets.set i entry)).Perm (liveBuckets traits (buckets.eraseIdx i)) := by
  have perm := (List.set_perm_cons_eraseIdx inside entry).filter fun bucket => !isEmptyOrDeletedBucket traits bucket
  rwa [List.filter_cons, if_neg (fun live => dead (live_eq.mp live))] at perm

section Deleting

variable (lawful : traits.Lawful) (deleted : traits.isDeletedValue deletedValue = true)

include deleted

theorem not_live_deletedBucket : ¬Live traits (deletedBucket deletedValue : κ × ν) := fun live => by
  rw [live_iff, deletedBucket, deleted] at live
  cases live.2

include lawful

theorem deletedBucket_not_empty : traits.isEmptyValue (deletedBucket deletedValue : κ × ν).1 = false :=
  Bool.eq_false_iff.mpr fun isEmpty => by
    have wrong := lawful.not_deleted_of_empty _ isEmpty
    rw [deletedBucket, deleted] at wrong
    cases wrong

/-- A deleted bucket ends no walk. -/
theorem Open.delete (opened : Open traits buckets) (inside : i < buckets.length) :
    Open traits (buckets.set i (deletedBucket deletedValue)) := by
  have fewer (j : Nat)
      (isEmpty : traits.isEmptyValue (bucketAt traits (buckets.set i (deletedBucket deletedValue)) j).1 = true) :
      traits.isEmptyValue (bucketAt traits buckets j).1 = true := by
    rw [bucketAt_set inside] at isEmpty
    split at isEmpty
    · rw [deletedBucket_not_empty lawful deleted] at isEmpty
      cases isEmpty
    · exact isEmpty
  have elsewhere {j : Nat} (live : Live traits (bucketAt traits (buckets.set i (deletedBucket deletedValue)) j)) :
      j ≠ i := by
    rintro rfl
    rw [bucketAt_set inside, if_pos rfl] at live
    exact not_live_deletedBucket deleted live
  constructor
  · rw [List.length_set]
    exact opened.size
  · intro j inTable live
    rw [List.length_set] at inTable ⊢
    have different := elsewhere live
    rw [bucketAt_set inside, if_neg different] at live ⊢
    obtain ⟨h, hashed, reached⟩ := opened.reached j inTable live
    exact ⟨h, hashed, reached.mono fewer⟩
  · intro j inTable k inTable' live same
    rw [List.length_set] at inTable inTable'
    have different := elsewhere live
    rw [bucketAt_set inside, if_neg different] at live same
    rw [bucketAt_set inside] at same
    split at same
    · have marked := lawful.isDeleted_eq _ _ same
      rw [(live_iff.mp live).2, deletedBucket, deleted] at marked
      cases marked
    · exact opened.distinct j inTable k inTable' live same

variable {table : HashTable κ ν}

theorem Valid.deleteBucket (valid : Valid traits table) (inside : i < table.buckets.length)
    (live : Live traits (bucketAt traits table.buckets i)) :
    Valid traits (table.deleteBucket deletedValue i) ∧
      (table.entries traits).Perm
        (bucketAt traits table.buckets i :: (table.deleteBucket deletedValue i).entries traits) := by
  have nonempty : table.buckets ≠ [] := List.ne_nil_of_length_pos (by omega)
  have opened := (valid.opened nonempty).delete lawful deleted inside
  have before := entries_perm_erase inside live
  have after : (liveBuckets traits (table.buckets.set i (deletedBucket deletedValue))).Perm _ :=
    entries_set_dead inside (not_live_deletedBucket deleted)
  have perm := before.trans (after.symm.cons _)
  have count : table.keyCount = (liveBuckets traits (table.buckets.set i (deletedBucket deletedValue))).length + 1 := by
    rw [valid.listed.keyCount, entries, perm.length_eq, List.length_cons]
  have load := valid.load nonempty
  refine ⟨⟨⟨opened.keys, ?_⟩, fun _ => opened, ?_, fun _ => ?_⟩, perm⟩
  · show table.keyCount - 1 = _
    rw [count, Nat.add_sub_cancel]
    rfl
  · rw [bucketAt_eq inside] at live
    show table.deletedCount + 1 = deletedBuckets traits (table.buckets.set i (deletedBucket deletedValue))
    rw [deletedBuckets, List.countP_set inside, (live_iff.mp live).2, deletedBucket, deleted, valid.deletedCount]
    rfl
  · show (table.keyCount - 1 + (table.deletedCount + 1)) * 2 < (table.buckets.set i (deletedBucket deletedValue)).length
    rw [List.length_set]
    omega

omit lawful deleted in
theorem shrinkIfNeeded_null (null : table.buckets = []) : table.shrinkIfNeeded traits = some table := by
  simp [HashTable.shrinkIfNeeded, shouldShrink, null]

omit deleted in
/-- A table that shrinks has room for its keys. -/
theorem Valid.shrinkIfNeeded (valid : Valid traits table) (count : table.keyCount ≤ 2 ^ 28) :
    ∃ changed, table.shrinkIfNeeded traits = some changed ∧ Valid traits changed ∧
      (changed.entries traits).Perm (table.entries traits) := by
  rw [HashTable.shrinkIfNeeded]
  split
  · next sparse =>
    rw [shouldShrink, Bool.and_eq_true, decide_eq_true_iff, decide_eq_true_iff, minLoadProduct_eq count] at sparse
    obtain ⟨few, large⟩ := sparse
    have nonempty : table.buckets ≠ [] := List.ne_nil_of_length_pos (by omega)
    obtain ⟨log, -, logLe, size_eq⟩ := (valid.opened nonempty).size
    obtain ⟨least, two_le, -, minimum⟩ := lawful.minimum
    have less : least < log := by
      rw [minimum, size_eq] at large
      exact (Nat.pow_lt_pow_iff_right (by decide)).mp large
    obtain ⟨half, rfl⟩ : ∃ half, log = half + 1 := ⟨log - 1, by omega⟩
    rw [Nat.pow_succ] at size_eq
    have few : table.keyCount * 6 < 2 ^ half * 2 := by omega
    obtain ⟨changed, run, changedValid, -, -, perm⟩ := valid.listed.rehash lawful (show 1 ≤ half by omega) (by omega)
      (show table.keyCount * 2 < 2 ^ half by omega)
    refine ⟨changed, ?_, changedValid, perm⟩
    rw [shrink, size_eq, Nat.mul_div_cancel _ (by decide), run]
  · exact ⟨table, rfl, valid, .refl _⟩

theorem Valid.removeIterator (valid : Valid traits table) (count : table.keyCount ≤ 2 ^ 28)
    (inside : i < table.buckets.length) (live : Live traits (bucketAt traits table.buckets i)) :
    ∃ changed, table.removeIterator traits deletedValue (some i) = some changed ∧ Valid traits changed ∧
      (table.entries traits).Perm (bucketAt traits table.buckets i :: changed.entries traits) := by
  obtain ⟨fewer, removed⟩ := valid.deleteBucket lawful deleted inside live
  obtain ⟨changed, run, changedValid, perm⟩ := fewer.shrinkIfNeeded lawful ((Nat.sub_le _ _).trans count)
  exact ⟨changed, run, changedValid, removed.trans (perm.symm.cons _)⟩

omit lawful deleted in
/-- What `removeIf` makes of a bucket. -/
def discarded (traits : HashTraits κ) (deletedValue : κ) (functor : κ × ν → Bool) (bucket : κ × ν) : κ × ν :=
  if isEmptyOrDeletedBucket traits bucket then bucket
  else if !functor bucket then bucket else deletedBucket deletedValue

omit lawful deleted in
theorem take_succ_eq (inside : i < buckets.length) :
    buckets.take (i + 1) = buckets.take i ++ [bucketAt traits buckets i] := by
  rw [List.take_succ_eq_append_getElem inside, bucketAt_eq inside]

omit lawful deleted in
theorem removeIfLoop_buckets (functor : κ × ν → Bool) (le : i ≤ table.buckets.length) :
    (removeIfLoop traits deletedValue functor i table).buckets =
      (table.buckets.take i).map (discarded traits deletedValue functor) ++ table.buckets.drop i := by
  induction i generalizing table with
  | zero => rw [removeIfLoop, List.take_zero, List.map_nil, List.nil_append, List.drop_zero]
  | succ i ih =>
    have same (next : HashTable κ ν)
        (step : next.buckets =
          table.buckets.set i (discarded traits deletedValue functor (bucketAt traits table.buckets i))) :
        (removeIfLoop traits deletedValue functor i next).buckets =
          (table.buckets.take (i + 1)).map (discarded traits deletedValue functor) ++ table.buckets.drop (i + 1) := by
      rw [ih (by rw [step, List.length_set]; omega), step, List.take_set_of_le (Nat.le_refl i), take_succ_eq le,
        List.map_append, List.append_assoc, List.map_singleton, List.drop_set, if_neg (Nat.lt_irrefl i), Nat.sub_self,
          List.drop_eq_getElem_cons le]
      rfl
    have unchanged
        (bucket : discarded traits deletedValue functor (bucketAt traits table.buckets i) =
          bucketAt traits table.buckets i) :
        table.buckets = table.buckets.set i
          (discarded traits deletedValue functor (bucketAt traits table.buckets i)) := by
      rw [bucket, bucketAt_eq le, List.set_getElem_self]
    rw [removeIfLoop]
    apply same
    split
    · next dead => exact unchanged (if_pos dead)
    · next live =>
      split
      · next kept => exact unchanged ((if_neg live).trans (if_pos kept))
      · next meets =>
        rw [discarded, if_neg live, if_neg meets]
        rfl

theorem Valid.removeIfLoop (valid : Valid traits table) (functor : κ × ν → Bool) (le : i ≤ table.buckets.length) :
    Valid traits (removeIfLoop traits deletedValue functor i table) := by
  induction i generalizing table with
  | zero => exact valid
  | succ i ih =>
    rw [HashTable.removeIfLoop]
    split
    · exact ih valid (by omega)
    · next live =>
      split
      · exact ih valid (by omega)
      · refine ih (valid.deleteBucket lawful deleted le (Bool.eq_false_iff.mpr live)).1 ?_
        rw [HashTable.deleteBucket, List.length_set]
        omega

omit lawful in
theorem liveBuckets_map_discarded (functor : κ × ν → Bool) (buckets : List (κ × ν)) :
    liveBuckets traits (buckets.map (discarded traits deletedValue functor)) =
      (liveBuckets traits buckets).filter fun entry => !functor entry := by
  have dead : isEmptyOrDeletedBucket traits (deletedBucket deletedValue : κ × ν) = true :=
    Bool.not_eq_false _ ▸ not_live_deletedBucket deleted
  induction buckets with
  | nil => rfl
  | cons bucket rest ih =>
    simp only [liveBuckets] at ih ⊢
    rw [List.map_cons, List.filter_cons, List.filter_cons, ih, discarded]
    cases marked : isEmptyOrDeletedBucket traits bucket <;> cases meets : functor bucket <;> simp [marked, meets, dead]

omit lawful in
theorem removeIfLoop_entries (functor : κ × ν → Bool) :
    (HashTable.removeIfLoop traits deletedValue functor table.buckets.length table).entries traits =
      (table.entries traits).filter fun entry => !functor entry := by
  rw [entries, removeIfLoop_buckets functor (Nat.le_refl _), List.take_length, List.drop_length, List.append_nil,
    liveBuckets_map_discarded deleted]
  rfl

/-- `removeIf` keeps the entries that do not meet the condition. -/
theorem Valid.removeIf (valid : Valid traits table) (count : table.keyCount ≤ 2 ^ 28) (functor : κ × ν → Bool) :
    ∃ changed, table.removeIf traits deletedValue functor = some changed ∧ Valid traits changed ∧
      (changed.entries traits).Perm ((table.entries traits).filter fun entry => !functor entry) := by
  have fewer := valid.removeIfLoop lawful deleted functor (Nat.le_refl _)
  obtain ⟨changed, run, changedValid, perm⟩ := fewer.shrinkIfNeeded lawful (by
    rw [fewer.listed.keyCount, removeIfLoop_entries deleted]
    exact (List.length_filter_le _ _).trans (valid.listed.keyCount ▸ count))
  exact ⟨changed, run, changedValid, perm.trans (.of_eq (removeIfLoop_entries deleted functor))⟩

end Deleting

/-! ### Overwriting a value -/

/-- Walks depend on the keys only. -/
theorem Open.of_keys {others : List (κ × ν)} (opened : Open traits buckets) (length : others.length = buckets.length)
    (keys : ∀ j, (bucketAt traits others j).1 = (bucketAt traits buckets j).1) : Open traits others := by
  have live (j : Nat) : Live traits (bucketAt traits others j) ↔ Live traits (bucketAt traits buckets j) := by
    rw [live_iff, live_iff, keys]
  refine ⟨by rw [length]; exact opened.size, fun j inside isLive => ?_, fun j inside k inside' isLive same => ?_⟩
  · simp only [keys, length]
    exact opened.reached j (length ▸ inside) ((live j).mp isLive)
  · rw [keys, keys] at same
    exact opened.distinct j (length ▸ inside) k (length ▸ inside') ((live j).mp isLive) same

theorem Valid.setValue {table : HashTable κ ν} (valid : Valid traits table) (inside : i < table.buckets.length)
    (live : Live traits (bucketAt traits table.buckets i)) (value : ν) :
    Valid traits (table.setValue traits i value) ∧ ∃ rest,
      (table.entries traits).Perm (bucketAt traits table.buckets i :: rest) ∧
      ((table.setValue traits i value).entries traits).Perm (((bucketAt traits table.buckets i).1, value) :: rest) := by
  have nonempty : table.buckets ≠ [] := List.ne_nil_of_length_pos (by omega)
  have before := entries_perm_erase inside live
  have changedLive : Live traits ((bucketAt traits table.buckets i).1, value) := live_iff.mpr (live_iff.mp live)
  have after := entries_set_live inside changedLive
  have opened : Open traits (table.buckets.set i ((bucketAt traits table.buckets i).1, value)) := by
    refine (valid.opened nonempty).of_keys List.length_set fun j => ?_
    rw [bucketAt_set inside]
    split
    · next same => rw [same]
    · rfl
  refine ⟨⟨⟨opened.keys, ?_⟩, fun _ => opened, ?_, fun _ => ?_⟩, _, before, after⟩
  · rw [HashTable.setValue, valid.listed.keyCount, entries, entries, before.length_eq, after.length_eq]
    rfl
  · rw [HashTable.setValue, valid.deletedCount]
    show _ = deletedBuckets traits (table.buckets.set i ((bucketAt traits table.buckets i).1, value))
    rw [deletedBuckets_set inside (live_iff.mp changedLive).2, ← bucketAt_eq inside, (live_iff.mp live).2]
    rfl
  · rw [HashTable.setValue, List.length_set]
    exact valid.load nonempty

end WebNode.Wtf.HashTable
