import WebNode.Lib.Probing
import WebNode.Wtf.HashTable
import Mathlib.Algebra.Order.Ring.Nat
import Mathlib.Data.List.Perm.Basic

/-!
# Adding to a hash table

Keys that mark no bucket are found where they were put: every bucket is on the walk of its key
before an empty one. A table has an empty bucket, so that every search ends.
-/

namespace WebNode.Wtf

open WebNode.Lib

/-- What the hash table relies on. -/
structure HashTraits.Lawful {κ : Type} (traits : HashTraits κ) : Prop where
  isEmpty_emptyValue : traits.isEmptyValue traits.emptyValue = true
  not_deleted_of_empty : ∀ key, traits.isEmptyValue key = true → traits.isDeletedValue key = false
  equal_refl : ∀ key, traits.equal key key = true
  equal_symm : ∀ key other, traits.equal key other = true → traits.equal other key = true
  equal_trans : ∀ key other third, traits.equal key other = true → traits.equal other third = true →
    traits.equal key third = true
  hash_eq : ∀ key other, traits.equal key other = true → traits.hash key = traits.hash other
  isEmpty_eq : ∀ key other, traits.equal key other = true → traits.isEmptyValue key = traits.isEmptyValue other
  isDeleted_eq : ∀ key other, traits.equal key other = true → traits.isDeletedValue key = traits.isDeletedValue other
  minimum : ∃ log, 2 ≤ log ∧ log ≤ 30 ∧ traits.minimumTableSize = 2 ^ log

/-- A key that can be in a table. -/
structure HashTraits.IsKey {κ : Type} (traits : HashTraits κ) (key : κ) : Prop where
  notEmpty : traits.isEmptyValue key = false
  notDeleted : traits.isDeletedValue key = false
  hashed : ∃ h, traits.hash key = some h

namespace HashTable

variable {κ ν : Type} [Inhabited ν] {traits : HashTraits κ} {buckets : List (κ × ν)}

/-! ### The walk of a key -/

/-- The positions of a search. -/
def path (size : Nat) (h : UInt32) : Nat → Nat
  | 0 => firstPosition size h
  | count + 1 => nextPosition size h (path size h count)

theorem path_eq_walk {log : Nat} (logLe : log ≤ 32) (h : UInt32) (count : Nat) :
    path (2 ^ log) h count = Probing.walk (2 ^ log) h.toNat (1 ||| doubleHash h).toNat count := by
  induction count with
  | zero => rw [path, firstPosition, Nat.and_two_pow_sub_one_eq_mod, Probing.walk, Nat.zero_mul, Nat.add_zero]
  | succ count ih =>
    rw [path, nextPosition, Nat.and_two_pow_sub_one_eq_mod, ih, Probing.walk_succ,
      Nat.mod_mod_of_dvd _ (Nat.pow_dvd_pow 2 logLe)]

theorem step_coprime (h : UInt32) (log : Nat) : (1 ||| doubleHash h).toNat.Coprime (2 ^ log) := by
  refine Nat.Coprime.pow_right _ (Nat.coprime_two_right.mpr ?_)
  rw [UInt32.toNat_or, Nat.odd_iff, Nat.or_mod_two_eq_one]
  exact .inl rfl

theorem exists_path_eq {size log target : Nat} (size_eq : size = 2 ^ log) (logLe : log ≤ 32) (h : UInt32)
    (inside : target < size) :
    ∃ count < size, path size h count = target := by
  subst size_eq
  simp only [path_eq_walk logLe]
  exact Probing.exists_walk_eq _ (step_coprime h log) inside

theorem path_lt {size log : Nat} (size_eq : size = 2 ^ log) (h : UInt32) (count : Nat) : path size h count < size := by
  subst size_eq
  cases count with
  | zero =>
    rw [path, firstPosition, Nat.and_two_pow_sub_one_eq_mod]
    exact Nat.mod_lt _ (Nat.two_pow_pos log)
  | succ count =>
    rw [path, nextPosition, Nat.and_two_pow_sub_one_eq_mod]
    exact Nat.mod_lt _ (Nat.two_pow_pos log)

/-! ### One step of a search -/

section Steps

variable {key : κ} {h : UInt32} (lawful : traits.Lawful) (isKey : traits.IsKey key)

include lawful isKey

theorem not_empty_of_equal {other : κ} (same : traits.equal other key = true) : traits.isEmptyValue other = false := by
  rw [lawful.isEmpty_eq _ _ same, isKey.notEmpty]

theorem not_deleted_of_equal {other : κ} (same : traits.equal other key = true) :
    traits.isDeletedValue other = false := by
  rw [lawful.isDeleted_eq _ _ same, isKey.notDeleted]

/-- For a key, the order of the checks does not matter. -/
theorem lookupLoop_step (fuel i : Nat) : lookupLoop traits buckets key h (fuel + 1) i =
    if traits.equal (bucketAt traits buckets i).1 key then some (some i)
    else if traits.isEmptyValue (bucketAt traits buckets i).1 then some none
    else lookupLoop traits buckets key h fuel (nextPosition buckets.length h i) := by
  rw [lookupLoop]
  by_cases safe : traits.safeToCompareToEmptyOrDeleted
  · rw [if_pos safe]
  · rw [if_neg safe]
    by_cases same : traits.equal (bucketAt traits buckets i).1 key = true
    · simp [same, not_empty_of_equal lawful isKey same, not_deleted_of_equal lawful isKey same]
    · simp [same]

theorem lookupForWritingLoop_step (fuel i : Nat) (deletedEntry : Option Nat) :
    lookupForWritingLoop traits buckets key h (fuel + 1) i deletedEntry =
      if traits.isEmptyValue (bucketAt traits buckets i).1 then some (deletedEntry.getD i, false)
      else if traits.equal (bucketAt traits buckets i).1 key then some (i, true)
      else lookupForWritingLoop traits buckets key h fuel (nextPosition buckets.length h i)
        (if traits.isDeletedValue (bucketAt traits buckets i).1 then some i else deletedEntry) := by
  rw [lookupForWritingLoop]
  by_cases safe : traits.safeToCompareToEmptyOrDeleted
  · rw [if_pos safe]
  · rw [if_neg safe]
    by_cases same : traits.equal (bucketAt traits buckets i).1 key = true
    · simp [same, not_deleted_of_equal lawful isKey same]
    · by_cases deleted : traits.isDeletedValue (bucketAt traits buckets i).1 = true <;> simp [same, deleted]

variable {stop : Nat}
    (passed : ∀ count < stop, traits.isEmptyValue (bucketAt traits buckets (path buckets.length h count)).1 = false ∧
  traits.equal (bucketAt traits buckets (path buckets.length h count)).1 key = false)

include passed

/-- A search goes on to the first bucket that is empty or has the key. -/
theorem lookupLoop_eq {fuel count : Nat} (le : count ≤ stop) (enough : stop < count + fuel) :
    lookupLoop traits buckets key h fuel (path buckets.length h count) =
      lookupLoop traits buckets key h (fuel - (stop - count)) (path buckets.length h stop) := by
  induction fuel generalizing count with
  | zero => omega
  | succ fuel ih =>
    rcases Nat.eq_or_lt_of_le le with rfl | less
    · rw [Nat.sub_self, Nat.sub_zero]
    · obtain ⟨full, different⟩ := passed count less
      rw [lookupLoop_step lawful isKey, full, different]
      show lookupLoop traits buckets key h fuel (path buckets.length h (count + 1)) = _
      rw [ih less (by omega)]
      congr 1
      omega

theorem lookupForWritingLoop_eq {fuel count : Nat} {deletedEntry : Option Nat} (le : count ≤ stop)
    (enough : stop < count + fuel) (seen : ∀ i ∈ deletedEntry, ∃ before < count, path buckets.length h before = i ∧
      traits.isDeletedValue (bucketAt traits buckets i).1 = true) :
    ∃ deletedEntry', (∀ i ∈ deletedEntry', ∃ before < stop, path buckets.length h before = i ∧
        traits.isDeletedValue (bucketAt traits buckets i).1 = true) ∧
      lookupForWritingLoop traits buckets key h fuel (path buckets.length h count) deletedEntry =
        lookupForWritingLoop traits buckets key h (fuel - (stop - count))
        (path buckets.length h stop) deletedEntry' := by
  induction fuel generalizing count deletedEntry with
  | zero => omega
  | succ fuel ih =>
    rcases Nat.eq_or_lt_of_le le with rfl | less
    · exact ⟨deletedEntry, seen, by rw [Nat.sub_self, Nat.sub_zero]⟩
    · obtain ⟨full, different⟩ := passed count less
      rw [lookupForWritingLoop_step lawful isKey, full, different]
      have more : fuel + 1 - (stop - count) = fuel - (stop - (count + 1)) := by omega
      rw [more]
      refine ih less (by omega) fun i member => ?_
      split at member
      · next deleted =>
        obtain rfl := Option.mem_some_iff.mp member
        exact ⟨count, Nat.lt_succ_self _, rfl, deleted⟩
      · obtain ⟨before, less', rest⟩ := seen i member
        exact ⟨before, Nat.lt_succ_of_lt less', rest⟩

end Steps

/-! ### Open addressing -/

omit [Inhabited ν] in
/-- A bucket with a key. -/
def Live (traits : HashTraits κ) (bucket : κ × ν) : Prop := isEmptyOrDeletedBucket traits bucket = false

omit [Inhabited ν] in
theorem live_iff {bucket : κ × ν} :
    Live traits bucket ↔ traits.isEmptyValue bucket.1 = false ∧ traits.isDeletedValue bucket.1 = false := by
  simp [Live, isEmptyOrDeletedBucket]

theorem bucketAt_eq {i : Nat} (inside : i < buckets.length) :
    bucketAt traits buckets i = buckets[i] := by
  rw [bucketAt, List.getD_eq_getElem?_getD, List.getElem?_eq_getElem inside, Option.getD_some]

theorem bucketAt_set {i : Nat} (inside : i < buckets.length) (entry : κ × ν) (j : Nat) :
    bucketAt traits (buckets.set i entry) j = if j = i then entry else bucketAt traits buckets j := by
  by_cases same : j = i
  · subst same
    rw [if_pos rfl, bucketAt_eq (by rwa [List.length_set]), List.getElem_set_self]
  · rw [if_neg same, bucketAt, bucketAt, List.getD_eq_getElem?_getD, List.getD_eq_getElem?_getD,
      List.getElem?_set_ne (Ne.symm same)]

/-- Every key is on its walk before an empty bucket, and in one bucket only. -/
structure Open (traits : HashTraits κ) (buckets : List (κ × ν)) : Prop where
  size : ∃ log, 1 ≤ log ∧ log ≤ 30 ∧ buckets.length = 2 ^ log
  reached : ∀ i < buckets.length, Live traits (bucketAt traits buckets i) →
    ∃ h, traits.hash (bucketAt traits buckets i).1 = some h ∧
    Probing.Reached (path buckets.length h) (fun j => traits.isEmptyValue (bucketAt traits buckets j).1 = true) i
  distinct : ∀ i < buckets.length, ∀ j < buckets.length, Live traits (bucketAt traits buckets i) →
    traits.equal (bucketAt traits buckets i).1 (bucketAt traits buckets j).1 = true → i = j

/-- A bucket with a key equal to the given one. -/
def Has (traits : HashTraits κ) (buckets : List (κ × ν)) (key : κ) (i : Nat) : Prop :=
  i < buckets.length ∧ traits.equal (bucketAt traits buckets i).1 key = true

section Search

variable {key : κ} {h : UInt32} (lawful : traits.Lawful) (isKey : traits.IsKey key)
  (opened : Open traits buckets) (hashed : traits.hash key = some h)
  (hasEmpty : ∃ i < buckets.length, traits.isEmptyValue (bucketAt traits buckets i).1 = true)

include lawful isKey opened hashed hasEmpty

/-- The walk of a key leads to the bucket with the key, or to an empty one if there is none. -/
theorem exists_stop : ∃ stop < buckets.length,
    (∀ count < stop, traits.isEmptyValue (bucketAt traits buckets (path buckets.length h count)).1 = false ∧
      traits.equal (bucketAt traits buckets (path buckets.length h count)).1 key = false) ∧
    (Has traits buckets key (path buckets.length h stop) ∨
      traits.isEmptyValue (bucketAt traits buckets (path buckets.length h stop)).1 = true ∧
      ∀ i, ¬Has traits buckets key i) := by
  classical
  obtain ⟨log, -, logLe, size_eq⟩ := opened.size
  obtain ⟨i, inside, isEmpty⟩ := hasEmpty
  obtain ⟨count, less, rfl⟩ := exists_path_eq size_eq (logLe.trans (by decide)) h inside
  have stops : ∃ stop, traits.isEmptyValue (bucketAt traits buckets (path buckets.length h stop)).1 = true ∨
      traits.equal (bucketAt traits buckets (path buckets.length h stop)).1 key = true := ⟨count, .inl isEmpty⟩
  have earlier (before : Nat) (sooner : before < Nat.find stops) := not_or.mp (Nat.find_min stops sooner)
  refine ⟨Nat.find stops, (Nat.find_min' stops (.inl isEmpty)).trans_lt less,
    fun before sooner =>
      ⟨Bool.eq_false_iff.mpr (earlier before sooner).1, Bool.eq_false_iff.mpr (earlier before sooner).2⟩, ?_⟩
  rcases Nat.find_spec stops with ends | same
  · refine .inr ⟨ends, fun j ⟨inTable, same⟩ => ?_⟩
    have live : Live traits (bucketAt traits buckets j) :=
      live_iff.mpr ⟨not_empty_of_equal lawful isKey same, not_deleted_of_equal lawful isKey same⟩
    obtain ⟨h', hashed', reached⟩ := opened.reached j inTable live
    rw [lawful.hash_eq _ _ same, hashed] at hashed'
    obtain rfl := Option.some.inj hashed'
    obtain ⟨before, sooner, rfl⟩ := reached.before_empty (Bool.eq_false_iff.mp (live_iff.mp live).1) ends
    exact (earlier before sooner).2 same
  · exact .inl ⟨path_lt size_eq h _, same⟩

/-- A search finds the bucket of the key, or that there is none. -/
theorem lookupLoop_spec :
    ∃ found, lookupLoop traits buckets key h buckets.length (firstPosition buckets.length h) = some found ∧
      ∀ i, found = some i ↔ Has traits buckets key i := by
  obtain ⟨stop, less, passed, ends⟩ := exists_stop lawful isKey opened hashed hasEmpty
  have run := lookupLoop_eq lawful isKey passed (Nat.zero_le stop) (show stop < 0 + buckets.length by omega)
  obtain ⟨fuel, fuel_eq⟩ : ∃ fuel, buckets.length - (stop - 0) = fuel + 1 := ⟨buckets.length - stop - 1, by omega⟩
  rw [fuel_eq, lookupLoop_step lawful isKey] at run
  rcases ends with has | ⟨isEmpty, absent⟩
  · rw [if_pos has.2] at run
    refine ⟨_, run, fun i => ⟨fun same => Option.some.inj same ▸ has, fun other => congrArg some ?_⟩⟩
    refine opened.distinct _ has.1 i other.1 (live_iff.mpr ⟨not_empty_of_equal lawful isKey has.2,
      not_deleted_of_equal lawful isKey has.2⟩) ?_
    exact lawful.equal_trans _ _ _ has.2 (lawful.equal_symm _ _ other.2)
  · have different : ¬traits.equal (bucketAt traits buckets (path buckets.length h stop)).1 key = true := by
      intro same
      rw [not_empty_of_equal lawful isKey same] at isEmpty
      cases isEmpty
    rw [if_neg different, if_pos isEmpty] at run
    exact ⟨_, run, fun i => ⟨nofun, fun has => absurd has (absent i)⟩⟩

/-- A search for writing finds the bucket of the key, or a place for it. -/
theorem lookupForWriting_spec : ∃ i found, lookupForWriting traits buckets key = some (i, found) ∧ i < buckets.length ∧
    (found = true ∧ Has traits buckets key i ∨ found = false ∧ (∀ j, ¬Has traits buckets key j) ∧
      ¬Live traits (bucketAt traits buckets i) ∧
      Probing.Reached (path buckets.length h)
      (fun j => traits.isEmptyValue (bucketAt traits buckets j).1 = true) i) := by
  obtain ⟨log, -, logLe, size_eq⟩ := opened.size
  obtain ⟨stop, less, passed, ends⟩ := exists_stop lawful isKey opened hashed hasEmpty
  obtain ⟨deletedEntry, seen, run⟩ := lookupForWritingLoop_eq lawful isKey passed (Nat.zero_le stop)
    (show stop < 0 + buckets.length by omega) (fun i member => absurd member (Option.not_mem_none i))
  obtain ⟨fuel, fuel_eq⟩ : ∃ fuel, buckets.length - (stop - 0) = fuel + 1 := ⟨buckets.length - stop - 1, by omega⟩
  rw [fuel_eq, lookupForWritingLoop_step lawful isKey] at run
  have call : lookupForWriting traits buckets key =
      lookupForWritingLoop traits buckets key h buckets.length (path buckets.length h 0) none := by
    rw [lookupForWriting, hashed]
    rfl
  rw [call]
  have notEmptyBefore (before : Nat) (sooner : before ≤ stop) (earlier : Nat) (lessBefore : earlier < before) :
      ¬traits.isEmptyValue (bucketAt traits buckets (path buckets.length h earlier)).1 = true :=
    Bool.eq_false_iff.mp (passed earlier (by omega)).1
  rcases ends with has | ⟨isEmpty, absent⟩
  · have full := not_empty_of_equal lawful isKey has.2
    rw [full, has.2] at run
    exact ⟨_, true, run, has.1, .inl ⟨rfl, has⟩⟩
  · rw [if_pos isEmpty] at run
    refine ⟨_, false, run, ?_, .inr ⟨rfl, absent, ?_⟩⟩
    · cases deletedEntry with
      | none => exact path_lt size_eq h stop
      | some i =>
        obtain ⟨before, _, rfl, _⟩ := seen i rfl
        exact path_lt size_eq h before
    · cases deletedEntry with
      | none =>
        refine ⟨fun live => ?_, stop, rfl, notEmptyBefore stop (Nat.le_refl _)⟩
        rw [live_iff, Option.getD_none, isEmpty] at live
        cases live.1
      | some i =>
        obtain ⟨before, sooner, rfl, deleted⟩ := seen i rfl
        refine ⟨fun live => ?_, before, rfl, notEmptyBefore before (Nat.le_of_lt sooner)⟩
        rw [live_iff, Option.getD_some, deleted] at live
        cases live.2

omit hasEmpty in
/-- A key that is not there is put on its walk. -/
theorem Open.place {i : Nat} (inside : i < buckets.length) (absent : ∀ j, ¬Has traits buckets key j)
    (reached : Probing.Reached (path buckets.length h)
      (fun j => traits.isEmptyValue (bucketAt traits buckets j).1 = true) i) (value : ν) :
    Open traits (buckets.set i (key, value)) := by
  have fewer (j : Nat) (isEmpty : traits.isEmptyValue (bucketAt traits (buckets.set i (key, value)) j).1 = true) :
      traits.isEmptyValue (bucketAt traits buckets j).1 = true := by
    rw [bucketAt_set inside] at isEmpty
    split at isEmpty
    · rw [isKey.notEmpty] at isEmpty
      cases isEmpty
    · exact isEmpty
  constructor
  · rw [List.length_set]
    exact opened.size
  · intro j inTable live
    rw [List.length_set] at inTable ⊢
    rw [bucketAt_set inside] at live ⊢
    split at live
    · next same =>
      subst same
      rw [if_pos rfl]
      exact ⟨h, hashed, reached.mono fewer⟩
    · next different =>
      rw [if_neg different]
      obtain ⟨h', hashed', reached'⟩ := opened.reached j inTable live
      exact ⟨h', hashed', reached'.mono fewer⟩
  · intro j inTable k inTable' live same
    rw [List.length_set] at inTable inTable'
    rw [bucketAt_set inside] at live same
    rw [bucketAt_set inside] at same
    split at live
    · next here =>
      rw [if_pos here] at same
      by_cases there : k = i
      · exact here.trans there.symm
      · rw [if_neg there] at same
        exact absurd ⟨inTable', lawful.equal_symm _ _ same⟩ (absent k)
    · next notHere =>
      rw [if_neg notHere] at same
      by_cases there : k = i
      · rw [if_pos there] at same
        exact absurd ⟨inTable, same⟩ (absent j)
      · rw [if_neg there] at same
        exact opened.distinct j inTable k inTable' live same

end Search

/-! ### Entries and counts -/

omit [Inhabited ν] in
theorem live_eq {bucket : κ × ν} : (!isEmptyOrDeletedBucket traits bucket) = true ↔ Live traits bucket := by
  rw [Bool.not_eq_true', Live]

/-- A bucket without a key takes an entry. -/
theorem entries_set_perm {i : Nat} {entry : κ × ν} (inside : i < buckets.length)
    (free : ¬Live traits (bucketAt traits buckets i)) (live : Live traits entry) :
    (liveBuckets traits (buckets.set i entry)).Perm (entry :: liveBuckets traits buckets) := by
  rw [bucketAt_eq inside] at free
  have after := (List.set_perm_cons_eraseIdx inside entry).filter fun bucket => !isEmptyOrDeletedBucket traits bucket
  have before := (List.getElem_cons_eraseIdx_perm inside).filter fun bucket => !isEmptyOrDeletedBucket traits bucket
  rw [List.filter_cons, if_pos (live_eq.mpr live)] at after
  rw [List.filter_cons, if_neg (fun wrong => free (live_eq.mp wrong))] at before
  exact after.trans (before.cons entry)

def deletedBuckets (traits : HashTraits κ) (buckets : List (κ × ν)) : Nat :=
  buckets.countP fun bucket => traits.isDeletedValue bucket.1

omit [Inhabited ν] in
/-- Every bucket is empty, deleted or live. -/
theorem length_eq (lawful : traits.Lawful) (buckets : List (κ × ν)) : buckets.length =
    (buckets.countP fun bucket => traits.isEmptyValue bucket.1) + deletedBuckets traits buckets +
      (liveBuckets traits buckets).length := by
  induction buckets with
  | nil => rfl
  | cons bucket rest ih =>
    have exclusive := lawful.not_deleted_of_empty bucket.1
    rw [deletedBuckets, liveBuckets] at ih ⊢
    simp only [List.length_cons, List.countP_cons, List.filter_cons, isEmptyOrDeletedBucket] at ih ⊢
    cases isEmpty : traits.isEmptyValue bucket.1 <;> cases deleted : traits.isDeletedValue bucket.1 <;>
      simp_all <;> omega

theorem exists_empty (lawful : traits.Lawful)
    (room : deletedBuckets traits buckets + (liveBuckets traits buckets).length < buckets.length) :
    ∃ i < buckets.length, traits.isEmptyValue (bucketAt traits buckets i).1 = true := by
  have total := length_eq lawful buckets
  have positive : 0 < buckets.countP fun bucket => traits.isEmptyValue bucket.1 := by omega
  obtain ⟨bucket, member, isEmpty⟩ := List.countP_pos_iff.mp positive
  obtain ⟨i, inside, rfl⟩ := List.mem_iff_getElem.mp member
  exact ⟨i, inside, by rwa [bucketAt_eq inside]⟩

omit [Inhabited ν] in
/-- The entry is in the list of the table's entries. -/
theorem mem_entries {entry : κ × ν} :
    entry ∈ liveBuckets traits buckets ↔ entry ∈ buckets ∧ Live traits entry := by
  rw [liveBuckets, List.mem_filter, live_eq]

theorem has_iff_entries (lawful : traits.Lawful) {key : κ} (isKey : traits.IsKey key) :
    (∃ i, Has traits buckets key i) ↔ ∃ entry ∈ liveBuckets traits buckets, traits.equal entry.1 key = true := by
  constructor
  · rintro ⟨i, inside, same⟩
    rw [bucketAt_eq inside] at same
    exact ⟨_, mem_entries.mpr ⟨List.getElem_mem inside,
      live_iff.mpr ⟨not_empty_of_equal lawful isKey same, not_deleted_of_equal lawful isKey same⟩⟩, same⟩
  · rintro ⟨entry, member, same⟩
    obtain ⟨i, inside, rfl⟩ := List.mem_iff_getElem.mp (mem_entries.mp member).1
    exact ⟨i, inside, by rwa [bucketAt_eq inside]⟩

/-! ### Rehashing -/

/-- Keys that can be in one table. -/
structure Keys (traits : HashTraits κ) (entries : List (κ × ν)) : Prop where
  isKey : ∀ entry ∈ entries, traits.IsKey entry.1
  distinct : entries.Pairwise fun entry other => traits.equal entry.1 other.1 = false

theorem open_replicate (lawful : traits.Lawful) {log : Nat} (one_le : 1 ≤ log) (logLe : log ≤ 30) :
    Open traits (List.replicate (2 ^ log) (emptyBucket traits : κ × ν)) := by
  have dead (i : Nat) : ¬Live traits (bucketAt traits (List.replicate (2 ^ log) (emptyBucket traits : κ × ν)) i) := by
    have here : bucketAt traits (List.replicate (2 ^ log) (emptyBucket traits : κ × ν)) i = emptyBucket traits := by
      rw [bucketAt, List.getD_eq_getElem?_getD, List.getElem?_replicate]
      split <;> rfl
    rw [here, live_iff, emptyBucket, lawful.isEmpty_emptyValue]
    exact fun both => nomatch both.1
  exact ⟨⟨log, one_le, logLe, List.length_replicate⟩, fun i _ live => absurd live (dead i),
    fun i _ _ _ live => absurd live (dead i)⟩

/-- A table during `rehash`: no bucket is deleted, and the entries so far are there. -/
structure Filled (traits : HashTraits κ) (size : Nat) (buckets entries : List (κ × ν)) : Prop where
  opened : Open traits buckets
  size : buckets.length = size
  deleted : deletedBuckets traits buckets = 0
  entries : (liveBuckets traits buckets).Perm entries

omit [Inhabited ν] in
theorem deletedBuckets_set {i : Nat} {entry : κ × ν} (inside : i < buckets.length)
    (live : traits.isDeletedValue entry.1 = false) : deletedBuckets traits (buckets.set i entry) =
      deletedBuckets traits buckets - if traits.isDeletedValue buckets[i].1 then 1 else 0 := by
  rw [deletedBuckets, List.countP_set inside, live]
  rfl

theorem Filled.reinsert (lawful : traits.Lawful) {size : Nat} {buckets entries : List (κ × ν)} {entry : κ × ν}
    (filled : Filled traits size buckets entries) (keys : Keys traits (entry :: entries))
    (room : entries.length < size) :
    ∃ changed, reinsert traits buckets entry = some changed ∧ Filled traits size changed (entry :: entries) := by
  have isKey := keys.isKey entry (List.mem_cons_self ..)
  obtain ⟨h, hashed⟩ := isKey.hashed
  have live : Live traits entry := live_iff.mpr ⟨isKey.notEmpty, isKey.notDeleted⟩
  have hasEmpty :=
    exists_empty lawful (by rw [filled.deleted, filled.entries.length_eq, filled.size, Nat.zero_add]; exact room)
  obtain ⟨i, found, run, inside, ⟨rfl, has⟩ | ⟨rfl, absent, free, reached⟩⟩ :=
    lookupForWriting_spec lawful isKey filled.opened hashed hasEmpty
  · obtain ⟨other, member, same⟩ := (has_iff_entries lawful isKey).mp ⟨i, has⟩
    have different := (List.pairwise_cons.mp keys.distinct).1 other (filled.entries.mem_iff.mp member)
    rw [lawful.equal_symm _ _ same] at different
    cases different
  · refine ⟨buckets.set i entry, by rw [HashTable.reinsert, run]; rfl, ?_, ?_, ?_, ?_⟩
    · exact Open.place lawful isKey filled.opened hashed inside absent reached entry.2
    · rw [List.length_set, filled.size]
    · rw [deletedBuckets_set inside isKey.notDeleted, filled.deleted, Nat.zero_sub]
    · exact (entries_set_perm inside free live).trans (filled.entries.cons entry)

theorem Filled.reinsertAll (lawful : traits.Lawful) {size : Nat} {buckets entries added : List (κ × ν)}
    (filled : Filled traits size buckets entries) (keys : Keys traits (added.reverse ++ entries))
    (room : added.length + entries.length < size) :
    ∃ changed, added.foldlM (HashTable.reinsert traits) buckets = some changed ∧
      Filled traits size changed (added.reverse ++ entries) := by
  induction added generalizing buckets entries with
  | nil => exact ⟨buckets, rfl, filled⟩
  | cons entry rest ih =>
    rw [List.reverse_cons, List.append_assoc, List.singleton_append] at keys ⊢
    rw [List.length_cons] at room
    obtain ⟨changed, run, filled'⟩ := filled.reinsert lawful
      ⟨fun other member => keys.isKey other (List.mem_append_right _ member),
        (List.pairwise_append.mp keys.distinct).2.1⟩
      (by omega)
    obtain ⟨final, runRest, filledRest⟩ := ih filled' keys (by rw [List.length_cons]; omega)
    exact ⟨final, by rw [List.foldlM_cons, run]; exact runRest, filledRest⟩

theorem Open.keys (opened : Open traits buckets) :
    Keys traits (liveBuckets traits buckets) where
  isKey entry member := by
    obtain ⟨inBuckets, live⟩ := mem_entries.mp member
    obtain ⟨i, inside, rfl⟩ := List.mem_iff_getElem.mp inBuckets
    have reached := opened.reached i inside
    rw [bucketAt_eq inside] at reached
    obtain ⟨h, hashed, -⟩ := reached live
    exact ⟨(live_iff.mp live).1, (live_iff.mp live).2, h, hashed⟩
  distinct := by
    rw [liveBuckets, List.pairwise_filter, List.pairwise_iff_getElem]
    intro i j inside inside' less live _
    refine Bool.eq_false_iff.mpr fun same => ?_
    have unique := opened.distinct i inside j inside'
    rw [bucketAt_eq inside, bucketAt_eq inside'] at unique
    exact absurd (unique (live_eq.mp live) same) (Nat.ne_of_lt less)

omit [Inhabited ν] in
theorem Keys.perm (lawful : traits.Lawful) {entries others : List (κ × ν)} (keys : Keys traits entries)
    (perm : entries.Perm others) :
    Keys traits others where
  isKey entry member := keys.isKey entry (perm.mem_iff.mpr member)
  distinct := perm.pairwise keys.distinct fun {entry other} different => Bool.eq_false_iff.mpr fun same => by
    rw [lawful.equal_symm _ _ same] at different
    cases different

/-! ### Whole tables -/

/-- What `rehash` reads of a table. -/
structure Listed (traits : HashTraits κ) (table : HashTable κ ν) : Prop where
  keys : Keys traits (table.entries traits)
  keyCount : table.keyCount = (table.entries traits).length

structure Valid (traits : HashTraits κ) (table : HashTable κ ν) : Prop where
  listed : Listed traits table
  opened : table.buckets ≠ [] → Open traits table.buckets
  deletedCount : table.deletedCount = deletedBuckets traits table.buckets
  load : table.buckets ≠ [] → (table.keyCount + table.deletedCount) * 2 < table.buckets.length

theorem valid_empty : Valid traits (empty : HashTable κ ν) where
  listed := ⟨⟨fun _ member => (List.not_mem_nil member).elim, .nil⟩, rfl⟩
  opened nonempty := absurd rfl nonempty
  deletedCount := rfl
  load nonempty := absurd rfl nonempty

section Tables

variable {table : HashTable κ ν} (lawful : traits.Lawful)

include lawful

theorem Listed.rehash (listed : Listed traits table) {log : Nat} (one_le : 1 ≤ log) (logLe : log ≤ 30)
    (room : table.keyCount * 2 < 2 ^ log) :
    ∃ changed, table.rehash traits (2 ^ log) = some changed ∧ Valid traits changed ∧ changed.buckets.length = 2 ^ log ∧
      changed.deletedCount = 0 ∧ (changed.entries traits).Perm (table.entries traits) := by
  have start : Filled traits (2 ^ log) (List.replicate (2 ^ log) (emptyBucket traits : κ × ν)) [] := by
    have dead : isEmptyOrDeletedBucket traits (emptyBucket traits : κ × ν) = true := by
      simp [isEmptyOrDeletedBucket, emptyBucket, lawful.isEmpty_emptyValue]
    refine ⟨open_replicate lawful one_le logLe, List.length_replicate, ?_, ?_⟩
    · rw [deletedBuckets, List.countP_replicate]
      simp [emptyBucket, lawful.not_deleted_of_empty _ lawful.isEmpty_emptyValue]
    · rw [liveBuckets, List.filter_replicate]
      simp [dead]
  have size_eq := listed.keyCount
  obtain ⟨buckets, run, filled⟩ := start.reinsertAll lawful
    (listed.keys.perm lawful (by rw [List.append_nil]; exact (List.reverse_perm _).symm))
    (show (table.entries traits).length + [].length < _ by rw [List.length_nil]; omega)
  rw [List.append_nil] at filled
  have perm : (liveBuckets traits buckets).Perm (table.entries traits) := filled.entries.trans (List.reverse_perm _)
  refine ⟨{ table with buckets := buckets, deletedCount := 0 },
    by rw [HashTable.rehash, run]; rfl, ?_, filled.size, rfl, perm⟩
  refine ⟨⟨filled.opened.keys, size_eq.trans perm.length_eq.symm⟩, fun _ => filled.opened, filled.deleted.symm,
    fun _ => ?_⟩
  show (table.keyCount + 0) * 2 < buckets.length
  rw [filled.size]
  exact room

/-- A table with room for its keys may be expanded, unless it is too large. -/
theorem Listed.expand (listed : Listed traits table) (opened : table.buckets ≠ [] → Open traits table.buckets)
    (room : table.buckets ≠ [] → table.keyCount * 2 ≤ table.buckets.length)
    (none_left : table.buckets = [] → table.keyCount = 0) :
    (∃ changed, table.expand traits = some changed ∧ Valid traits changed ∧ changed.buckets ≠ [] ∧
      changed.deletedCount = 0 ∧ (changed.entries traits).Perm (table.entries traits)) ∨ table.expand traits = none ∧
      2 ^ 30 ≤ table.buckets.length := by
  have ofRehash {log : Nat} (one_le : 1 ≤ log) (logLe : log ≤ 30) (enough : table.keyCount * 2 < 2 ^ log) : ∃ changed,
      table.rehash traits (2 ^ log) = some changed ∧ Valid traits changed ∧ changed.buckets ≠ [] ∧
        changed.deletedCount = 0 ∧
        (changed.entries traits).Perm (table.entries traits) := by
    obtain ⟨changed, run, valid, size, noneDeleted, perm⟩ := listed.rehash lawful one_le logLe enough
    refine ⟨changed, run, valid, fun nothing => ?_, noneDeleted, perm⟩
    rw [nothing] at size
    exact absurd size (Nat.ne_of_lt (Nat.two_pow_pos log))
  unfold HashTable.expand
  by_cases null : table.buckets = []
  · obtain ⟨log, two_le, logLe, minimum⟩ := lawful.minimum
    rw [if_pos (by rw [null]; rfl), minimum]
    exact .inl (ofRehash (by omega) logLe (by rw [none_left null]; exact Nat.two_pow_pos log))
  · obtain ⟨log, one_le, logLe, size_eq⟩ := (opened null).size
    have positive : table.buckets.length ≠ 0 := fun zero => null (List.length_eq_zero_iff.mp zero)
    rw [if_neg positive]
    split
    · exact .inr ⟨rfl, by omega⟩
    · next small =>
      left
      have less := room null
      have double : table.buckets.length * 2 = 2 ^ (log + 1) := by rw [size_eq, Nat.pow_succ]
      have logLess : log + 1 ≤ 30 := by
        rw [double] at small
        exact Nat.lt_succ_iff.mp ((Nat.pow_lt_pow_iff_right (by decide)).mp (Nat.lt_of_not_le small))
      split
      · next inPlace =>
        have count : table.keyCount ≤ 2 ^ 28 := by
          have := Nat.pow_le_pow_right (show 0 < 2 by decide) logLess
          omega
        rw [mustRehashInPlace, decide_eq_true_iff, minLoadProduct_eq count] at inPlace
        rw [size_eq]
        exact ofRehash one_le logLe (by omega)
      · rw [double]
        exact ofRehash (by omega) logLess (by omega)

theorem Valid.hasEmpty (valid : Valid traits table) (nonempty : table.buckets ≠ []) :
    ∃ i < table.buckets.length, traits.isEmptyValue (bucketAt traits table.buckets i).1 = true := by
  have load := valid.load nonempty
  have keyCount : table.keyCount = (liveBuckets traits table.buckets).length := valid.listed.keyCount
  have deletedCount := valid.deletedCount
  exact exists_empty lawful (by omega)

variable {key : κ} (isKey : traits.IsKey key)

include isKey

/-- A new key was written to a table with room for it. -/
theorem Valid.write (valid : Valid traits table) (nonempty : table.buckets ≠ []) {i : Nat} {h : UInt32}
    (inside : i < table.buckets.length) (hashed : traits.hash key = some h)
    (absent : ∀ j, ¬Has traits table.buckets key j) (free : ¬Live traits (bucketAt traits table.buckets i))
    (reached : Probing.Reached (path table.buckets.length h)
      (fun j => traits.isEmptyValue (bucketAt traits table.buckets j).1 = true) i) (value : ν) :
    Listed traits (table.write traits i key value) ∧ Open traits (table.write traits i key value).buckets ∧
      (table.write traits i key value).deletedCount = deletedBuckets traits (table.write traits i key value).buckets ∧
      ((table.write traits i key value).entries traits).Perm ((key, value) :: table.entries traits) := by
  have opened := (valid.opened nonempty).place lawful isKey hashed inside absent reached value
  have perm : (liveBuckets traits (table.buckets.set i (key, value))).Perm ((key, value) :: table.entries traits) :=
    entries_set_perm inside free (live_iff.mpr ⟨isKey.notEmpty, isKey.notDeleted⟩)
  refine ⟨⟨opened.keys, ?_⟩, opened, ?_, perm⟩
  · rw [HashTable.write, valid.listed.keyCount]
    exact perm.length_eq.symm
  · have counted : deletedBuckets traits (table.buckets.set i (key, value)) = _ :=
      deletedBuckets_set inside isKey.notDeleted
    show (if traits.isDeletedValue (bucketAt traits table.buckets i).1 = true then table.deletedCount - 1
      else table.deletedCount) = deletedBuckets traits (table.buckets.set i (key, value))
    rw [counted, bucketAt_eq inside, valid.deletedCount]
    split <;> simp

/-- The outcome of an `add`: the key is there already, or it is added, or the table is too large. -/
def Added (traits : HashTraits κ) (table : HashTable κ ν) (key : κ) (value : ν)
    (result : Option (Bool × HashTable κ ν)) : Prop :=
  ((∃ entry ∈ table.entries traits, traits.equal entry.1 key = true) ∧ result = some (false, table)) ∨
  (∀ entry ∈ table.entries traits, traits.equal entry.1 key = false) ∧
    ((∃ changed, result = some (true, changed) ∧ Valid traits changed ∧ changed.deletedCount ≤ table.deletedCount ∧
      (changed.entries traits).Perm ((key, value) :: table.entries traits)) ∨
    result = none ∧ 2 ^ 30 ≤ (table.keyCount + table.deletedCount + 1) * 2)

theorem Valid.addToTable (valid : Valid traits table) (nonempty : table.buckets ≠ []) (value : ν) :
    Added traits table key value (table.addToTable traits key value) := by
  obtain ⟨h, hashed⟩ := isKey.hashed
  have load := valid.load nonempty
  obtain ⟨i, found, run, inside, ⟨rfl, has⟩ | ⟨rfl, absent, free, reached⟩⟩ :=
    lookupForWriting_spec lawful isKey (valid.opened nonempty) hashed (valid.hasEmpty lawful nonempty)
  · refine .inl ⟨(has_iff_entries lawful isKey).mp ⟨i, has⟩, ?_⟩
    rw [HashTable.addToTable, run]
    rfl
  · have different : ∀ entry ∈ table.entries traits, traits.equal entry.1 key = false := by
      intro entry member
      refine Bool.eq_false_iff.mpr fun same => ?_
      obtain ⟨j, has⟩ := (has_iff_entries lawful isKey).mpr ⟨entry, member, same⟩
      exact absent j has
    obtain ⟨listed, opened, deleted, perm⟩ := valid.write lawful isKey nonempty inside hashed absent free reached value
    obtain ⟨written, writtenDef⟩ : ∃ written, written = table.write traits i key value := ⟨_, rfl⟩
    rw [← writtenDef] at listed opened deleted perm
    have size : written.buckets.length = table.buckets.length := by rw [writtenDef, HashTable.write, List.length_set]
    have keys_eq : written.keyCount = table.keyCount + 1 := by rw [writtenDef, HashTable.write]
    have deleted_le : written.deletedCount ≤ table.deletedCount := by
      rw [writtenDef, HashTable.write]
      dsimp only
      split <;> omega
    have call : table.addToTable traits key value =
        if written.shouldExpand then (written.expand traits).bind fun changed => some (true, changed)
        else some (true, written) := by
      rw [HashTable.addToTable, run, writtenDef]
      rfl
    refine .inr ⟨different, ?_⟩
    rw [call]
    by_cases full : written.shouldExpand
    · rw [if_pos full]
      rw [shouldExpand, decide_eq_true_iff] at full
      obtain ⟨log, one_le, -, size_eq⟩ := opened.size
      have even : 2 ∣ 2 ^ log := dvd_pow_self 2 (by omega)
      rcases listed.expand lawful (fun _ => opened) (fun _ => by omega)
          (fun null =>
            by rw [null] at size; simp at size; omega) with ⟨changed, run, valid', -, noneDeleted, perm'⟩ | ⟨run, large⟩
      · exact .inl ⟨changed, by rw [run]; rfl, valid', by omega, perm'.trans perm⟩
      · exact .inr ⟨by rw [run]; rfl, by omega⟩
    · rw [if_neg full]
      rw [shouldExpand, decide_eq_true_iff] at full
      exact .inl ⟨written, rfl, ⟨listed, fun _ => opened, deleted, fun _ => by omega⟩, deleted_le, perm⟩

/-- `add` leaves a table alone that has the key, and adds the key to one that does not. -/
theorem Valid.add (valid : Valid traits table) (value : ν) :
    Added traits table key value (table.add traits key value) := by
  by_cases null : table.buckets = []
  · have nothing : table.entries traits = [] := by rw [entries, null]; rfl
    have zero : table.keyCount = 0 := by rw [valid.listed.keyCount, nothing]; rfl
    rcases valid.listed.expand lawful valid.opened (fun nonempty => absurd null nonempty) (fun _ => zero) with
      ⟨first, run, firstValid, nonempty, noneDeleted, perm⟩ | ⟨-, large⟩
    · rw [nothing] at perm
      have same : table.add traits key value = first.addToTable traits key value := by
        rw [HashTable.add, if_pos (List.isEmpty_iff.mpr null), run]
        rfl
      have firstCount : first.keyCount = 0 := by rw [firstValid.listed.keyCount, perm.length_eq]; rfl
      have outcome := firstValid.addToTable lawful isKey nonempty value
      rw [Added, perm.eq_nil, firstCount, noneDeleted, ← same] at outcome
      rcases outcome with ⟨⟨entry, member, -⟩, -⟩ | ⟨-, ⟨changed, run, valid', less, perm'⟩ | ⟨-, large⟩⟩
      · exact absurd member List.not_mem_nil
      · rw [Added, nothing]
        exact .inr ⟨fun entry member => absurd member List.not_mem_nil, .inl ⟨changed, run, valid', by omega, perm'⟩⟩
      · omega
    · rw [null, List.length_nil] at large
      omega
  · rw [HashTable.add, if_neg (fun isNull => null (List.isEmpty_iff.mp isNull))]
    exact valid.addToTable lawful isKey null value

/-- A key is found exactly if it is in the table. -/
theorem Valid.lookup (valid : Valid traits table) : ∃ found, table.lookup traits key = some found ∧
    (found.isSome ↔ ∃ entry ∈ table.entries traits, traits.equal entry.1 key = true) := by
  obtain ⟨h, hashed⟩ := isKey.hashed
  by_cases null : table.buckets = []
  · refine ⟨none, ?_, ?_⟩
    · rw [HashTable.lookup, hashed, Option.bind_eq_bind, Option.bind_some, if_pos (List.isEmpty_iff.mpr null),
        Option.pure_def]
    · rw [entries, null]
      simp [liveBuckets]
  · obtain ⟨found, run, position⟩ :=
      lookupLoop_spec lawful isKey (valid.opened null) hashed (valid.hasEmpty lawful null)
    refine ⟨found, ?_, ?_⟩
    · rw [HashTable.lookup, hashed, Option.bind_eq_bind, Option.bind_some,
        if_neg (fun isNull => null (List.isEmpty_iff.mp isNull)), run]
    · rw [entries, ← has_iff_entries lawful isKey, Option.isSome_iff_exists]
      simp only [position]

end Tables

end HashTable

end WebNode.Wtf
