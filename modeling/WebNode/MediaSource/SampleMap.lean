import Mathlib.Algebra.BigOperators.Group.List.Basic
import Mathlib.Data.List.AList
import WebNode.Lib.CarefulRuns
import Mathlib.Algebra.Order.Ring.Int

/-!
# The samples of a track buffer

`SampleMap` keeps its samples in presentation order and in decode order. An insertion into a map that
has the key already is refused, which `addSample` does not look at.
-/

namespace WebNode.MediaSource

/-! ### Maps of samples -/

section Map

variable {κ σ : Type} [DecidableEq κ]

/-- `std::map::insert`: a key that is present keeps its value. -/
def insertNew (key : κ) (value : σ) (map : AList fun _ : κ => σ) : AList fun _ : κ => σ :=
  if key ∈ map then map else map.insert key value

/-- The values a map contains. -/
def values (map : AList fun _ : κ => σ) : List σ := map.entries.map Sigma.snd

variable {key : κ} {value : σ} {map : AList fun _ : κ => σ}

theorem mem_values : value ∈ values map ↔ ∃ key, map.lookup key = some value := by
  simp only [values, List.mem_map, ← Option.mem_def, AList.mem_lookup_iff]
  constructor
  · rintro ⟨⟨key, _⟩, member, rfl⟩
    exact ⟨key, member⟩
  · rintro ⟨key, member⟩
    exact ⟨⟨key, value⟩, member, rfl⟩

theorem values_insertNew (absent : key ∉ map) : values (insertNew key value map) = value :: values map := by
  rw [insertNew, if_neg absent, values, AList.entries_insert_of_notMem absent]
  rfl

theorem values_erase (present : map.lookup key = some value) : (values map).Perm (value :: values (map.erase key)) := by
  obtain ⟨found, before, behind, _, split, erased⟩ := List.exists_of_kerase
    (AList.mem_keys.mp (AList.lookup_isSome.mp (by rw [present]; rfl)))
  have same : found = value := by
    have member : (⟨key, found⟩ : Sigma fun _ : κ => σ) ∈ map.entries := by simp [split]
    exact Option.some.inj ((AList.mem_lookup_iff.mpr member).symm.trans present)
  rw [values, values, show (map.erase key).entries = _ from erased, split, same]
  simp

end Map

/-! ### The model -/

variable {Time : Type}

/-- A sample, which is known by its address. Times that compare equal are one time. -/
structure MediaSample (Time : Type) where
  address : Nat
  presentationTime : Time
  decodeTime : Time
  sizeInBytes : UInt64
  deriving DecidableEq

structure SampleMap (Time : Type) where
  presentationOrder : AList fun _ : Time => MediaSample Time
  decodeOrder : AList fun _ : Time × Time => MediaSample Time
  totalSize : UInt64

namespace SampleMap

def totalOf (samples : List (MediaSample Time)) : Nat := (samples.map fun sample => sample.sizeInBytes.toNat).sum

theorem totalOf_cons (sample : MediaSample Time) (samples : List (MediaSample Time)) :
    totalOf (sample :: samples) = sample.sizeInBytes.toNat + totalOf samples := by simp [totalOf]

variable [DecidableEq Time]

def empty : SampleMap Time := ⟨∅, ∅, 0⟩

def clear (_ : SampleMap Time) : SampleMap Time := ⟨∅, ∅, 0⟩

def addSample (map : SampleMap Time) (sample : MediaSample Time) : SampleMap Time where
  presentationOrder := insertNew sample.presentationTime sample map.presentationOrder
  decodeOrder := insertNew (sample.decodeTime, sample.presentationTime) sample map.decodeOrder
  totalSize := map.totalSize + sample.sizeInBytes

def removeSample (map : SampleMap Time) (sample : MediaSample Time) : SampleMap Time where
  presentationOrder := map.presentationOrder.erase sample.presentationTime
  decodeOrder := map.decodeOrder.erase (sample.decodeTime, sample.presentationTime)
  totalSize := map.totalSize - sample.sizeInBytes

def sizeInBytes (map : SampleMap Time) : Nat := map.totalSize.toNat

end SampleMap

inductive SampleOperation (Time : Type) where
  | addSample (sample : MediaSample Time)
  | removeSample (sample : MediaSample Time)
  | clear

namespace SampleMap

variable [DecidableEq Time] {map : SampleMap Time} {sample : MediaSample Time}

def step (map : SampleMap Time) : SampleOperation Time → SampleMap Time
  | .addSample sample => map.addSample sample
  | .removeSample sample => map.removeSample sample
  | .clear => map.clear

/-- Both orders contain the same samples, and the size is the sum of theirs. -/
structure Consistent (map : SampleMap Time) : Prop where
  same : ∀ sample, sample ∈ values map.presentationOrder ↔ sample ∈ values map.decodeOrder
  size : map.sizeInBytes = totalOf (values map.presentationOrder)

/-- Only a sample that is in the map is removed. -/
def Allows (map : SampleMap Time) : SampleOperation Time → Prop
  | .removeSample sample => sample ∈ values map.presentationOrder ∨ sample ∈ values map.decodeOrder
  | _ => True

/-- A sample that is added has a presentation time of its own and its size fits, or nothing changes. -/
def Fits (map : SampleMap Time) : SampleOperation Time → Prop
  | .addSample sample =>
    sample.presentationTime ∉ map.presentationOrder ∧ map.totalSize.toNat + sample.sizeInBytes.toNat < 2 ^ 64 ∨
      (sample.decodeTime, sample.presentationTime) ∈ map.decodeOrder ∧ sample.sizeInBytes = 0
  | _ => True

/-- The map itself is what says which samples can be removed. -/
def comparison (Time : Type) [DecidableEq Time] :
    Lib.Comparison (SampleMap Time) (SampleMap Time) (SampleOperation Time) where
  step map operation := some (map.step operation)
  specify := step
  right map _ := map.Consistent
  meets := Fits
  allowed := Allows

/-! ### The invariant -/

/-- The two orders find the same samples. -/
structure Paired (map : SampleMap Time) : Prop where
  presentation : ∀ time sample, map.presentationOrder.lookup time = some sample → sample.presentationTime = time
  decode : ∀ key sample, map.decodeOrder.lookup key = some sample → (sample.decodeTime, sample.presentationTime) = key
  same : ∀ sample, map.presentationOrder.lookup sample.presentationTime = some sample ↔
    map.decodeOrder.lookup (sample.decodeTime, sample.presentationTime) = some sample
  size : map.totalSize.toNat = totalOf (values map.presentationOrder)

theorem Paired.mem_presentation (paired : Paired map) :
    sample ∈ values map.presentationOrder ↔ map.presentationOrder.lookup sample.presentationTime = some sample := by
  rw [mem_values]
  refine ⟨fun ⟨time, found⟩ => ?_, fun found => ⟨_, found⟩⟩
  rw [paired.presentation time sample found]
  exact found

theorem Paired.mem_decode (paired : Paired map) :
    sample ∈ values map.decodeOrder ↔
      map.decodeOrder.lookup (sample.decodeTime, sample.presentationTime) = some sample := by
  rw [mem_values]
  refine ⟨fun ⟨key, found⟩ => ?_, fun found => ⟨_, found⟩⟩
  rw [paired.decode key sample found]
  exact found

theorem Paired.consistent (paired : Paired map) : Consistent map where
  same sample := by rw [paired.mem_presentation, paired.mem_decode, paired.same]
  size := paired.size

theorem Paired.empty : Paired (empty : SampleMap Time) where
  presentation time sample found := by simp [SampleMap.empty] at found
  decode key sample found := by simp [SampleMap.empty] at found
  same sample := by simp [SampleMap.empty]
  size := rfl

/-- A key of the decode order is one of a sample in presentation order. -/
theorem Paired.notMem_decode (paired : Paired map) {decodeTime presentationTime : Time}
    (absent : presentationTime ∉ map.presentationOrder) : (decodeTime, presentationTime) ∉ map.decodeOrder := by
  intro present
  obtain ⟨sample, found⟩ := Option.isSome_iff_exists.mp (AList.lookup_isSome.mpr present)
  obtain ⟨rfl, rfl⟩ := Prod.mk.inj (paired.decode _ sample found)
  exact absent (AList.lookup_isSome.mp (by rw [(paired.same sample).mpr found]; rfl))

theorem lookup_insertNew {κ σ : Type} [DecidableEq κ] {map : AList fun _ : κ => σ} {key : κ} {value : σ}
    (absent : key ∉ map) (other : κ) :
    (insertNew key value map).lookup other = if other = key then some value else map.lookup other := by
  rw [insertNew, if_neg absent]
  split
  · next same => rw [same, AList.lookup_insert]
  · next apart => rw [AList.lookup_insert_ne apart]

theorem lookup_erase_eq {κ σ : Type} [DecidableEq κ] {map : AList fun _ : κ => σ} (key other : κ) :
    (map.erase key).lookup other = if other = key then none else map.lookup other := by
  split
  · next same => rw [same, AList.lookup_erase]
  · next apart => rw [AList.lookup_erase_ne apart]

theorem Paired.add (paired : Paired map) (absent : sample.presentationTime ∉ map.presentationOrder)
    (fits : map.totalSize.toNat + sample.sizeInBytes.toNat < 2 ^ 64) : Paired (map.addSample sample) := by
  have absent' : (sample.decodeTime, sample.presentationTime) ∉ map.decodeOrder := paired.notMem_decode absent
  refine ⟨fun time other found => ?_, fun key other found => ?_, fun other => ?_, ?_⟩
  · rw [addSample, lookup_insertNew absent] at found
    split at found
    · next same => rw [← Option.some.inj found, same]
    · exact paired.presentation time other found
  · rw [addSample, lookup_insertNew absent'] at found
    split at found
    · next same => rw [← Option.some.inj found, same]
    · exact paired.decode key other found
  · rw [addSample, lookup_insertNew absent, lookup_insertNew absent']
    by_cases apart : other.presentationTime = sample.presentationTime
    · by_cases same : other.decodeTime = sample.decodeTime
      · simp [apart, same]
      · -- another sample with this presentation time would be in decode order too
        have missing := AList.lookup_eq_none.mpr (@Paired.notMem_decode _ _ _ paired other.decodeTime _ absent)
        rw [if_pos apart, if_neg (by simp [same]), apart, missing]
        refine ⟨fun found => ?_, nofun⟩
        rw [Option.some.inj found] at same
        exact absurd rfl same
    · rw [if_neg apart, if_neg (by simp [apart]), paired.same]
  · rw [addSample, values_insertNew absent, totalOf_cons, ← paired.size, UInt64.toNat_add, Nat.mod_eq_of_lt fits,
      Nat.add_comm]

theorem Paired.remove (paired : Paired map)
    (present : map.presentationOrder.lookup sample.presentationTime = some sample) :
    Paired (map.removeSample sample) := by
  refine ⟨fun time other found => ?_, fun key other found => ?_, fun other => ?_, ?_⟩
  · rw [removeSample, lookup_erase_eq] at found
    split at found
    · cases found
    · exact paired.presentation time other found
  · rw [removeSample, lookup_erase_eq] at found
    split at found
    · cases found
    · exact paired.decode key other found
  · rw [removeSample, lookup_erase_eq, lookup_erase_eq]
    by_cases apart : other.presentationTime = sample.presentationTime
    · by_cases same : other.decodeTime = sample.decodeTime
      · simp [apart, same]
      · rw [if_pos apart, if_neg (by simp [same]), ← paired.same, apart, present]
        refine ⟨nofun, fun found => ?_⟩
        rw [Option.some.inj found] at same
        exact absurd rfl same
    · rw [if_neg apart, if_neg (by simp [apart]), paired.same]
  · have sum : totalOf (values map.presentationOrder) =
        sample.sizeInBytes.toNat + totalOf (values (map.presentationOrder.erase sample.presentationTime)) := by
      rw [← totalOf_cons]
      exact ((values_erase present).map _).sum_eq
    rw [removeSample,
      UInt64.toNat_sub_of_le _ _
        (UInt64.le_iff_toNat_le.mpr (by rw [paired.size, sum]; exact Nat.le_add_right ..)), paired.size, sum,
          Nat.add_sub_cancel_left]

/-- A sample whose keys are both taken changes the size only. -/
theorem addSample_of_present (present : sample.presentationTime ∈ map.presentationOrder)
    (found : (sample.decodeTime, sample.presentationTime) ∈ map.decodeOrder) :
    map.addSample sample = { map with totalSize := map.totalSize + sample.sizeInBytes } := by
  rw [addSample, insertNew, if_pos present, insertNew, if_pos found]

theorem Paired.mem_presentationOrder (paired : Paired map) {decodeTime presentationTime : Time}
    (found : (decodeTime, presentationTime) ∈ map.decodeOrder) : presentationTime ∈ map.presentationOrder := by
  by_contra absent
  exact paired.notMem_decode absent found

theorem sound : (comparison Time).Sound fun map abstract => map = abstract ∧ Paired map where
  right _ _ holds := holds.2.consistent
  keeps := by
    rintro map _ operation ⟨rfl, paired⟩ allowed meets
    refine ⟨_, rfl, rfl, ?_⟩
    cases operation with
    | addSample sample =>
      rcases meets with ⟨absent, fits⟩ | ⟨found, zero⟩
      · exact paired.add absent fits
      · rw [step, addSample_of_present (paired.mem_presentationOrder found) found, zero, UInt64.add_zero]
        exact paired
    | removeSample sample =>
      refine paired.remove ?_
      rcases allowed with member | member
      · exact paired.mem_presentation.mp member
      · exact (paired.same sample).mpr (paired.mem_decode.mp member)
    | clear => exact Paired.empty

/-- What goes wrong shows at once. -/
theorem Paired.fits_of_consistent (paired : Paired map) (consistent : Consistent (map.addSample sample)) :
    map.Fits (.addSample sample) := by
  have size := consistent.size
  by_cases present : sample.presentationTime ∈ map.presentationOrder
  · by_cases found : (sample.decodeTime, sample.presentationTime) ∈ map.decodeOrder
    · rw [addSample_of_present present found] at size
      refine .inr ⟨found, ?_⟩
      have same : map.totalSize + sample.sizeInBytes = map.totalSize :=
        UInt64.toNat_inj.mp (size.trans paired.size.symm)
      simpa using same
    · have stored : sample ∈ values (map.addSample sample).decodeOrder := by
        rw [addSample, values_insertNew found]
        exact List.mem_cons_self
      have missing : sample ∉ values (map.addSample sample).presentationOrder := by
        rw [addSample, insertNew, if_pos present, paired.mem_presentation, paired.same, AList.lookup_eq_none.mpr found]
        exact nofun
      exact absurd ((consistent.same sample).mpr stored) missing
  · refine .inl ⟨present, ?_⟩
    rw [addSample, values_insertNew present, totalOf_cons, ← paired.size] at size
    change (map.totalSize + sample.sizeInBytes).toNat = _ at size
    have bound := UInt64.toNat_lt (map.totalSize + sample.sizeInBytes)
    omega

/-- A run keeps both orders and the size consistent exactly if it adds no sample whose presentation time is
taken, unless that sample is refused by both orders and empty. -/
theorem samples_consistent_iff (operations : List (SampleOperation Time))
    (allowed : (comparison Time).Allowed empty operations) :
    (comparison Time).Follows empty empty operations ↔ (comparison Time).Careful empty operations := by
  refine sound.follows_iff ?_ ⟨rfl, Paired.empty⟩ allowed
  rintro map _ operation later ⟨rfl, paired⟩ _ fails stepped right
  obtain rfl := Option.some.inj stepped
  cases operation with
  | addSample sample => exact fails (paired.fits_of_consistent right)
  | removeSample sample => exact fails trivial
  | clear => exact fails trivial

/-- Two samples with one decode time, of which the first is removed. -/
theorem samples_consistent_iff_example : (comparison Nat).Follows empty empty
    [.addSample ⟨1, 10, 5, 100⟩, .addSample ⟨2, 11, 5, 50⟩, .removeSample ⟨1, 10, 5, 100⟩] := by
  refine (@samples_consistent_iff Nat _ [.addSample _, .addSample _, .removeSample _]
    ⟨trivial, trivial, .inl (by decide), trivial⟩).mpr ⟨.inl (by decide), ?_⟩
  rintro _ ⟨⟩
  exact ⟨.inl (by decide), fun _ _ => ⟨trivial, fun _ _ => trivial⟩⟩

/-- Two samples with one presentation time: the second is in decode order only, and counted. -/
theorem second_sample_in_one_order :
    ∃ map : SampleMap Nat, map = (empty.addSample ⟨1, 10, 5, 100⟩).addSample ⟨2, 10, 6, 50⟩ ∧
      ⟨2, 10, 6, 50⟩ ∉ values map.presentationOrder ∧ ⟨2, 10, 6, 50⟩ ∈ values map.decodeOrder ∧
      totalOf (values map.presentationOrder) = 100 ∧ map.sizeInBytes = 150 ∧ ¬Consistent map := by
  refine ⟨_, rfl, by decide, by decide, by decide, by decide, fun consistent => ?_⟩
  exact absurd consistent.size (by decide)

end SampleMap

end WebNode.MediaSource
