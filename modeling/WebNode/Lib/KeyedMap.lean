import Mathlib.Data.List.Perm.Basic

/-!
# Finite maps up to an equality of keys

A map gives the entry stored for a key. Keys that compare equal share an entry, which keeps the key
it was stored under.
-/

namespace WebNode.Lib

/-- The entry stored for each key. -/
def KeyedMap (κ ν : Type) := κ → Option (κ × ν)

namespace KeyedMap

variable {κ ν : Type}

def empty : KeyedMap κ ν := fun _ => none

/-- Keep the entries that do not meet the condition. -/
def discard (condition : κ × ν → Bool) (map : KeyedMap κ ν) : KeyedMap κ ν :=
  fun other => (map other).filter fun entry => !condition entry

variable (equal : κ → κ → Bool)

/-- Store an entry for a key that has none. -/
def insert (key : κ) (value : ν) (map : KeyedMap κ ν) : KeyedMap κ ν := fun other =>
  if equal key other then some ((map key).getD (key, value)) else map other

/-- Store a value, under the key of the entry that is there already. -/
def put (key : κ) (value : ν) (map : KeyedMap κ ν) : KeyedMap κ ν := fun other =>
  if equal key other then some (((map key).map Prod.fst).getD key, value) else map other

def erase (key : κ) (map : KeyedMap κ ν) : KeyedMap κ ν := fun other => if equal key other then none else map other

/-- The entries are those of the map. -/
def Represents (entries : List (κ × ν)) (map : KeyedMap κ ν) : Prop :=
  ∀ key entry, map key = some entry ↔ entry ∈ entries ∧ equal entry.1 key = true

/-- An equality of keys. -/
structure Equality : Prop where
  refl : ∀ key, equal key key = true
  symm : ∀ key other, equal key other = true → equal other key = true
  trans : ∀ key other third, equal key other = true → equal other third = true → equal key third = true

variable {equal} {entries : List (κ × ν)} {map : KeyedMap κ ν}

theorem represents_empty : Represents equal [] (empty : KeyedMap κ ν) :=
  fun _ _ => ⟨nofun, fun ⟨member, _⟩ => absurd member List.not_mem_nil⟩

theorem Represents.perm {others : List (κ × ν)} (represents : Represents equal entries map)
    (perm : others.Perm entries) :
    Represents equal others map := fun key entry => by rw [perm.mem_iff, represents key entry]

theorem Represents.isSome_iff (represents : Represents equal entries map) (key : κ) :
    (map key).isSome = true ↔ ∃ entry ∈ entries, equal entry.1 key = true := by
  rw [Option.isSome_iff_exists]
  exact exists_congr (represents key)

theorem Represents.eq_none_iff (represents : Represents equal entries map) (key : κ) :
    map key = none ↔ ∀ entry ∈ entries, equal entry.1 key = false := by
  rw [← Option.not_isSome_iff_eq_none, represents.isSome_iff]
  simp

theorem Represents.discard (represents : Represents equal entries map) (condition : κ × ν → Bool) :
    Represents equal (entries.filter fun entry => !condition entry) (map.discard condition) := by
  intro key entry
  rw [KeyedMap.discard, Option.filter_eq_some_iff, represents key entry, List.mem_filter, and_right_comm]

section Equality

variable (equality : Equality equal) {key : κ} {value : ν}

include equality

theorem Equality.eq_of_equal {other : κ} (same : equal key other = true) (third : κ) :
    equal key third = equal other third :=
  Bool.eq_iff_iff.mpr ⟨equality.trans _ _ _ (equality.symm _ _ same), equality.trans _ _ _ same⟩

theorem Represents.insert_new (represents : Represents equal entries map) (absent : map key = none) :
    Represents equal ((key, value) :: entries) (map.insert equal key value) := by
  intro other entry
  rw [insert, absent, Option.getD_none, List.mem_cons]
  split
  · next same =>
    have different : ¬(entry ∈ entries ∧ equal entry.1 other = true) := fun ⟨member, there⟩ => by
      have missing := (represents.eq_none_iff key).mp absent entry member
      rw [equality.trans _ _ _ there (equality.symm _ _ same)] at missing
      cases missing
    constructor
    · rintro ⟨⟩
      exact ⟨.inl rfl, same⟩
    · rintro ⟨rfl | member, there⟩
      · rfl
      · exact absurd ⟨member, there⟩ different
  · next different =>
    rw [represents other entry]
    refine ⟨fun ⟨member, there⟩ => ⟨.inr member, there⟩, ?_⟩
    rintro ⟨rfl | member, there⟩
    · exact absurd there different
    · exact ⟨member, there⟩

theorem Represents.insert_present {entry : κ × ν} (represents : Represents equal entries map)
    (present : map key = some entry) :
    map.insert equal key value = map := by
  funext other
  rw [insert, present, Option.getD_some]
  split
  · next same =>
    obtain ⟨member, here⟩ := (represents key entry).mp present
    exact ((represents other entry).mpr ⟨member, equality.trans _ _ _ here same⟩).symm
  · rfl

/-- No other entry has the key of the first. -/
theorem Represents.tail_ne {entry other : κ × ν}
    (distinct : (entry :: entries).Pairwise fun one another => equal one.1 another.1 = false) (member : other ∈ entries)
    (same : equal entry.1 key = true) : equal other.1 key = false := by
  refine Bool.eq_false_iff.mpr fun there => ?_
  have different := (List.pairwise_cons.mp distinct).1 other member
  rw [equality.trans _ _ _ same (equality.symm _ _ there)] at different
  cases different

theorem Represents.erase {entry : κ × ν} (represents : Represents equal (entry :: entries) map)
    (distinct : (entry :: entries).Pairwise fun one another => equal one.1 another.1 = false)
    (same : equal entry.1 key = true) :
    Represents equal entries (map.erase equal key) := by
  intro other found
  rw [KeyedMap.erase, ← equality.eq_of_equal same]
  split
  · next here =>
    refine ⟨nofun, fun ⟨member, there⟩ => ?_⟩
    rw [tail_ne equality distinct member here] at there
    cases there
  · next different =>
    rw [represents other found, List.mem_cons]
    refine ⟨?_, fun ⟨member, there⟩ => ⟨.inr member, there⟩⟩
    rintro ⟨rfl | member, there⟩
    · exact absurd there different
    · exact ⟨member, there⟩

theorem Represents.put_present {entry : κ × ν} (represents : Represents equal (entry :: entries) map)
    (distinct : (entry :: entries).Pairwise fun one another => equal one.1 another.1 = false)
    (same : equal entry.1 key = true) :
    Represents equal ((entry.1, value) :: entries) (map.put equal key value) := by
  intro other found
  rw [put, (represents key entry).mpr ⟨List.mem_cons_self, same⟩, ← equality.eq_of_equal same, List.mem_cons]
  split
  · next here =>
    constructor
    · rintro ⟨⟩
      exact ⟨.inl rfl, here⟩
    · rintro ⟨rfl | member, there⟩
      · rfl
      · rw [tail_ne equality distinct member here] at there
        cases there
  · next different =>
    rw [represents other found, List.mem_cons]
    constructor
    · rintro ⟨rfl | member, there⟩
      · exact absurd there different
      · exact ⟨.inr member, there⟩
    · rintro ⟨rfl | member, there⟩
      · exact absurd there different
      · exact ⟨.inr member, there⟩

omit equality in
theorem put_new (absent : map key = none) : map.put equal key value = map.insert equal key value := by
  funext other
  rw [put, insert, absent]
  rfl

end Equality

end KeyedMap

end WebNode.Lib
