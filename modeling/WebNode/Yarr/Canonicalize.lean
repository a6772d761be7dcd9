import Mathlib.Data.Nat.Basic
import Mathlib.Tactic.Common
import WebNode.Yarr.Parser

/-!
# Canonical equivalence of code units

`YarrCanonicalizeUCS2.h`, over any table. A pointer into the table is the list of the entries from there on.
-/

namespace WebNode.Yarr

open WebNode.Yarr.Parser

inductive UCS2CanonicalizationType where
  | unique
  | set
  | rangeLo
  | rangeHi
  | alternatingAligned
  | alternatingUnaligned
  deriving DecidableEq, Repr

structure UCS2CanonicalizationRange where
  first : Nat
  last : Nat
  value : Nat
  type : UCS2CanonicalizationType
  deriving DecidableEq, Repr

/-- `rangeInfo` and `characterSetInfo`. -/
structure CanonicalizationTable where
  rangeInfo : List UCS2CanonicalizationRange
  characterSetInfo : List (List Nat)
  deriving DecidableEq, Repr

def toASCIIUpper (c : Nat) : Nat := if isASCIILower c then c - 0x20 else c

def toASCIILower (c : Nat) : Nat := if isASCIIUpper c then c + 0x20 else c

/-- `n | 1`. -/
def orOne (n : Int) : Int := 2 * (n / 2) + 1

/-- `n ^ 1`. -/
def xorOne (n : Int) : Int := if n % 2 = 0 then n + 1 else n - 1

/-- The loop of `rangeInfoFor`, with the number of rounds that it may take. -/
def searchRangeInfo (ch : Nat) : Nat → List UCS2CanonicalizationRange → Nat → List UCS2CanonicalizationRange
  | 0, _, _ => []
  | rounds + 1, info, entries =>
    let candidate := entries / 2
    match info.drop candidate with
    | [] => []
    | candidateInfo :: rest =>
      if ch < candidateInfo.first then searchRangeInfo ch rounds info candidate
      else if ch ≤ candidateInfo.last then candidateInfo :: rest
      else searchRangeInfo ch rounds rest (entries - (candidate + 1))

namespace CanonicalizationTable

variable (table : CanonicalizationTable)

def rangeInfoFor (ch : Nat) : List UCS2CanonicalizationRange :=
  searchRangeInfo ch table.rangeInfo.length table.rangeInfo table.rangeInfo.length

def characterSet (index : Nat) : List Nat := table.characterSetInfo.getD index []

/-- `areCanonicallyEquivalent`, once the entry of the first is known. -/
def equivalentIn (info : UCS2CanonicalizationRange) (a b : Nat) : Bool :=
  match info.type with
  | .unique => a = b
  | .set => b ∈ table.characterSet info.value
  | .rangeLo => a = b || a + info.value = b
  | .rangeHi => a = b || (a : Int) - info.value = b
  | .alternatingAligned => orOne a = orOne b
  | .alternatingUnaligned => orOne (a - 1) = orOne (b - 1)

def areCanonicallyEquivalent (a b : Nat) : Bool :=
  match table.rangeInfoFor a with
  | [] => false
  | info :: _ => table.equivalentIn info a b

end CanonicalizationTable

/-- The entries follow each other up to the last code unit. -/
def Consecutive (next : Nat) : List UCS2CanonicalizationRange → Prop
  | [] => next = 0x10000
  | info :: rest => info.first = next ∧ info.first ≤ info.last ∧ info.last ≤ 0xFFFF ∧ Consecutive (info.last + 1) rest

instance decidableConsecutive (next : Nat) :
    (entries : List UCS2CanonicalizationRange) → Decidable (Consecutive next entries)
  | [] => inferInstanceAs (Decidable (next = 0x10000))
  | info :: rest =>
    have := decidableConsecutive (info.last + 1) rest
    inferInstanceAs
      (Decidable (info.first = next ∧ info.first ≤ info.last ∧ info.last ≤ 0xFFFF ∧ Consecutive (info.last + 1) rest))

/-- Alternating pairs are whole. -/
def UCS2CanonicalizationRange.Paired (info : UCS2CanonicalizationRange) : Prop :=
  match info.type with
  | .rangeHi => info.value ≤ info.first
  | .alternatingAligned => info.first % 2 = 0 ∧ info.last % 2 = 1
  | .alternatingUnaligned => info.first % 2 = 1 ∧ info.last % 2 = 0
  | _ => True

/-- What the table is assumed to be: a partition into well-formed entries, whose relation is reflexive, relates only
code units, keeps ASCII apart and is there the equality of the upper case. -/
structure CanonicalizationTable.WellFormed (table : CanonicalizationTable) : Prop where
  consecutive : Consecutive 0 table.rangeInfo
  paired : ∀ info ∈ table.rangeInfo, info.Paired
  reflexive : ∀ a ≤ 0xFFFF, table.areCanonicallyEquivalent a a = true
  unit : ∀ a b, a ≤ 0xFFFF → table.areCanonicallyEquivalent a b = true → b ≤ 0xFFFF
  apart : ∀ a b, a ≤ 0xFFFF → table.areCanonicallyEquivalent a b = true → (a ≤ 0x7F ↔ b ≤ 0x7F)
  ascii : ∀ a b, a ≤ 0x7F → b ≤ 0x7F → (table.areCanonicallyEquivalent a b = true ↔ toASCIIUpper a = toASCIIUpper b)

section Search

variable {next ch : Nat} {info : UCS2CanonicalizationRange} {before after entries : List UCS2CanonicalizationRange}

theorem Consecutive.exists_entry (consecutive : Consecutive next entries) (low : next ≤ ch) (high : ch ≤ 0xFFFF) :
    ∃ before info after, entries = before ++ info :: after ∧ info.first ≤ ch ∧ ch ≤ info.last := by
  induction entries generalizing next with
  | nil =>
    rw [Consecutive] at consecutive
    omega
  | cons info rest ih =>
    obtain ⟨begins, -, -, others⟩ := consecutive
    rcases Nat.lt_or_ge info.last ch with beyond | inside
    · obtain ⟨before, found, after, rfl, holds⟩ := ih others beyond
      exact ⟨info :: before, found, after, rfl, holds⟩
    · exact ⟨[], info, rest, rfl, by omega, inside⟩

/-- What stands before an entry ends before it, and what stands behind it begins behind it. -/
theorem Consecutive.bounds (consecutive : Consecutive next (before ++ info :: after)) :
    (∀ entry ∈ before, entry.last < info.first) ∧ next ≤ info.first ∧ info.first ≤ info.last ∧
      Consecutive (info.last + 1) after := by
  induction before generalizing next with
  | nil =>
    obtain ⟨begins, nonempty, -, others⟩ := consecutive
    exact ⟨by simp, Nat.le_of_eq begins.symm, nonempty, others⟩
  | cons head rest ih =>
    obtain ⟨begins, nonempty, -, others⟩ := consecutive
    obtain ⟨earlier, later, remaining⟩ := ih others
    refine ⟨fun entry member => ?_, by omega, remaining⟩
    rcases List.mem_cons.mp member with rfl | member
    · omega
    · exact earlier entry member

theorem Consecutive.first_le (consecutive : Consecutive next entries) : ∀ entry ∈ entries, next ≤ entry.first := by
  intro entry member
  obtain ⟨before, after, rfl⟩ := List.append_of_mem member
  exact consecutive.bounds.2.1

theorem exists_split {α : Type} {list : List α} {index : Nat} (inside : index < list.length) :
    ∃ before element after, list = before ++ element :: after ∧ before.length = index := by
  refine ⟨list.take index, list[index], list.drop (index + 1), ?_, List.length_take_of_le (Nat.le_of_lt inside)⟩
  rw [← List.drop_eq_getElem_cons inside, List.take_append_drop]

/-- The search keeps the entry of the code unit among those that are left. -/
theorem searchRangeInfo_eq {rounds count : Nat} (consecutive : Consecutive next (before ++ info :: after))
    (holds : info.first ≤ ch ∧ ch ≤ info.last) (enough : count ≤ rounds) (inside : before.length < count)
    (fits : count ≤ (before ++ info :: after).length) :
    searchRangeInfo ch rounds (before ++ info :: after) count = info :: after := by
  induction rounds generalizing before count next with
  | zero => omega
  | succ rounds ih =>
    rw [List.length_append, List.length_cons] at fits
    rcases Nat.lt_trichotomy (count / 2) before.length with less | same | more
    · obtain ⟨left, candidate, right, rfl, length⟩ := exists_split less
      obtain ⟨earlier, -⟩ := consecutive.bounds
      rw [List.append_assoc, List.cons_append] at consecutive ⊢
      obtain ⟨-, -, nonempty, others⟩ := consecutive.bounds
      have below := earlier candidate (by simp)
      simp only [List.length_append, List.length_cons] at inside fits
      rw [searchRangeInfo, List.drop_left' length]
      dsimp only
      rw [if_neg (by omega), if_neg (by omega)]
      exact ih others (by omega) (by omega) (by rw [List.length_append, List.length_cons]; omega)
    · rw [searchRangeInfo, List.drop_left' same.symm]
      dsimp only
      rw [if_neg (by omega), if_pos holds.2]
    · obtain ⟨-, -, -, others⟩ := consecutive.bounds
      obtain ⟨left, candidate, right, rfl, length⟩ :=
        exists_split (show count / 2 - before.length - 1 < after.length by omega)
      have above := others.first_le candidate (by simp)
      have dropped : (before ++ info :: (left ++ candidate :: right)).drop (count / 2) = candidate :: right := by
        rw [show before ++ info :: (left ++ candidate :: right) = (before ++ info :: left) ++
          candidate :: right by simp]
        exact List.drop_left' (by simp only [List.length_append, List.length_cons]; omega)
      rw [searchRangeInfo, dropped]
      dsimp only
      rw [if_pos (by omega)]
      exact ih consecutive (by omega) more (by simp only [List.length_append, List.length_cons]; omega)

variable {table : CanonicalizationTable}

/-- `rangeInfoFor` finds the entry of a code unit. -/
theorem rangeInfoFor_eq (consecutive : Consecutive 0 table.rangeInfo)
    (entries : table.rangeInfo = before ++ info :: after) (holds : info.first ≤ ch ∧ ch ≤ info.last) :
    table.rangeInfoFor ch = info :: after := by
  rw [entries] at consecutive
  rw [CanonicalizationTable.rangeInfoFor, entries]
  exact searchRangeInfo_eq consecutive holds le_rfl (by simp) le_rfl

theorem equivalent_eq (consecutive : Consecutive 0 table.rangeInfo)
    (entries : table.rangeInfo = before ++ info :: after) (holds : info.first ≤ ch ∧ ch ≤ info.last) (b : Nat) :
    table.areCanonicallyEquivalent ch b = table.equivalentIn info ch b := by
  rw [CanonicalizationTable.areCanonicallyEquivalent, rangeInfoFor_eq consecutive entries holds]

theorem exists_rangeInfoFor (consecutive : Consecutive 0 table.rangeInfo) (high : ch ≤ 0xFFFF) :
    ∃ before info after, table.rangeInfoFor ch = info :: after ∧ table.rangeInfo = before ++ info :: after ∧
      info.first ≤ ch ∧ ch ≤ info.last := by
  obtain ⟨before, info, after, same, holds⟩ := consecutive.exists_entry (Nat.zero_le ch) high
  exact ⟨before, info, after, rangeInfoFor_eq consecutive same holds, same, holds⟩

end Search

/-- A table in which only the letters of ASCII have another case. -/
def letterTable : CanonicalizationTable where
  rangeInfo :=
    [⟨0x00, 0x40, 0, .unique⟩, ⟨0x41, 0x5A, 0x20, .rangeLo⟩, ⟨0x5B, 0x60, 0, .unique⟩, ⟨0x61, 0x7A, 0x20, .rangeHi⟩,
      ⟨0x7B, 0xFFFF, 0, .unique⟩]
  characterSetInfo := []

theorem letterTable_equivalent {a : Nat} (high : a ≤ 0xFFFF) (b : Nat) :
    letterTable.areCanonicallyEquivalent a b = true ↔
      a = b ∨ (0x41 ≤ a ∧ a ≤ 0x5A ∧ b = a + 0x20) ∨ (0x61 ≤ a ∧ a ≤ 0x7A ∧ b + 0x20 = a) := by
  have consecutive : Consecutive 0 letterTable.rangeInfo := by decide
  obtain ⟨before, info, after, -, entries, below, above⟩ := exists_rangeInfoFor consecutive high
  have member : info ∈ letterTable.rangeInfo := by simp [entries]
  rw [equivalent_eq consecutive entries ⟨below, above⟩, CanonicalizationTable.equivalentIn]
  simp only [letterTable, List.mem_cons, List.not_mem_nil, or_false] at member
  rcases member with rfl | rfl | rfl | rfl | rfl <;> simp only [Bool.or_eq_true, decide_eq_true_iff] at * <;> omega

/-- Letters are equal in upper case to themselves and to the other case. -/
theorem toASCIIUpper_eq_iff (x c : Nat) :
    toASCIIUpper x = toASCIIUpper c ↔
      x = c ∨ (0x41 ≤ x ∧ x ≤ 0x5A ∧ c = x + 0x20) ∨ (0x61 ≤ x ∧ x ≤ 0x7A ∧ c + 0x20 = x) := by
  simp only [toASCIIUpper, isASCIILower, code, Bool.and_eq_true, decide_eq_true_iff, show 'a'.toNat = 0x61 from rfl,
    show 'z'.toNat = 0x7A from rfl]
  split_ifs <;> omega

theorem letterTable_wellFormed : letterTable.WellFormed where
  consecutive := by decide
  paired := by
    intro info member
    simp only [letterTable, List.mem_cons, List.not_mem_nil, or_false] at member
    rcases member with rfl | rfl | rfl | rfl | rfl <;> simp [UCS2CanonicalizationRange.Paired]
  reflexive a high := (letterTable_equivalent high a).mpr (.inl rfl)
  unit a b high related := by
    have := (letterTable_equivalent high b).mp related
    omega
  apart a b high related := by
    have := (letterTable_equivalent high b).mp related
    omega
  ascii a b ascii _ := by rw [letterTable_equivalent (by omega), toASCIIUpper_eq_iff]

end WebNode.Yarr
