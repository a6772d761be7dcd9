import Mathlib.Data.Int.Order.Basic
import Mathlib.Data.Nat.Basic
import WebNode.Lib.ThreeWay

/-!
# The order of IndexedDB keys

`IDBKey::compare` and `IDBKeyData::compare`, and the order of values that both implement.
-/

namespace WebNode.IndexedDb

open Lib

/-- A `double`, by its sign and its other bits. -/
structure Double where
  negative : Bool
  magnitude : Fin (2 ^ 63)
  deriving DecidableEq, Repr

namespace Double

def isNaN (number : Double) : Bool := number.magnitude.val > 0x7FF0000000000000

/-- The place of a number that is not a NaN; both zeros have the same. -/
def place (number : Double) : Int := if number.negative then -number.magnitude.val else number.magnitude.val

def less (first second : Double) : Bool := !first.isNaN && !second.isNaN && first.place < second.place

def equal (first second : Double) : Bool := !first.isNaN && !second.isNaN && first.place = second.place

end Double

/-- A `StringImpl*`. -/
inductive Text where
  | null
  | latin1 (units : List (Fin (2 ^ 8)))
  | utf16 (units : List (Fin (2 ^ 16)))
  deriving DecidableEq, Repr

namespace Text

def units : Text → List Nat
  | null => []
  | latin1 units => units.map Fin.val
  | utf16 units => units.map Fin.val

/-- The comparison of characters, where both strings have some left, and then of lengths. -/
def compareUnits : List Nat → List Nat → Int
  | first :: firsts, second :: seconds =>
    if first = second then compareUnits firsts seconds else if first > second then 1 else -1
  | firsts, seconds => if firsts.length = seconds.length then 0 else if firsts.length > seconds.length then 1 else -1

def codePointCompare : Text → Text → Int
  | null, second => if second.units.length ≠ 0 then -1 else 0
  | first, null => if first.units.length ≠ 0 then 1 else 0
  | utf16 firsts, latin1 seconds => -compareUnits (latin1 seconds).units (utf16 firsts).units
  | first, second => compareUnits first.units second.units

end Text

/-- `IDBKey::Type`. -/
inductive KeyType where
  | max
  | invalid
  | array
  | string
  | date
  | number
  | min
  deriving DecidableEq, Repr

def KeyType.toInt : KeyType → Int
  | max => -1
  | invalid => 0
  | array => 1
  | string => 2
  | date => 3
  | number => 4
  | min => 5

/-- The keys that the factory functions of `IDBKey` make. -/
inductive IDBKey where
  | invalid
  | array (keys : List IDBKey)
  | string (text : Text)
  | date (date : Double)
  | number (number : Double)

namespace IDBKey

def type : IDBKey → KeyType
  | invalid => .invalid
  | array _ => .array
  | string _ => .string
  | date _ => .date
  | number _ => .number

mutual

def isValid : IDBKey → Bool
  | invalid => false
  | array keys => allValid keys
  | _ => true

/-- The loop of `isValid`. -/
def allValid : List IDBKey → Bool
  | [] => true
  | key :: keys => if !key.isValid then false else allValid keys

end

mutual

def compare : IDBKey → IDBKey → Int
  | array keys, array otherKeys =>
    match compareElements keys otherKeys with
    | some result => result
    | none => if keys.length < otherKeys.length then -1 else if keys.length > otherKeys.length then 1 else 0
  | string text, string otherText => -Text.codePointCompare otherText text
  | date value, date otherValue | number value, number otherValue =>
    if value.less otherValue then -1 else if otherValue.less value then 1 else 0
  | key, other => if key.type ≠ other.type then if key.type.toInt > other.type.toInt then -1 else 1 else 0

/-- The first result of the loop that is not zero. -/
def compareElements : List IDBKey → List IDBKey → Option Int
  | key :: keys, other :: others =>
    let result := key.compare other
    if result ≠ 0 then some result else compareElements keys others
  | _, _ => none

end

end IDBKey

inductive IDBKeyData where
  | mk (type : KeyType) (arrayValue : List IDBKeyData) (stringValue : Text) (numberValue : Double) (isNull : Bool)

namespace IDBKeyData

def zero : Double := ⟨false, 0⟩

mutual

/-- The constructor from a key that is not null. -/
def ofKey : IDBKey → IDBKeyData
  | .invalid => mk .invalid [] .null zero false
  | .array keys => mk .array (ofKeys keys) .null zero false
  | .string text => mk .string [] text zero false
  | .date date => mk .date [] .null date false
  | .number number => mk .number [] .null number false

def ofKeys : List IDBKey → List IDBKeyData
  | [] => []
  | key :: keys => ofKey key :: ofKeys keys

end

mutual

def compare : IDBKeyData → IDBKeyData → Int
  | mk type arrayValue stringValue numberValue _, mk otherType otherArray otherString otherNumber _ =>
    if type = .invalid then if otherType ≠ .invalid then -1 else 0
    else if otherType = .invalid then 1
    else if type ≠ otherType then if type.toInt < otherType.toInt then 1 else -1
    else
      match type with
      | .array =>
        match compareElements arrayValue otherArray with
        | some result => result
        | none =>
          if arrayValue.length < otherArray.length then -1 else if arrayValue.length > otherArray.length then 1 else 0
      | .string => Text.codePointCompare stringValue otherString
      | .date | .number => if numberValue.equal otherNumber then 0 else if otherNumber.less numberValue then 1 else -1
      | .invalid | .max | .min => 0

/-- The first result of the loop that is not zero. -/
def compareElements : List IDBKeyData → List IDBKeyData → Option Int
  | data :: rest, other :: others =>
    let result := data.compare other
    if result ≠ 0 then some result else compareElements rest others
  | _, _ => none

end

end IDBKeyData

/-- What a valid key stands for: numbers and dates by their places, strings by their characters. -/
inductive Value where
  | number (place : Int)
  | date (place : Int)
  | string (units : List Nat)
  | array (elements : List Value)

namespace Value

def rank : Value → Int
  | number _ => 0
  | date _ => 1
  | string _ => 2
  | array _ => 3

mutual

/-- The order of values: by rank, and then by contents. -/
def compare : Value → Value → Int
  | number place, number other => threeWay place other
  | date place, date other => threeWay place other
  | string units, string others => lexicographic threeWay units others
  | array elements, array others => compareArrays elements others
  | first, second => threeWay first.rank second.rank

def compareArrays : List Value → List Value → Int
  | [], [] => 0
  | [], _ :: _ => -1
  | _ :: _, [] => 1
  | x :: xs, y :: ys => if compare x y ≠ 0 then compare x y else compareArrays xs ys

end

theorem compareArrays_eq (xs ys : List Value) : compareArrays xs ys = lexicographic compare xs ys := by
  induction xs generalizing ys with
  | nil => cases ys <;> simp only [compareArrays, lexicographic]
  | cons x xs ih =>
    cases ys with
    | nil => simp only [compareArrays, lexicographic]
    | cons y ys => simp only [compareArrays, lexicographic, ih]

theorem compare_of_rank {first second : Value} (differ : first.rank ≠ second.rank) :
    compare first second = threeWay first.rank second.rank := by
  cases first <;> cases second <;> first | exact absurd rfl differ | simp only [compare]

theorem rank_le {first second : Value} (nonpos : compare first second ≤ 0) : first.rank ≤ second.rank := by
  by_contra greater
  rw [compare_of_rank (by omega), threeWay, if_neg (by omega), if_pos (by omega)] at nonpos
  omega

/-- The laws hold if they hold among the values of one rank. -/
theorem lawful_of_rank {value : Value} (swap : ∀ y, y.rank = value.rank → compare y value = -compare value y)
    (zero : ∀ y, y.rank = value.rank → (compare value y = 0 ↔ value = y))
    (trans : ∀ y z, y.rank = value.rank → z.rank = value.rank → compare value y ≤ 0 → compare y z ≤ 0 →
      compare value z ≤ 0) :
    ThreeWay compare value := by
  refine ⟨fun y => ?_, fun y => ?_, fun y z first second => ?_⟩
  · by_cases same : y.rank = value.rank
    · exact swap y same
    · rw [compare_of_rank same, compare_of_rank (Ne.symm same)]
      exact (threeWay_lawful value.rank).swap y.rank
  · by_cases same : y.rank = value.rank
    · exact zero y same
    · rw [compare_of_rank (Ne.symm same), (threeWay_lawful value.rank).zero]
      exact iff_of_false (Ne.symm same) fun equal => same (equal ▸ rfl)
  · have firstLe := rank_le first
    have secondLe := rank_le second
    by_cases same : z.rank = value.rank
    · exact trans y z (by omega) same first second
    · rw [compare_of_rank (Ne.symm same), threeWay, if_pos (by omega)]
      decide

/-- The values of one rank inherit the laws of their contents. -/
theorem lawful_of_contents {α : Type} {wrap : α → Value} {compareContents : α → α → Int} {content : α}
    (injective : ∀ x y, wrap x = wrap y → x = y) (onto : ∀ y : Value, y.rank = (wrap content).rank → ∃ x, y = wrap x)
    (agrees : ∀ x y, compare (wrap x) (wrap y) = compareContents x y) (lawful : ThreeWay compareContents content) :
    ThreeWay compare (wrap content) := by
  refine lawful_of_rank (fun y same => ?_) (fun y same => ?_) fun y z same sameToo => ?_
  · obtain ⟨x, rfl⟩ := onto y same
    rw [agrees, agrees]
    exact lawful.swap x
  · obtain ⟨x, rfl⟩ := onto y same
    rw [agrees, lawful.zero]
    exact ⟨congrArg wrap, injective content x⟩
  · obtain ⟨x, rfl⟩ := onto y same
    obtain ⟨x', rfl⟩ := onto z sameToo
    rw [agrees, agrees, agrees]
    exact lawful.trans x x'

/-- Induction with the hypothesis for every element of an array. -/
theorem induction {motive : Value → Prop} (number : ∀ place, motive (number place))
    (date : ∀ place, motive (date place)) (string : ∀ units, motive (string units))
    (array : ∀ elements, (∀ element ∈ elements, motive element) → motive (array elements)) (value : Value) :
    motive value :=
  @Value.rec motive (fun elements => ∀ element ∈ elements, motive element) number date string array (by simp)
    (by simp +contextual) value

theorem lawful (value : Value) : ThreeWay compare value := by
  induction value using induction with
  | number place =>
    refine lawful_of_contents (by simp) (fun y same => ?_) (fun x y => by simp only [compare]) (threeWay_lawful place)
    cases y <;> simp_all [rank]
  | date place =>
    refine lawful_of_contents (by simp) (fun y same => ?_) (fun x y => by simp only [compare]) (threeWay_lawful place)
    cases y <;> simp_all [rank]
  | string units =>
    refine lawful_of_contents (by simp) (fun y same => ?_) (fun x y => by simp only [compare])
      (lexicographic_lawful fun unit _ => threeWay_lawful unit)
    cases y <;> simp_all [rank]
  | array elements ih =>
    refine lawful_of_contents (by simp) (fun y same => ?_) (fun x y => by simp only [compare, compareArrays_eq])
      (lexicographic_lawful ih)
    cases y <;> simp_all [rank]

end Value

section Contents

theorem Text.compareUnits_eq (firsts seconds : List Nat) :
    compareUnits firsts seconds = lexicographic threeWay firsts seconds := by
  induction firsts generalizing seconds with
  | nil => cases seconds <;> simp [compareUnits, lexicographic]
  | cons first firsts ih =>
    cases seconds with
    | nil => simp [compareUnits, lexicographic]
    | cons second seconds =>
      rw [compareUnits, lexicographic, ih, threeWay]
      rcases Nat.lt_trichotomy first second with less | rfl | greater
      · simp [less, less.ne, less.asymm]
      · simp
      · simp [greater, greater.ne', greater.asymm]

theorem Text.codePointCompare_eq (first second : Text) :
    codePointCompare first second = lexicographic threeWay first.units second.units := by
  have swap := fun xs ys : List Nat => (lexicographic_lawful fun unit (_ : unit ∈ xs) => threeWay_lawful unit).swap ys
  cases first with
  | null =>
    rw [codePointCompare, show null.units = [] from rfl]
    cases second.units <;> simp [lexicographic]
  | latin1 units => 
    cases second with
    | null =>
      rw [codePointCompare, show null.units = [] from rfl]
      · cases (latin1 units).units <;> simp [lexicographic]
      · simp
    | latin1 others => exact compareUnits_eq _ _
    | utf16 others => exact compareUnits_eq _ _
  | utf16 units =>
    cases second with
    | null =>
      rw [codePointCompare, show null.units = [] from rfl]
      · cases (utf16 units).units <;> simp [lexicographic]
      · simp
    | latin1 others => rw [codePointCompare, compareUnits_eq, ← swap]
    | utf16 others => exact compareUnits_eq _ _

theorem Double.less_eq {first second : Double} (proper : first.isNaN = false) (properToo : second.isNaN = false) :
    (if first.less second then -1 else if second.less first then 1 else 0 : Int) = threeWay first.place second.place ∧
      (if first.equal second then 0 else if second.less first then 1 else -1 : Int) =
      threeWay first.place second.place := by
  simp only [less, equal, threeWay, proper, properToo]
  rcases lt_trichotomy first.place second.place with less | same | greater
  · simp [less, less.ne, less.asymm]
  · simp [same]
  · simp [greater, greater.ne', greater.asymm]

end Contents

namespace IDBKey

mutual

/-- No number and no date in the key is a NaN. -/
def isProper : IDBKey → Bool
  | array keys => allProper keys
  | date value | number value => !value.isNaN
  | _ => true

def allProper : List IDBKey → Bool
  | [] => true
  | key :: keys => key.isProper && allProper keys

end

def Valid (key : IDBKey) : Prop := key.isValid = true ∧ key.isProper = true

mutual

/-- What a valid key stands for. -/
def value : IDBKey → Value
  | invalid => .array []
  | array keys => .array (values keys)
  | string text => .string text.units
  | date value => .date value.place
  | number value => .number value.place

def values : List IDBKey → List Value
  | [] => []
  | key :: keys => key.value :: values keys

end

theorem values_eq (keys : List IDBKey) : values keys = keys.map value := by
  induction keys with
  | nil => rfl
  | cons key keys ih => rw [values, ih, List.map_cons]

theorem not_valid_invalid : ¬ Valid invalid := by
  simp [Valid, isValid]

theorem valid_array {keys : List IDBKey} : Valid (array keys) ↔ ∀ key ∈ keys, Valid key := by
  have each : allValid keys = true ∧ allProper keys = true ↔ ∀ key ∈ keys, Valid key := by
    induction keys with
    | nil => simp [allValid, allProper]
    | cons key keys ih =>
      rw [allValid, allProper, List.forall_mem_cons, ← ih, Valid]
      cases key.isValid <;> cases key.isProper <;> simp
  rw [← each, Valid, isValid, isProper]

theorem induction {motive : IDBKey → Prop} (invalid : motive invalid)
    (array : ∀ keys, (∀ key ∈ keys, motive key) → motive (array keys)) (string : ∀ text, motive (string text))
    (date : ∀ value, motive (date value)) (number : ∀ value, motive (number value)) (key : IDBKey) : motive key :=
  @IDBKey.rec motive (fun keys => ∀ key ∈ keys, motive key) invalid array string date number (by simp)
    (by simp +contextual) key

/-- `IDBKey::compare` is the order of values. -/
theorem compare_eq {key other : IDBKey} (valid : Valid key) (validToo : Valid other) :
    compare key other = Value.compare key.value other.value := by
  induction key using induction generalizing other with
  | invalid => exact absurd valid not_valid_invalid
  | array keys ih =>
    cases other with
    | invalid => exact absurd validToo not_valid_invalid
    | array others =>
      rw [compare, value, value, Value.compare, Value.compareArrays_eq, values_eq, values_eq]
      refine lexicographic_of_loop compare compareElements value (fun _ => by simp only [compareElements])
        (fun xs => by cases xs <;> simp only [compareElements]) (fun x xs y ys => by simp only [compareElements]) ?_
      intro x member y memberToo
      exact ih x member (valid_array.mp valid x member) (valid_array.mp validToo y memberToo)
    | _ => simp [compare, value, Value.compare, type, KeyType.toInt, Value.rank, threeWay]
  | string text =>
    cases other with
    | invalid => exact absurd validToo not_valid_invalid
    | string otherText =>
      have swap := (lexicographic_lawful fun unit (_ : unit ∈ text.units) => threeWay_lawful unit).swap otherText.units
      simp only [compare, value, Value.compare, Text.codePointCompare_eq, swap, Int.neg_neg]
    | _ => simp [compare, value, Value.compare, type, KeyType.toInt, Value.rank, threeWay]
  | date number =>
    cases other with
    | invalid => exact absurd validToo not_valid_invalid
    | date otherNumber =>
      have proper := valid.2
      have properToo := validToo.2
      rw [isProper, Bool.not_eq_true'] at proper properToo
      rw [compare, value, value, Value.compare, (Double.less_eq proper properToo).1]
    | _ => simp [compare, value, Value.compare, type, KeyType.toInt, Value.rank, threeWay]
  | number number =>
    cases other with
    | invalid => exact absurd validToo not_valid_invalid
    | number otherNumber =>
      have proper := valid.2
      have properToo := validToo.2
      rw [isProper, Bool.not_eq_true'] at proper properToo
      rw [compare, value, value, Value.compare, (Double.less_eq proper properToo).1]
    | _ => simp [compare, value, Value.compare, type, KeyType.toInt, Value.rank, threeWay]

end IDBKey

namespace IDBKeyData

theorem ofKeys_eq (keys : List IDBKey) : ofKeys keys = keys.map ofKey := by
  induction keys with
  | nil => rfl
  | cons key keys ih => rw [ofKeys, ih, List.map_cons]

/-- `IDBKeyData::compare` is the order of values. -/
theorem compare_eq {key other : IDBKey} (valid : key.Valid) (validToo : other.Valid) :
    compare (ofKey key) (ofKey other) = Value.compare key.value other.value := by
  induction key using IDBKey.induction generalizing other with
  | invalid => exact absurd valid IDBKey.not_valid_invalid
  | array keys ih =>
    cases other with
    | invalid => exact absurd validToo IDBKey.not_valid_invalid
    | array others =>
      simp only [ofKey, compare, IDBKey.value, Value.compare, Value.compareArrays_eq, IDBKey.values_eq, ofKeys_eq,
        List.length_map, reduceCtorEq, if_false, ne_eq, not_true]
      refine lexicographic_of_loop (fun x y => compare (ofKey x) (ofKey y))
        (fun xs ys => compareElements (xs.map ofKey) (ys.map ofKey)) IDBKey.value
          (fun _ => by simp only [List.map_nil, compareElements])
        (fun xs => by cases xs <;> simp only [List.map_nil, List.map_cons, compareElements])
        (fun x xs y ys => by simp only [List.map_cons, compareElements]) ?_
      intro x member y memberToo
      exact ih x member (IDBKey.valid_array.mp valid x member) (IDBKey.valid_array.mp validToo y memberToo)
    | _ => simp [ofKey, compare, IDBKey.value, Value.compare, KeyType.toInt, Value.rank, threeWay]
  | string text =>
    cases other with
    | invalid => exact absurd validToo IDBKey.not_valid_invalid
    | string otherText => simp [ofKey, compare, IDBKey.value, Value.compare, Text.codePointCompare_eq]
    | _ => simp [ofKey, compare, IDBKey.value, Value.compare, KeyType.toInt, Value.rank, threeWay]
  | date number =>
    cases other with
    | invalid => exact absurd validToo IDBKey.not_valid_invalid
    | date otherNumber =>
      have proper := valid.2
      have properToo := validToo.2
      rw [IDBKey.isProper, Bool.not_eq_true'] at proper properToo
      simp only [ofKey, compare, IDBKey.value, Value.compare, ← (Double.less_eq proper properToo).2]
      rfl
    | _ => simp [ofKey, compare, IDBKey.value, Value.compare, KeyType.toInt, Value.rank, threeWay]
  | number number =>
    cases other with
    | invalid => exact absurd validToo IDBKey.not_valid_invalid
    | number otherNumber =>
      have proper := valid.2
      have properToo := validToo.2
      rw [IDBKey.isProper, Bool.not_eq_true'] at proper properToo
      simp only [ofKey, compare, IDBKey.value, Value.compare, ← (Double.less_eq proper properToo).2]
      rfl
    | _ => simp [ofKey, compare, IDBKey.value, Value.compare, KeyType.toInt, Value.rank, threeWay]

/-- Over valid keys, `IDBKeyData::compare` is a total order by rank and contents, and `IDBKey::compare` is the same. -/
theorem compare_total_order {a b c : IDBKey} (aValid : a.Valid) (bValid : b.Valid) (cValid : c.Valid) :
    compare (ofKey a) (ofKey a) = 0 ∧
      compare (ofKey b) (ofKey a) = -compare (ofKey a) (ofKey b) ∧
      (compare (ofKey a) (ofKey b) ≤ 0 ∨ compare (ofKey b) (ofKey a) ≤ 0) ∧
      (compare (ofKey a) (ofKey b) ≤ 0 → compare (ofKey b) (ofKey c) ≤ 0 → compare (ofKey a) (ofKey c) ≤ 0) ∧
      (compare (ofKey a) (ofKey b) = 0 ↔ a.value = b.value) ∧
      (b.value.rank < a.value.rank → compare (ofKey a) (ofKey b) = 1) ∧
      compare (ofKey a) (ofKey b) = IDBKey.compare a b := by
  have lawful := a.value.lawful
  have swap := lawful.swap b.value
  rw [compare_eq aValid aValid, compare_eq aValid bValid, compare_eq bValid aValid, compare_eq bValid cValid,
    compare_eq aValid cValid, IDBKey.compare_eq aValid bValid]
  refine ⟨(lawful.zero _).mpr rfl, swap, by omega, lawful.trans b.value c.value, lawful.zero b.value, ?_, rfl⟩
  intro below
  rw [Value.compare_of_rank below.ne', threeWay, if_neg below.asymm, if_pos below]

/-- A nested array is greater than a date. -/
theorem compare_total_order_nested : compare (ofKey (.array [.array []])) (ofKey (.date zero)) = 1 :=
  (compare_total_order (a := .array [.array []]) (b := .date zero) (c := .array [.array [], .date zero])
    ⟨by decide, by decide⟩ ⟨by decide, by decide⟩ ⟨by decide, by decide⟩).2.2.2.2.2.1 (by decide)

end IDBKeyData

end WebNode.IndexedDb
