import WebNode.Ipc.TableDecoding

/-!
# Arguments round trip

The decoder returns the values that the encoder was given and stops behind the last one. Each
coder does if the coders of its parameters do.
-/

namespace WebNode.Ipc

open WebNode.Wtf

/-- What the coder writes for a legal value, it reads as the same value. -/
def RoundTrips {α : Type} (coder : ArgumentCoder α) (legal : α → Prop) (same : α → α → Prop) : Prop :=
  ∀ (encoder : ArgumentEncoder) (value : α), legal value → encoder.buffer <+: (coder.encode encoder value).buffer ∧
    ∀ decoder : ArgumentDecoder, (coder.encode encoder value).buffer <+: decoder.buffer →
      decoder.StandsAt encoder.buffer.length →
      ∃ value', coder.decode decoder = some (some value', decoder.moveTo (coder.encode encoder value).buffer.length) ∧
        same value value'

/-- What the encoder wrote on its way to the next state, the decoding reads, with such a result. -/
def Reads {α : Type} (encoder next : ArgumentEncoder) (decode : Decode α) (result : α → Prop) : Prop :=
  encoder.buffer <+: next.buffer ∧ ∀ decoder : ArgumentDecoder, next.buffer <+: decoder.buffer →
    decoder.StandsAt encoder.buffer.length →
    ∃ value, decode decoder = some (some value, decoder.moveTo next.buffer.length) ∧ result value

namespace Reads

variable {α β : Type} {encoder middle next : ArgumentEncoder} {decode : Decode α} {result : α → Prop}
    {result' : β → Prop}

theorem pure {value : α} (holds : result value) : Reads encoder encoder (Pure.pure value) result := by
  refine ⟨List.prefix_refl _, fun decoder _ stands => ⟨value, ?_, holds⟩⟩
  rw [stands.moveTo_self]
  rfl

theorem imp {decode' : Decode β} (reads : Reads encoder next decode result)
    (run : ∀ decoder final value, decode decoder = some (some value, final) → result value →
      ∃ value', decode' decoder = some (some value', final) ∧ result' value') : Reads encoder next decode' result' := by
  refine ⟨reads.1, fun decoder written stands => ?_⟩
  obtain ⟨value, decoded, holds⟩ := reads.2 decoder written stands
  exact run decoder _ value decoded holds

theorem map {f : α → β} (reads : Reads encoder next decode result) (holds : ∀ value, result value → result' (f value)) :
    Reads encoder next (decode >>= fun value => Pure.pure (f value)) result' :=
  reads.imp fun _ _ value run valueHolds =>
    ⟨f value, Decode.bind_eq_some_iff.mpr ⟨_, _, run, rfl⟩, holds value valueHolds⟩

theorem bind {rest : α → Decode β} (reads : Reads encoder middle decode result)
    (appended : middle.buffer <+: next.buffer)
    (restReads : ∀ value, result value → Reads middle next (rest value) result') :
    Reads encoder next (decode >>= rest) result' := by
  refine ⟨reads.1.trans appended, fun decoder written stands => ?_⟩
  obtain ⟨value, run, holds⟩ := reads.2 decoder (appended.trans written) stands
  obtain ⟨value', restRun, holds'⟩ :=
    (restReads value holds).2 (decoder.moveTo middle.buffer.length) written (stands.moveTo _)
  exact ⟨value', Decode.bind_eq_some_iff.mpr ⟨_, _, run, restRun⟩, holds'⟩

theorem andThen {value : α} {rest : α → Decode β} (reads : Reads encoder middle decode (value = ·))
    (restReads : Reads middle next (rest value) result') : Reads encoder next (decode >>= rest) result' :=
  reads.bind restReads.1 fun _ same => same ▸ restReads

section Data

variable {bytes : List UInt8} {log : Nat} (logLe : log ≤ 3)

include logLe

theorem data {size : Nat} (size_eq : size = bytes.length) :
    Reads encoder (encoder.encodeFixedLengthData bytes (2 ^ log)) (Decode.decodeFixedLengthData size (2 ^ log))
    (bytes = ·) :=
  ⟨List.prefix_append ..,
    fun _ written stands => ⟨_, decodeFixedLengthData_of_written logLe stands written size_eq, rfl⟩⟩

theorem require {count : Nat} (size_eq : count * 2 ^ log = bytes.length)
    (reads : Reads encoder (encoder.encodeFixedLengthData bytes (2 ^ log)) decode result) :
    Reads encoder (encoder.encodeFixedLengthData bytes (2 ^ log))
      (Decode.require (fun decoder => decoder.containsElements (2 ^ log) count) >>= fun _ => decode) result := by
  refine ⟨reads.1, fun decoder written stands => ?_⟩
  obtain ⟨value, run, holds⟩ := reads.2 decoder written stands
  have large := containsElements_of_written logLe stands written size_eq
  exact ⟨value, Decode.bind_eq_some_iff.mpr ⟨_, _, Decode.require_of_true large, run⟩, holds⟩

end Data

end Reads

theorem RoundTrips.weaken {α : Type} {coder : ArgumentCoder α} {legal legal' : α → Prop} {same same' : α → α → Prop}
    (roundTrips : RoundTrips coder legal same) (legal_of : ∀ value, legal' value → legal value)
    (same_of : ∀ value value', same value value' → same' value value') : RoundTrips coder legal' same' :=
      fun encoder value isLegal =>
  Reads.imp (roundTrips encoder value (legal_of value isLegal)) fun _ _ value' run sameValue =>
    ⟨value', run, same_of value value' sameValue⟩

/-! ### Numbers -/

theorem Integer.size_eq (type : Integer) : ∃ log ≤ 3, type.size = 2 ^ log := by
  cases type
  · exact ⟨0, by decide, rfl⟩
  · exact ⟨1, by decide, rfl⟩
  · exact ⟨2, by decide, rfl⟩
  · exact ⟨3, by decide, rfl⟩
  · exact ⟨2, by decide, rfl⟩
  · exact ⟨3, by decide, rfl⟩

namespace Arithmetic

theorem size_eq (type : Arithmetic) : ∃ log ≤ 3, type.size = 2 ^ log := by
  cases type with
  | bool => exact ⟨0, by decide, rfl⟩
  | integer type => exact type.size_eq

@[simp]
theorem length_toBytes (type : Arithmetic) (value : type.Value) : (type.toBytes value).length = type.size := by
  cases type with
  | bool => rfl
  | integer type => simp [toBytes, size]

theorem ofBytes_toBytes (type : Arithmetic) (value : type.Value) : type.ofBytes (type.toBytes value) = value := by
  cases type with
  | bool => cases value <;> rfl
  | integer type =>
    have fits : value.toNat < 256 ^ type.size := by
      have bound := value.isLt
      rwa [Nat.pow_mul] at bound
    rw [toBytes, ofBytes, List.reverse_reverse, BigEndian.value_bytes fits, BitVec.ofNat_toNat, BitVec.setWidth_eq]

theorem elementsOf_flatMap (type : Arithmetic) (values : List type.Value) :
    elementsOf type values.length (values.flatMap type.toBytes) = values := by
  induction values with
  | nil => rfl
  | cons value rest ih =>
    have front : (type.toBytes value).length = type.size := type.length_toBytes value
    rw [List.length_cons, List.flatMap_cons, elementsOf, ← front, List.take_left, List.drop_left, ih, ofBytes_toBytes]

theorem length_flatMap (type : Arithmetic) (values : List type.Value) :
    (values.flatMap type.toBytes).length = values.length * type.size := by
  induction values with
  | nil => simp
  | cons value rest ih =>
    rw [List.flatMap_cons, List.length_append, length_toBytes, ih, List.length_cons, Nat.succ_mul, Nat.add_comm]

end Arithmetic

theorem Reads.arithmetic {encoder : ArgumentEncoder} (type : Arithmetic) (value : type.Value) :
    Reads encoder (encoder.encode type value) (Decode.decode type) (value = ·) := by
  obtain ⟨log, logLe, size_eq⟩ := type.size_eq
  rw [ArgumentEncoder.encode, Decode.decode, size_eq]
  refine (Reads.data logLe (by rw [Arithmetic.length_toBytes, size_eq])).map fun bytes written => ?_
  rw [← written, Arithmetic.ofBytes_toBytes]

theorem Reads.number {encoder : ArgumentEncoder} {type : Integer} {n : Nat} (fits : n < 2 ^ (8 * type.size)) :
    Reads encoder (encoder.encodeNumber type n) (Decode.decodeNumber type) (n = ·) := by
  refine (Reads.arithmetic (.integer type) (BitVec.ofNat (8 * type.size) n)).map fun value written => ?_
  rw [← written, BitVec.toNat_ofNat, Nat.mod_eq_of_lt fits]

theorem roundTrips_arithmetic (type : Arithmetic) : RoundTrips (.arithmetic type) (fun _ => True) Eq := fun _ value _ =>
  Reads.arithmetic type value

/-! ### Strings -/

theorem roundTrips_cString : RoundTrips .cString (fun _ => True) Eq := by
  intro encoder value _
  cases value with
  | none =>
    refine (Reads.number (show 2 ^ 32 - 1 < 2 ^ (8 * 4) by decide)).andThen ?_
    rw [if_pos rfl]
    exact .pure rfl
  | some string =>
    obtain ⟨characters, bounded⟩ := string
    refine (Reads.number (show characters.length < 2 ^ (8 * 4) by omega)).andThen ?_
    rw [if_neg (by omega)]
    refine Reads.require (by decide : 0 ≤ 3) (Nat.mul_one _) ?_
    rw [if_pos bounded]
    refine (Reads.data (by decide : 0 ≤ 3) rfl).andThen ?_
    rw [dif_pos bounded]
    exact .pure rfl

theorem roundTrips_string : RoundTrips .string (fun _ => True) Eq := by
  intro encoder value _
  cases value with
  | none =>
    refine (Reads.number (show 2 ^ 32 - 1 < 2 ^ (8 * 4) by decide)).andThen ?_
    rw [if_pos rfl]
    exact .pure rfl
  | some string =>
    cases string with
    | latin characters bounded =>
      refine (Reads.number (show characters.length < 2 ^ (8 * 4) by omega)).andThen ?_
      rw [if_neg (by omega)]
      refine (Reads.arithmetic .bool true).andThen ?_
      rw [if_pos rfl]
      refine Reads.require (by decide : 0 ≤ 3) (Nat.mul_one _) ?_
      rw [if_pos bounded]
      refine (Reads.data (by decide : 0 ≤ 3) rfl).andThen ?_
      rw [dif_pos bounded]
      exact .pure rfl
    | wide characters nonempty bounded =>
      have size_eq := (Arithmetic.length_flatMap (.integer .uint16) characters).symm
      have elements : elementsOf (.integer .uint16) characters.length _ = characters :=
        Arithmetic.elementsOf_flatMap (.integer .uint16) characters
      refine (Reads.number (show characters.length < 2 ^ (8 * 4) by omega)).andThen ?_
      rw [if_neg (by omega)]
      refine (Reads.arithmetic .bool false).andThen ?_
      rw [if_neg (by decide)]
      refine Reads.require (by decide : 1 ≤ 3) size_eq ?_
      rw [if_pos bounded]
      refine (Reads.data (by decide : 1 ≤ 3) size_eq).andThen ?_
      rw [elements]
      exact (congrArg (Reads _ _ · _) ((dif_pos nonempty).trans (dif_pos bounded))).mpr (.pure rfl)

theorem roundTrips_byteArray : RoundTrips .byteArray (fun data => data.length < 2 ^ 64) Eq := fun _ _ fits =>
  (Reads.number fits).andThen (Reads.data (by decide : 0 ≤ 3) rfl)

/-! ### Templates -/

section Templates

variable {α β : Type} {coder : ArgumentCoder α} {legal : α → Prop} {same : α → α → Prop}
    (roundTrips : RoundTrips coder legal same)

include roundTrips

/-- The relation on optional values that are both missing or both there. -/
theorem roundTrips_optional : RoundTrips (.optional coder) (fun optional => ∀ value ∈ optional, legal value)
    (Option.Rel same) := by
  intro encoder optional allLegal
  cases optional with
  | none => exact (Reads.arithmetic .bool false).andThen (.pure .none)
  | some value =>
    have reads : Reads _ _ coder.decode (same value) :=
      roundTrips (encoder.encode .bool true) value (allLegal value rfl)
    exact (Reads.arithmetic .bool true).andThen (reads.map fun _ sameValue => .some sameValue)

theorem roundTrips_pair {second : ArgumentCoder β} {secondLegal : β → Prop} {secondSame : β → β → Prop}
    (secondRoundTrips : RoundTrips second secondLegal secondSame) :
    RoundTrips (.pair coder second) (fun pair => legal pair.1 ∧ secondLegal pair.2)
      (fun pair other => same pair.1 other.1 ∧ secondSame pair.2 other.2) := by
  intro encoder pair bothLegal
  have reads : Reads _ _ coder.decode (same pair.1) := roundTrips encoder pair.1 bothLegal.1
  have secondReads : Reads _ _ second.decode (secondSame pair.2) :=
    secondRoundTrips (coder.encode encoder pair.1) pair.2 bothLegal.2
  exact reads.bind secondReads.1 fun _ firstSame => secondReads.map fun _ sameValue => ⟨firstSame, sameValue⟩

/-- Elements that are written one after the other are read one after the other. -/
theorem decodeElements_of_written (values : List α) (allLegal : ∀ value ∈ values, legal value)
    (encoder : ArgumentEncoder) :
    Reads encoder (values.foldl coder.encode encoder) (ArgumentCoder.decodeElements coder values.length)
    (List.Forall₂ same values) := by
  induction values generalizing encoder with
  | nil => exact .pure .nil
  | cons value rest ih =>
    have reads : Reads _ _ coder.decode (same value) :=
      roundTrips encoder value (allLegal value (List.mem_cons_self ..))
    have restReads :=
      ih (fun other member => allLegal other (List.mem_cons_of_mem _ member)) (coder.encode encoder value)
    exact reads.bind restReads.1 fun _ sameValue => restReads.map fun _ sameRest => .cons sameValue sameRest

theorem roundTrips_vector :
    RoundTrips (.vector coder) (fun values => values.length < 2 ^ 64 ∧ ∀ value ∈ values, legal value)
    (List.Forall₂ same) := fun _ values ⟨fits, allLegal⟩ =>
  (Reads.number fits).andThen (decodeElements_of_written roundTrips values allLegal _)

end Templates

theorem roundTrips_arithmeticVector (type : Arithmetic) :
    RoundTrips (.arithmeticVector type) (fun values => values.length < 2 ^ 64) Eq := by
  intro encoder values fits
  refine (Reads.number fits).andThen ?_
  show Reads _ (ArgumentEncoder.encodeFixedLengthData _ (values.flatMap type.toBytes) type.size) _ _
  obtain ⟨log, logLe, size_eq⟩ := type.size_eq
  have length_eq := (Arithmetic.length_flatMap type values).symm
  have elements := Arithmetic.elementsOf_flatMap type values
  rw [size_eq] at length_eq ⊢
  refine Reads.require logLe length_eq ((Reads.data logLe length_eq).map fun bytes written => ?_)
  rw [← written, elements]

/-! ### Tables -/

theorem roundTrips_key (type : KeyType) : RoundTrips type.coder (fun _ => True) Eq := by
  induction type with
  | integer type => exact roundTrips_arithmetic (.integer type)
  | string => exact roundTrips_string
  | cString => exact roundTrips_cString
  | pair first second firstRoundTrips secondRoundTrips =>
    exact (roundTrips_pair firstRoundTrips secondRoundTrips).weaken (fun _ _ => ⟨trivial, trivial⟩)
      (fun _ _ same => Prod.ext same.1 same.2)

/-- A table that has room for its keys. No table can have more. -/
structure LegalTable {κ ν : Type} (traits : HashTraits κ) (table : HashTable κ ν) : Prop where
  listed : HashTable.Listed traits table
  room : table.keyCount < 2 ^ 29

/-- The tables have the same keys, with the same values. -/
def SameTable {κ ν : Type} (traits : HashTraits κ) (same : ν → ν → Prop) (table other : HashTable κ ν) : Prop :=
  ∃ entries, List.Forall₂ (fun entry entry' => entry.1 = entry'.1 ∧ same entry.2 entry'.2)
    (table.entries traits) entries ∧
    (other.entries traits).Perm entries

section Tables

variable {κ ν : Type} [Inhabited ν] {traits : HashTraits κ} (lawful : traits.Lawful)

omit [Inhabited ν] in
theorem keys_of_map_eq {entries others : List (κ × ν)} (keys : HashTable.Keys traits entries)
    (keys_eq : others.map Prod.fst = entries.map Prod.fst) : HashTable.Keys traits others where
  isKey entry member := by
    have there : entry.1 ∈ entries.map Prod.fst := keys_eq ▸ List.mem_map_of_mem member
    obtain ⟨original, originalMember, original_eq⟩ := List.mem_map.mp there
    exact original_eq ▸ keys.isKey original originalMember
  distinct := by
    have distinct := keys.distinct
    rw [← List.pairwise_map (f := Prod.fst) (R := fun key other => traits.equal key other = false)] at distinct ⊢
    exact keys_eq ▸ distinct

include lawful in
/-- The keys of a table can be added to an empty one. -/
theorem exists_addAll_empty {table : HashTable κ ν} (legal : LegalTable traits table) {entries : List (κ × ν)}
    (keys_eq : entries.map Prod.fst = (table.entries traits).map Prod.fst) :
    ∃ decoded, addAll traits .empty entries = some decoded ∧ (decoded.entries traits).Perm entries := by
  have none_yet : HashTable.entries traits .empty = ([] : List (κ × ν)) := rfl
  have keys := keys_of_map_eq legal.listed.keys keys_eq
  have length_eq : entries.length = table.keyCount := by
    rw [legal.listed.keyCount, ← List.length_map Prod.fst, keys_eq, List.length_map]
  have room :
      (entries.length + (HashTable.empty : HashTable κ ν).keyCount +
        (HashTable.empty : HashTable κ ν).deletedCount) * 2 < 2 ^ 30 := by
    show (entries.length + 0 + 0) * 2 < 2 ^ 30
    have bound := legal.room
    omega
  obtain ⟨decoded, added⟩ := exists_addAll lawful HashTable.valid_empty (by rwa [none_yet, List.append_nil]) room
  refine ⟨decoded, added, ?_⟩
  have live : ∀ entry ∈ entries, HashTable.Live traits entry := fun entry member =>
    HashTable.live_iff.mpr ⟨(keys.isKey entry member).notEmpty, (keys.isKey entry member).notDeleted⟩
  have perm := (valid_addAll lawful HashTable.valid_empty live added).2
  rwa [none_yet, List.append_nil] at perm

variable {keyCoder : ArgumentCoder κ} (keyRoundTrips : RoundTrips keyCoder (fun _ => True) Eq)

include lawful keyRoundTrips

theorem roundTrips_hashMap {valueCoder : ArgumentCoder ν} {legal : ν → Prop} {same : ν → ν → Prop}
    (valueRoundTrips : RoundTrips valueCoder legal same) :
    RoundTrips (.hashMap traits keyCoder valueCoder)
      (fun table => LegalTable traits table ∧ ∀ entry ∈ table.entries traits, legal entry.2)
      (SameTable traits same) := by
  intro encoder table ⟨legalTable, valuesLegal⟩
  have reads := decodeElements_of_written (roundTrips_pair keyRoundTrips valueRoundTrips) (table.entries traits)
    (fun entry member => ⟨trivial, valuesLegal entry member⟩) (encoder.encodeNumber .uint64 table.keyCount)
  rw [← legalTable.listed.keyCount] at reads
  refine (Reads.number (Nat.lt_trans legalTable.room (by decide))).andThen
    (reads.imp fun _ _ entries run sameEntries => ?_)
  have keys_eq : entries.map Prod.fst = (table.entries traits).map Prod.fst := by
    rw [← List.forall₂_eq_eq_eq, List.forall₂_map_left_iff, List.forall₂_map_right_iff]
    exact sameEntries.flip.imp fun _ _ sameEntry => sameEntry.1.symm
  obtain ⟨decoded, added, perm⟩ := exists_addAll_empty lawful legalTable keys_eq
  exact ⟨decoded, decodeEntries_eq_some_iff.mpr ⟨entries, run, added⟩, entries, sameEntries, perm⟩

theorem roundTrips_hashSet : RoundTrips (.hashSet traits keyCoder) (LegalTable traits) (SameTable traits Eq) := by
  intro encoder table legalTable
  have reads := decodeElements_of_written keyRoundTrips ((table.entries traits).map Prod.fst)
    (fun _ _ => trivial) (encoder.encodeNumber .uint64 table.keyCount)
  rw [List.length_map, ← legalTable.listed.keyCount] at reads
  refine (Reads.number (Nat.lt_trans legalTable.room (by decide))).andThen (reads.imp fun _ _ keys run sameKeys => ?_)
  rw [List.forall₂_eq_eq_eq] at sameKeys
  subst sameKeys
  have entries_eq : ((table.entries traits).map Prod.fst).map (·, ()) = table.entries traits := by
    rw [List.map_map]
    exact List.map_id _
  obtain ⟨decoded, added, perm⟩ := exists_addAll_empty lawful legalTable rfl
  rw [← entries_eq] at added
  refine ⟨decoded, decodeKeys_eq_some_iff.mpr ⟨_, run, added⟩, _, ?_, perm⟩
  exact List.forall₂_same.mpr fun _ _ => ⟨rfl, rfl⟩

end Tables

/-! ### Types -/

namespace ArgumentType

/-- Values that can exist: a size is a `size_t`, and tables are tables with legal keys. -/
def Legal (hashes : Hashes) : (type : ArgumentType) → type.Value → Prop
  | arithmetic _ => fun _ => True
  | string => fun _ => True
  | cString => fun _ => True
  | byteArray => fun data => data.length < 2 ^ 64
  | optional type => fun value => ∀ held ∈ value, type.Legal hashes held
  | pair first second => fun value => first.Legal hashes value.1 ∧ second.Legal hashes value.2
  | vector type => fun values => values.length < 2 ^ 64 ∧ ∀ value ∈ values, type.Legal hashes value
  | hashMap key value => fun table => LegalTable (key.traits hashes) table ∧
      ∀ entry ∈ table.entries (key.traits hashes), value.Legal hashes entry.2
  | hashSet key => fun table => LegalTable (key.traits hashes) table

/-- Equality of values, with tables as sets of keys or as maps. -/
def Same (hashes : Hashes) : (type : ArgumentType) → type.Value → type.Value → Prop
  | arithmetic _ => Eq
  | string => Eq
  | cString => Eq
  | byteArray => Eq
  | optional type => Option.Rel (type.Same hashes)
  | pair first second => fun value other => first.Same hashes value.1 other.1 ∧ second.Same hashes value.2 other.2
  | vector type => List.Forall₂ (type.Same hashes)
  | hashMap key value => SameTable (key.traits hashes) (value.Same hashes)
  | hashSet key => SameTable (key.traits hashes) Eq

theorem roundTrips (hashes : Hashes) (type : ArgumentType) :
    RoundTrips (type.coder hashes) (type.Legal hashes) (type.Same hashes) := by
  induction type with
  | arithmetic type => exact roundTrips_arithmetic type
  | string => exact roundTrips_string
  | cString => exact roundTrips_cString
  | byteArray => exact roundTrips_byteArray
  | optional type ih => exact roundTrips_optional ih
  | pair first second firstRoundTrips secondRoundTrips => exact roundTrips_pair firstRoundTrips secondRoundTrips
  | vector type ih =>
    cases type with
    | arithmetic type =>
      exact (roundTrips_arithmeticVector type).weaken (fun _ legal => legal.1)
        (fun values _ same => same ▸ List.forall₂_same.mpr fun _ _ => rfl)
    | _ => exact roundTrips_vector ih
  | hashMap key value ih => exact roundTrips_hashMap (key.lawful_traits hashes) (roundTrips_key key) ih
  | hashSet key => exact roundTrips_hashSet (key.lawful_traits hashes) (roundTrips_key key)

end ArgumentType

/-! ### Sequences of arguments -/

/-- A value with its type. -/
abbrev Argument := (type : ArgumentType) × type.Value

def encodeArguments (hashes : Hashes) (encoder : ArgumentEncoder) (arguments : List Argument) : ArgumentEncoder :=
  arguments.foldl (fun encoder argument => (argument.1.coder hashes).encode encoder argument.2) encoder

def decodeArguments (hashes : Hashes) : List ArgumentType → Decode (List Argument)
  | [] => return []
  | type :: rest => do
    let value ← (type.coder hashes).decode
    return ⟨type, value⟩ :: (← decodeArguments hashes rest)

/-- Equal values of one type. -/
inductive SameArgument (hashes : Hashes) : Argument → Argument → Prop where
  | intro {type : ArgumentType} {value value' : type.Value} (same : type.Same hashes value value') :
    SameArgument hashes ⟨type, value⟩ ⟨type, value'⟩

theorem decodeArguments_of_written (hashes : Hashes) (arguments : List Argument)
    (legal : ∀ argument ∈ arguments, argument.1.Legal hashes argument.2) (encoder : ArgumentEncoder) :
    Reads encoder (encodeArguments hashes encoder arguments) (decodeArguments hashes (arguments.map Sigma.fst))
      (List.Forall₂ (SameArgument hashes) arguments) := by
  induction arguments generalizing encoder with
  | nil => exact .pure .nil
  | cons argument rest ih =>
    have reads : Reads _ _ (argument.1.coder hashes).decode (argument.1.Same hashes argument.2) :=
      argument.1.roundTrips hashes encoder argument.2 (legal argument (List.mem_cons_self ..))
    have restReads := ih (fun other member => legal other (List.mem_cons_of_mem _ member))
      ((argument.1.coder hashes).encode encoder argument.2)
    exact reads.bind restReads.1 fun _ same => restReads.map fun _ sameRest => .cons (.intro same) sameRest

/-- Whatever was in the memory of the encoder's buffer, a decoder with an aligned copy returns the
arguments and stops at the end. -/
theorem arguments_roundTrip (hashes : Hashes) (memory : Nat → UInt8) (address : Nat) (arguments : List Argument)
    (legal : ∀ argument ∈ arguments, argument.1.Legal hashes argument.2) (aligned : 8 ∣ address)
    (inMemory : address + (encodeArguments hashes ⟨[], memory⟩ arguments).buffer.length < 2 ^ 64) :
    ∃ values final, decodeArguments hashes (arguments.map Sigma.fst)
        ⟨(encodeArguments hashes ⟨[], memory⟩ arguments).buffer, address, address⟩ = some (some values, final) ∧
      List.Forall₂ (SameArgument hashes) arguments values ∧ final.position = final.bufferEnd := by
  obtain ⟨_, decodes⟩ := decodeArguments_of_written hashes arguments legal ⟨[], memory⟩
  obtain ⟨values, run, same⟩ := decodes ⟨(encodeArguments hashes ⟨[], memory⟩ arguments).buffer, address, address⟩
    (List.prefix_refl _) ⟨rfl, aligned, inMemory⟩
  exact ⟨values, _, run, same, rfl⟩

theorem arguments_roundTrip_set : ∃ values final,
    decodeArguments .constant [.arithmetic .bool, .optional (.vector .string), .hashSet (.integer .uint32)]
      ⟨(encodeArguments .constant ⟨[], fun _ => 170⟩ [⟨.arithmetic .bool, true⟩,
        ⟨.optional (.vector .string), some [none]⟩,
        ⟨.hashSet (.integer .uint32), ⟨(5, ()) :: List.replicate 7 (0, ()), 1, 0⟩⟩]).buffer, 4096, 4096⟩ =
        some (some values, final) ∧
    List.Forall₂ (SameArgument .constant) [⟨.arithmetic .bool, true⟩, ⟨.optional (.vector .string), some [none]⟩,
      ⟨.hashSet (.integer .uint32), ⟨(5, ()) :: List.replicate 7 (0, ()), 1, 0⟩⟩] values ∧
      final.position = final.bufferEnd := by
  refine arguments_roundTrip .constant
    (fun _ => 170) 4096 [⟨.arithmetic .bool, true⟩, ⟨.optional (.vector .string), some [none]⟩,
      ⟨.hashSet (.integer .uint32), ⟨(5, ()) :: List.replicate 7 (0, ()), 1, 0⟩⟩] ?_ (by decide) (by decide +kernel)
  intro argument member
  simp only [List.mem_cons, List.not_mem_nil, or_false] at member
  rcases member with rfl | rfl | rfl
  · exact trivial
  · intro held same
    cases same
    exact ⟨by decide, fun _ _ => trivial⟩
  · refine ⟨⟨⟨fun entry member => ?_, List.pairwise_singleton ..⟩, rfl⟩, by decide⟩
    obtain rfl := List.mem_singleton.mp member
    exact ⟨rfl, rfl, 0, rfl⟩

end WebNode.Ipc
