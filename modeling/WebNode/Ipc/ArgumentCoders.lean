import WebNode.Ipc.ArgumentBuffer
import WebNode.Wtf.HashTable

/-!
# The coders of `ArgumentCoders.h` and `ArgumentCoders.cpp`

Every template is a function from the coders of its parameters to a coder. Numbers are copied as
they are in the memory of a little-endian machine.
-/

namespace WebNode.Ipc

open WebNode.Wtf

structure ArgumentCoder (α : Type) where
  encode : ArgumentEncoder → α → ArgumentEncoder
  decode : Decode α

/-! ### Numbers -/

inductive Integer where
  | uint8
  | uint16
  | uint32
  | uint64
  | int32
  | int64
  deriving DecidableEq, Repr

/-- `sizeof`, which is the alignment as well. -/
def Integer.size : Integer → Nat
  | uint8 => 1
  | uint16 => 2
  | uint32 => 4
  | uint64 => 8
  | int32 => 4
  | int64 => 8

abbrev Integer.Value (type : Integer) : Type := BitVec (8 * type.size)

/-- The types of `std::is_arithmetic`. -/
inductive Arithmetic where
  | bool
  | integer (type : Integer)
  deriving DecidableEq, Repr

namespace Arithmetic

def size : Arithmetic → Nat
  | bool => 1
  | integer type => type.size

abbrev Value : Arithmetic → Type
  | bool => Bool
  | integer type => type.Value

def toBytes : (type : Arithmetic) → type.Value → List UInt8
  | bool, value => [if value then 1 else 0]
  | integer type, value => (BigEndian.bytes type.size value.toNat).reverse

def ofBytes : (type : Arithmetic) → List UInt8 → type.Value
  | bool, bytes => BigEndian.value bytes.reverse != 0
  | integer type, bytes => BitVec.ofNat (8 * type.size) (BigEndian.value bytes.reverse)

end Arithmetic

def ArgumentEncoder.encode (encoder : ArgumentEncoder) (type : Arithmetic) (n : type.Value) : ArgumentEncoder :=
  encoder.encodeFixedLengthData (type.toBytes n) type.size

def ArgumentEncoder.encodeNumber (encoder : ArgumentEncoder) (type : Integer) (n : Nat) : ArgumentEncoder :=
  encoder.encode (.integer type) (BitVec.ofNat (8 * type.size) n)

namespace Decode

def decode (type : Arithmetic) : Decode type.Value := do
  return type.ofBytes (← decodeFixedLengthData type.size type.size)

def decodeNumber (type : Integer) : Decode Nat := do
  return (← decode (.integer type)).toNat

end Decode

/-- Values that stand one behind the other in memory. -/
def elementsOf (type : Arithmetic) : Nat → List UInt8 → List type.Value
  | 0, _ => []
  | count + 1, bytes => type.ofBytes (bytes.take type.size) :: elementsOf type count (bytes.drop type.size)

/-! ### Strings -/

/-- `StringImpl`: an empty string has 8-bit characters, and its length is limited by the memory
that a string with its header may take. -/
inductive StringImpl where
  | latin (characters : List UInt8) (bounded : characters.length ≤ 2 ^ 32 - 1 - 24)
  | wide (characters : List (BitVec 16)) (nonempty : characters ≠ [])
    (bounded : characters.length ≤ (2 ^ 32 - 1 - 24) / 2)

/-- `String`, which may be null. -/
abbrev WTFString := Option StringImpl

/-- The characters as UTF-16 code units. -/
def StringImpl.characters : StringImpl → List (BitVec 16)
  | latin characters _ => characters.map fun character => BitVec.ofNat 16 character.toNat
  | wide characters _ _ => characters

structure CStringBuffer where
  characters : List UInt8
  bounded : characters.length < 2 ^ 32 - 1 - 16

/-- `CString`, which may be null. -/
abbrev CString := Option CStringBuffer

namespace ArgumentCoder

variable {α β κ ν : Type}

def arithmetic (type : Arithmetic) : ArgumentCoder type.Value where
  encode encoder n := encoder.encode type n
  decode := Decode.decode type

def cString : ArgumentCoder CString where
  encode encoder
    | none => encoder.encodeNumber .uint32 (2 ^ 32 - 1)
    | some string => (encoder.encodeNumber .uint32 string.characters.length).encodeFixedLengthData string.characters 1
  decode := do
    let length ← Decode.decodeNumber .uint32
    if length = 2 ^ 32 - 1 then return none
    Decode.require fun decoder => decoder.containsElements 1 length
    if length < 2 ^ 32 - 1 - 16 then
      let characters ← Decode.decodeFixedLengthData length 1
      if bounded : characters.length < 2 ^ 32 - 1 - 16 then return some ⟨characters, bounded⟩
      else Decode.crash
    else Decode.crash

/-- `decodeStringText<LChar>` -/
def decodeLatinText (length : Nat) : Decode WTFString := do
  Decode.require fun decoder => decoder.containsElements 1 length
  if length ≤ 2 ^ 32 - 1 - 24 then
    let characters ← Decode.decodeFixedLengthData length 1
    if bounded : characters.length ≤ 2 ^ 32 - 1 - 24 then return some (.latin characters bounded)
    else Decode.crash
  else Decode.crash

/-- `decodeStringText<UChar>`. Without characters, the string is the empty one, of 8-bit
characters. -/
def decodeWideText (length : Nat) : Decode WTFString := do
  Decode.require fun decoder => decoder.containsElements 2 length
  if length ≤ (2 ^ 32 - 1 - 24) / 2 then
    let bytes ← Decode.decodeFixedLengthData (length * 2) 2
    let characters := elementsOf (.integer .uint16) length bytes
    if nonempty : characters ≠ [] then
      if bounded : characters.length ≤ (2 ^ 32 - 1 - 24) / 2 then return some (.wide characters nonempty bounded)
      else Decode.crash
    else return some (.latin [] (by decide))
  else Decode.crash

def string : ArgumentCoder WTFString where
  encode encoder
    | none => encoder.encodeNumber .uint32 (2 ^ 32 - 1)
    | some (.latin characters _) =>
      ((encoder.encodeNumber .uint32 characters.length).encode .bool true).encodeFixedLengthData characters 1
    | some (.wide characters _ _) =>
      ((encoder.encodeNumber .uint32 characters.length).encode .bool false).encodeFixedLengthData
        (characters.flatMap (Arithmetic.toBytes (.integer .uint16))) 2
  decode := do
    let length ← Decode.decodeNumber .uint32
    if length = 2 ^ 32 - 1 then return none
    let is8Bit ← Decode.decode .bool
    if is8Bit then decodeLatinText length else decodeWideText length

/-- `encodeVariableLengthByteArray` and `decodeVariableLengthByteArray` -/
def byteArray : ArgumentCoder (List UInt8) where
  encode encoder data := (encoder.encodeNumber .uint64 data.length).encodeFixedLengthData data 1
  decode := do
    let size ← Decode.decodeNumber .uint64
    Decode.decodeFixedLengthData size 1

/-! ### Templates -/

def optional (coder : ArgumentCoder α) : ArgumentCoder (Option α) where
  encode encoder
    | none => encoder.encode .bool false
    | some value => coder.encode (encoder.encode .bool true) value
  decode := do
    let isEngaged ← Decode.decode .bool
    if !isEngaged then return none
    return some (← coder.decode)

def pair (first : ArgumentCoder α) (second : ArgumentCoder β) : ArgumentCoder (α × β) where
  encode encoder pair := second.encode (first.encode encoder pair.1) pair.2
  decode := do
    let value ← first.decode
    return (value, ← second.decode)

/-- The loop over the elements of `VectorArgumentCoder<false>`. -/
def decodeElements (coder : ArgumentCoder α) : Nat → Decode (List α)
  | 0 => return []
  | count + 1 => do
    let element ← coder.decode
    return element :: (← decodeElements coder count)

/-- `VectorArgumentCoder<false>` -/
def vector (coder : ArgumentCoder α) : ArgumentCoder (List α) where
  encode encoder vector := vector.foldl coder.encode (encoder.encodeNumber .uint64 vector.length)
  decode := do
    let size ← Decode.decodeNumber .uint64
    decodeElements coder size

/-- `VectorArgumentCoder<true>` -/
def arithmeticVector (type : Arithmetic) : ArgumentCoder (List type.Value) where
  encode encoder vector :=
    (encoder.encodeNumber .uint64 vector.length).encodeFixedLengthData (vector.flatMap type.toBytes) type.size
  decode := do
    let size ← Decode.decodeNumber .uint64
    Decode.require fun decoder => decoder.containsElements type.size size
    return elementsOf type size (← Decode.decodeFixedLengthData (size * type.size) type.size)

/-- The table after an entry was added. It is an error if the key is there already. -/
def addEntry [Inhabited ν] (traits : HashTraits κ) (table : HashTable κ ν) (key : κ) (value : ν) :
    Decode (HashTable κ ν) :=
  match table.add traits key value with
  | none => Decode.crash
  | some (false, _) => Decode.invalid
  | some (true, table) => return table

/-- The loop of `ArgumentCoder<HashMap>::decode`. -/
def decodeEntries [Inhabited ν] (traits : HashTraits κ) (keyCoder : ArgumentCoder κ) (valueCoder : ArgumentCoder ν) :
    Nat → HashTable κ ν → Decode (HashTable κ ν)
  | 0, table => return table
  | count + 1, table => do
    let key ← keyCoder.decode
    let value ← valueCoder.decode
    decodeEntries traits keyCoder valueCoder count (← addEntry traits table key value)

def hashMap [Inhabited ν] (traits : HashTraits κ) (keyCoder : ArgumentCoder κ) (valueCoder : ArgumentCoder ν) :
    ArgumentCoder (HashTable κ ν) where
  encode encoder hashMap :=
    (hashMap.entries traits).foldl (pair keyCoder valueCoder).encode (encoder.encodeNumber .uint64 hashMap.keyCount)
  decode := do
    let hashMapSize ← Decode.decodeNumber .uint64
    decodeEntries traits keyCoder valueCoder hashMapSize .empty

/-- The loop of `ArgumentCoder<HashSet>::decode`. -/
def decodeKeys (traits : HashTraits κ) (keyCoder : ArgumentCoder κ) : Nat → HashTable κ Unit → Decode (HashTable κ Unit)
  | 0, table => return table
  | count + 1, table => do
    let key ← keyCoder.decode
    decodeKeys traits keyCoder count (← addEntry traits table key ())

def hashSet (traits : HashTraits κ) (keyCoder : ArgumentCoder κ) : ArgumentCoder (HashTable κ Unit) where
  encode encoder hashSet :=
    ((hashSet.entries traits).map Prod.fst).foldl keyCoder.encode (encoder.encodeNumber .uint64 hashSet.keyCount)
  decode := do
    let hashSetSize ← Decode.decodeNumber .uint64
    decodeKeys traits keyCoder hashSetSize .empty

end ArgumentCoder

/-! ### Keys -/

/-- The types of keys. -/
inductive KeyType where
  | integer (type : Integer)
  | string
  | cString
  | pair (first second : KeyType)
  deriving DecidableEq, Repr

/-- The hash functions of the key types. -/
structure Hashes where
  integer : (type : Integer) → type.Value → UInt32
  string : List (BitVec 16) → UInt32
  cString : List UInt8 → UInt32
  pair : UInt32 → UInt32 → UInt32

namespace KeyType

abbrev Value : KeyType → Type
  | integer type => type.Value
  | string => WTFString
  | cString => CString
  | pair first second => first.Value × second.Value

def coder : (type : KeyType) → ArgumentCoder type.Value
  | integer type => .arithmetic (.integer type)
  | string => .string
  | cString => .cString
  | pair first second => .pair first.coder second.coder

/-- `HashTraits` and `DefaultHash`. Zero and -1 are no keys, the null strings neither. The hash of
a null `String` follows the null pointer. -/
def traits (hashes : Hashes) : (type : KeyType) → HashTraits type.Value
  | integer type => {
      emptyValue := 0
      isEmptyValue := (· == 0)
      isDeletedValue := (· == -1)
      hash := fun key => some (hashes.integer type key)
      equal := (· == ·)
      safeToCompareToEmptyOrDeleted := true
      minimumTableSize := 8 }
  | string => {
      emptyValue := none
      isEmptyValue := Option.isNone
      isDeletedValue := fun _ => false
      hash := fun key => key.map fun string => hashes.string string.characters
      equal := fun key other => key.map StringImpl.characters == other.map StringImpl.characters
      safeToCompareToEmptyOrDeleted := false
      minimumTableSize := 8 }
  | cString => {
      emptyValue := none
      isEmptyValue := Option.isNone
      isDeletedValue := fun _ => false
      hash := fun key => some (key.elim 0 fun string => hashes.cString string.characters)
      equal := fun key other => key.map CStringBuffer.characters == other.map CStringBuffer.characters
      safeToCompareToEmptyOrDeleted := true
      minimumTableSize := 8 }
  | pair first second =>
    let firstTraits := first.traits hashes
    let secondTraits := second.traits hashes
    { emptyValue := (firstTraits.emptyValue, secondTraits.emptyValue)
      isEmptyValue := fun key => firstTraits.isEmptyValue key.1 && secondTraits.isEmptyValue key.2
      isDeletedValue := fun key => firstTraits.isDeletedValue key.1
      hash := fun key => do return hashes.pair (← firstTraits.hash key.1) (← secondTraits.hash key.2)
      equal := fun key other => firstTraits.equal key.1 other.1 && secondTraits.equal key.2 other.2
      safeToCompareToEmptyOrDeleted :=
        firstTraits.safeToCompareToEmptyOrDeleted && secondTraits.safeToCompareToEmptyOrDeleted
      minimumTableSize := firstTraits.minimumTableSize }

end KeyType

/-! ### Types -/

/-- The types that the generic coders support. -/
inductive ArgumentType where
  | arithmetic (type : Arithmetic)
  | string
  | cString
  | byteArray
  | optional (type : ArgumentType)
  | pair (first second : ArgumentType)
  | vector (type : ArgumentType)
  | hashMap (key : KeyType) (value : ArgumentType)
  | hashSet (key : KeyType)
  deriving DecidableEq, Repr

namespace ArgumentType

abbrev Value : ArgumentType → Type
  | arithmetic type => type.Value
  | string => WTFString
  | cString => CString
  | byteArray => List UInt8
  | optional type => Option type.Value
  | pair first second => first.Value × second.Value
  | vector type => List type.Value
  | hashMap key value => HashTable key.Value value.Value
  | hashSet key => HashTable key.Value Unit

/-- The value of an empty bucket. -/
def emptyValue : (type : ArgumentType) → type.Value
  | arithmetic .bool => false
  | arithmetic (.integer _) => 0
  | string => none
  | cString => none
  | byteArray => []
  | optional _ => none
  | pair first second => (first.emptyValue, second.emptyValue)
  | vector _ => []
  | hashMap _ _ => .empty
  | hashSet _ => .empty

instance (type : ArgumentType) : Inhabited type.Value := ⟨type.emptyValue⟩

/-- `ArgumentCoder<Vector>` chooses the coder by `std::is_arithmetic`. -/
def coder (hashes : Hashes) : (type : ArgumentType) → ArgumentCoder type.Value
  | arithmetic type => .arithmetic type
  | string => .string
  | cString => .cString
  | byteArray => .byteArray
  | optional type => .optional (type.coder hashes)
  | pair first second => .pair (first.coder hashes) (second.coder hashes)
  | vector (arithmetic type) => .arithmeticVector type
  | vector type => .vector (type.coder hashes)
  | hashMap key value => .hashMap (key.traits hashes) key.coder (value.coder hashes)
  | hashSet key => .hashSet (key.traits hashes) key.coder

end ArgumentType

end WebNode.Ipc
