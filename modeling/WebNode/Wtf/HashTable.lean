import Mathlib.Logic.Function.Basic
import Mathlib.Algebra.Order.Ring.Int

/-!
# The hash table of `wtf/HashTable.h`

Buckets hold raw keys, and the traits of the key type say which keys mark a bucket as empty or as
deleted. A search has no result where the code would not end, follows a null pointer or asks for a
table of more than 2^30 buckets.
-/

namespace WebNode.Wtf

/-- The traits and the hash functions of a key type. The hash of a key is missing if it cannot be
computed: the code dereferences the null string. -/
structure HashTraits (κ : Type) where
  emptyValue : κ
  isEmptyValue : κ → Bool
  isDeletedValue : κ → Bool
  hash : κ → Option UInt32
  equal : κ → κ → Bool
  safeToCompareToEmptyOrDeleted : Bool
  minimumTableSize : Nat

/-- `m_table` and `m_tableSize` are the buckets; there are none if the table is null. -/
structure HashTable (κ ν : Type) where
  buckets : List (κ × ν)
  keyCount : Nat
  deletedCount : Nat
  deriving DecidableEq

def doubleHash (key : UInt32) : UInt32 :=
  let key := ~~~key + (key >>> 23)
  let key := key ^^^ (key <<< 12)
  let key := key ^^^ (key >>> 7)
  let key := key ^^^ (key <<< 2)
  key ^^^ (key >>> 20)

namespace HashTable

variable {κ ν : Type} [Inhabited ν] (traits : HashTraits κ)

def empty : HashTable κ ν := ⟨[], 0, 0⟩

def emptyBucket : κ × ν := (traits.emptyValue, default)

def bucketAt (buckets : List (κ × ν)) (i : Nat) : κ × ν := buckets.getD i (emptyBucket traits)

omit [Inhabited ν] in
def isEmptyOrDeletedBucket (bucket : κ × ν) : Bool :=
  traits.isEmptyValue bucket.1 || traits.isDeletedValue bucket.1

omit [Inhabited ν] in
/-- The buckets that iteration and `rehash` do not skip. -/
def liveBuckets (buckets : List (κ × ν)) : List (κ × ν) :=
  buckets.filter fun bucket => !isEmptyOrDeletedBucket traits bucket

omit [Inhabited ν] in
/-- The keys and values that iteration meets. -/
def entries (table : HashTable κ ν) : List (κ × ν) := liveBuckets traits table.buckets

def firstPosition (size : Nat) (h : UInt32) : Nat := h.toNat &&& (size - 1)

def nextPosition (size : Nat) (h : UInt32) (i : Nat) : Nat := (i + (1 ||| doubleHash h).toNat) % 2 ^ 32 &&& (size - 1)

section Search

variable (buckets : List (κ × ν)) (key : κ) (h : UInt32)

def lookupLoop : Nat → Nat → Option (Option Nat)
  | 0, _ => none
  | fuel + 1, i =>
    let entry := (bucketAt traits buckets i).1
    if traits.safeToCompareToEmptyOrDeleted then
      if traits.equal entry key then some (some i)
      else if traits.isEmptyValue entry then some none
      else lookupLoop fuel (nextPosition buckets.length h i)
    else
      if traits.isEmptyValue entry then some none
      else if !traits.isDeletedValue entry && traits.equal entry key then some (some i)
      else lookupLoop fuel (nextPosition buckets.length h i)

/-- The loop of `lookupForWriting` and of `add`: a position, and whether the key is there. -/
def lookupForWritingLoop : Nat → Nat → Option Nat → Option (Nat × Bool)
  | 0, _, _ => none
  | fuel + 1, i, deletedEntry =>
    let entry := (bucketAt traits buckets i).1
    if traits.safeToCompareToEmptyOrDeleted then
      if traits.isEmptyValue entry then some (deletedEntry.getD i, false)
      else if traits.equal entry key then some (i, true)
      else lookupForWritingLoop fuel (nextPosition buckets.length h i)
        (if traits.isDeletedValue entry then some i else deletedEntry)
    else
      if traits.isEmptyValue entry then some (deletedEntry.getD i, false)
      else if traits.isDeletedValue entry then
        lookupForWritingLoop fuel (nextPosition buckets.length h i) (some i)
      else if traits.equal entry key then some (i, true)
      else lookupForWritingLoop fuel (nextPosition buckets.length h i) deletedEntry

end Search

def lookup (table : HashTable κ ν) (key : κ) : Option (Option Nat) := do
  let h ← traits.hash key
  if table.buckets.isEmpty then return none
  lookupLoop traits table.buckets key h table.buckets.length (firstPosition table.buckets.length h)

def lookupForWriting (buckets : List (κ × ν)) (key : κ) : Option (Nat × Bool) := do
  let h ← traits.hash key
  lookupForWritingLoop traits buckets key h buckets.length (firstPosition buckets.length h) none

def reinsert (buckets : List (κ × ν)) (entry : κ × ν) : Option (List (κ × ν)) := do
  let (newEntry, _) ← lookupForWriting traits buckets entry.1
  return buckets.set newEntry entry

def rehash (table : HashTable κ ν) (newTableSize : Nat) : Option (HashTable κ ν) := do
  let buckets ← (table.entries traits).foldlM (reinsert traits) (List.replicate newTableSize (emptyBucket traits))
  return { table with buckets := buckets, deletedCount := 0 }

omit [Inhabited ν] in
/-- `(m_keyCount + m_deletedCount) * m_maxLoad >= m_tableSize` -/
def shouldExpand (table : HashTable κ ν) : Bool :=
  (table.keyCount + table.deletedCount) * 2 ≥ table.buckets.length

omit [Inhabited ν] in
/-- `m_keyCount * m_minLoad`, a product of two `int`s that wraps for more than 2^31 / 6 keys. -/
def minLoadProduct (table : HashTable κ ν) : Int := Int.bmod (table.keyCount * 6) (2 ^ 32)

omit [Inhabited ν] in
theorem minLoadProduct_eq {table : HashTable κ ν} (few : table.keyCount ≤ 2 ^ 28) :
    table.minLoadProduct = table.keyCount * 6 :=
  Int.bmod_eq_of_le (by omega) (by omega)

omit [Inhabited ν] in
/-- `m_keyCount * m_minLoad < m_tableSize * 2`, where twice the size is an `int` -/
def mustRehashInPlace (table : HashTable κ ν) : Bool := table.minLoadProduct < table.buckets.length * 2

/-- `expand`. Twice the size of a table of 2^30 buckets is not an `int`. -/
def expand (table : HashTable κ ν) : Option (HashTable κ ν) :=
  if table.buckets.length = 0 then table.rehash traits traits.minimumTableSize
  else if 2 ^ 31 ≤ table.buckets.length * 2 then none
  else if table.mustRehashInPlace then table.rehash traits table.buckets.length
  else table.rehash traits (table.buckets.length * 2)

/-- The part of `add` after a position was found for a new key. -/
def write (table : HashTable κ ν) (i : Nat) (key : κ) (value : ν) : HashTable κ ν where
  buckets := table.buckets.set i (key, value)
  keyCount := table.keyCount + 1
  deletedCount :=
    if traits.isDeletedValue (bucketAt traits table.buckets i).1 then table.deletedCount - 1 else table.deletedCount

/-- The part of `add` behind the check for a null table. -/
def addToTable (table : HashTable κ ν) (key : κ) (value : ν) : Option (Bool × HashTable κ ν) := do
  let (i, found) ← lookupForWriting traits table.buckets key
  if found then return (false, table)
  let table := table.write traits i key value
  if table.shouldExpand then return (true, ← table.expand traits)
  return (true, table)

/-- `add`, with `isNewEntry`. -/
def add (table : HashTable κ ν) (key : κ) (value : ν) : Option (Bool × HashTable κ ν) := do
  let table ← if table.buckets.isEmpty then table.expand traits else some table
  table.addToTable traits key value

end HashTable

end WebNode.Wtf
