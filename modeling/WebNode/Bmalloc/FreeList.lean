import WebNode.Bmalloc.LargeObject
import WebNode.Lib.Sweep

/-! The free lists of large objects, after `FreeList.cpp` and `SegregatedFreeList.cpp`.
Entries are not taken out when an object is merged or split, so that they can be stale
or there twice. -/
namespace WebNode.Bmalloc

open Sweep

def freeListSearchDepth : Nat := 16
def freeListGrowFactor : Nat := 2

/-- The tags of all chunks, by chunk number. -/
abbrev Memory := Nat → Tags

structure Range where
  begin : Nat
  size : Nat
  deriving DecidableEq, Repr

namespace LargeObject

/-- `LargeChunk::get` splits an address into its chunk and the position there. -/
def ofAddress (memory : Memory) (address : Nat) : LargeObject :=
  ofPosition (memory (address / largeChunkSize)) (address / largeChunkSize) (address % largeChunkSize)

def begin (object : LargeObject) : Nat := object.chunk * largeChunkSize + object.object

def tag (memory : Memory) (object : LargeObject) : BoundaryTag := memory object.chunk object.beginTag

def size (memory : Memory) (object : LargeObject) : Nat := (object.tag memory).size

/-- Write the tags of the chunk of an object. -/
def store (memory : Memory) (object : LargeObject) (tags : Tags) : Memory :=
  Function.update memory object.chunk tags

end LargeObject

/-- Whether an entry stands for a free object of the owner. -/
def isValidEntry (memory : Memory) (owner : Owner) (entry : Range) : Bool :=
  let object := LargeObject.ofAddress memory entry.begin
  object.isValidAndFree (memory object.chunk) owner entry.size

structure FreeList where
  vector : List Range
  limit : Nat

namespace FreeList

def init : FreeList := ⟨[], freeListSearchDepth⟩

/-- The loop of `takeGreedy`: every entry that it looks at is popped. -/
def takeGreedyLoop (memory : Memory) (owner : Owner) : List Range → Option LargeObject × List Range
  | [] => (none, [])
  | entry :: rest =>
    if isValidEntry memory owner entry then
      (some (LargeObject.ofAddress memory entry.begin), popHead (entry :: rest))
    else takeGreedyLoop memory owner (popHead (entry :: rest))
  termination_by vector => vector.length
  decreasing_by
    rw [length_popHead]
    exact Nat.lt_succ_self _

def takeGreedy (memory : Memory) (owner : Owner) (list : FreeList) : Option LargeObject × FreeList :=
  let (object, vector) := takeGreedyLoop memory owner list.vector
  (object, { list with vector := vector })

/-- A candidate with the index of its entry. Of two the one with the lower address is
better, of the same the later one. -/
def better (candidate : Option (LargeObject × Nat)) (object : LargeObject) (index : Nat) :
    Option (LargeObject × Nat) :=
  match candidate with
  | none => some (object, index)
  | some (best, bestIndex) => if best.begin < object.begin then some (best, bestIndex) else some (object, index)

/-- A visit of the loops that search for the best fit. -/
def consider (memory : Memory) (owner : Owner) (fits : LargeObject → Bool)
    (candidate : Option (LargeObject × Nat)) (index : Nat) (entry : Range) :
    Option (Option (LargeObject × Nat)) :=
  if isValidEntry memory owner entry then
    let object := LargeObject.ofAddress memory entry.begin
    some (if fits object then better candidate object index else candidate)
  else none

/-- The end of a search: the entry of the candidate is popped. -/
def popCandidate (list : FreeList) (vector : List Range) :
    Option (LargeObject × Nat) → Option LargeObject × FreeList
  | none => (none, { list with vector := vector })
  | some (object, index) => (some object, { list with vector := popAt vector index })

/-- The two `take` functions, which differ in what fits. They look at the last entries only. -/
def takeFitting (memory : Memory) (owner : Owner) (fits : LargeObject → Bool) (list : FreeList) :
    Option LargeObject × FreeList :=
  let begin := list.vector.length - freeListSearchDepth
  let (candidate, vector) :=
    sweep (consider memory owner fits) none (list.vector.take begin) (list.vector.drop begin)
  list.popCandidate vector candidate

def fitsSize (memory : Memory) (size : Nat) (object : LargeObject) : Bool := size ≤ object.size memory

def take (memory : Memory) (owner : Owner) (size : Nat) (list : FreeList) : Option LargeObject × FreeList :=
  list.takeFitting memory owner (fitsSize memory size)

/-- Whether an object has the alignment, or room for it. -/
def fitsAligned (memory : Memory) (alignment size unalignedSize : Nat) (object : LargeObject) : Bool :=
  size ≤ object.size memory &&
    !(object.begin &&& (alignment - 1) ≠ 0 && object.size memory < unalignedSize)

def takeAligned (memory : Memory) (owner : Owner) (alignment size unalignedSize : Nat) (list : FreeList) :
    Option LargeObject × FreeList :=
  list.takeFitting memory owner (fitsAligned memory alignment size unalignedSize)

def setMarked (memory : Memory) (object : LargeObject) (isMarked : Bool) : Memory :=
  object.store memory (object.setMarked (memory object.chunk) isMarked)

/-- A visit of the first loop of `removeInvalidAndDuplicateEntries`. -/
def unmark (owner : Owner) (memory : Memory) (_ : Nat) (entry : Range) : Option Memory :=
  if isValidEntry memory owner entry then
    some (setMarked memory (LargeObject.ofAddress memory entry.begin) false)
  else none

/-- A visit of the second loop, which drops entries of objects it has marked. -/
def mark (memory : Memory) (_ : Nat) (entry : Range) : Option Memory :=
  let object := LargeObject.ofAddress memory entry.begin
  if (object.tag memory).isMarked then none else some (setMarked memory object true)

def removeInvalidAndDuplicateEntries (memory : Memory) (owner : Owner) (vector : List Range) :
    Memory × List Range :=
  let (memory, vector) := sweep (unmark owner) memory [] vector
  sweep mark memory [] vector

def push (memory : Memory) (owner : Owner) (list : FreeList) (object : LargeObject) : Memory × FreeList :=
  if list.vector.length = list.limit then
    let (memory, vector) := removeInvalidAndDuplicateEntries memory owner list.vector
    (memory, ⟨vector ++ [⟨object.begin, object.size memory⟩],
      max (vector.length * freeListGrowFactor) freeListSearchDepth⟩)
  else (memory, { list with vector := list.vector ++ [⟨object.begin, object.size memory⟩] })

end FreeList

abbrev SegregatedFreeList := Nat → FreeList

namespace SegregatedFreeList

def listCount : Nat := 19

/-- The number of times that a count can be halved. -/
def halvings (count : Nat) : Nat :=
  if count = 0 then 0 else halvings (count / 2) + 1
  termination_by count
  decreasing_by omega

def select (size : Nat) : Nat := halvings ((size - largeMin) / largeAlignment)

def insert (memory : Memory) (owner : Owner) (lists : SegregatedFreeList) (object : LargeObject) :
    Memory × SegregatedFreeList :=
  let index := select (object.size memory)
  let (memory, list) := (lists index).push memory owner object
  (memory, Function.update lists index list)

/-- Try the lists with the given indices in turn. -/
def takeFrom (takeOne : FreeList → Option LargeObject × FreeList) :
    List Nat → SegregatedFreeList → Option LargeObject × SegregatedFreeList
  | [], lists => (none, lists)
  | index :: rest, lists =>
    match takeOne (lists index) with
    | (some object, list) => (some object, Function.update lists index list)
    | (none, list) => takeFrom takeOne rest (Function.update lists index list)

def indicesFrom (index : Nat) : List Nat := List.range' index (listCount - index)

def takeGreedy (memory : Memory) (owner : Owner) (lists : SegregatedFreeList) :
    Option LargeObject × SegregatedFreeList :=
  takeFrom (fun list => list.takeGreedy memory owner) (List.range listCount).reverse lists

def take (memory : Memory) (owner : Owner) (size : Nat) (lists : SegregatedFreeList) :
    Option LargeObject × SegregatedFreeList :=
  takeFrom (fun list => list.take memory owner size) (indicesFrom (select size)) lists

def takeAligned (memory : Memory) (owner : Owner) (alignment size unalignedSize : Nat)
    (lists : SegregatedFreeList) : Option LargeObject × SegregatedFreeList :=
  takeFrom (fun list => list.takeAligned memory owner alignment size unalignedSize)
    (indicesFrom (select size)) lists

end SegregatedFreeList

end WebNode.Bmalloc
