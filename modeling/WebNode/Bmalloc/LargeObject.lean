import WebNode.Bmalloc.Sizes
import Mathlib.Logic.Function.Basic

/-! Large objects and their boundary tags, after `BoundaryTag.h`, `EndTag.h`,
`LargeChunk.h` and `LargeObject.h`. Positions are relative to a chunk, which is
aligned to its size; tags are numbered by their slots in the chunk. -/
namespace WebNode.Bmalloc

def largeChunkSize : Nat := superChunkSize / 2
def largeAlignment : Nat := 64
def largeMax : Nat := largeChunkSize * 99 / 100
def largeMin : Nat := mediumMax

inductive Owner where
  | vmHeap
  | heap
  deriving DecidableEq, Repr

structure BoundaryTag where
  isFree : Bool
  isEnd : Bool
  owner : Owner
  isMarked : Bool
  compactBegin : Nat
  size : Nat
  deriving DecidableEq, Repr

namespace BoundaryTag

/-- What `clear` leaves, and what fresh memory holds. -/
def null : BoundaryTag := ⟨false, false, .vmHeap, false, 0, 0⟩

/-- The static `compactBegin`: where an object starts among the positions of its slot. -/
def compactBeginOf (object : Nat) : Nat := (object &&& (largeMin - 1)) / largeAlignment

/-- The fields have 4 and 24 bits. -/
def setRange (tag : BoundaryTag) (begin size : Nat) : BoundaryTag :=
  { tag with compactBegin := compactBeginOf begin % 2 ^ 4, size := size % 2 ^ 24 }

def setFree (tag : BoundaryTag) (isFree : Bool) : BoundaryTag := { tag with isFree := isFree }

def setEnd (tag : BoundaryTag) (isEnd : Bool) : BoundaryTag := { tag with isEnd := isEnd }

def setOwner (tag : BoundaryTag) (owner : Owner) : BoundaryTag := { tag with owner := owner }

def setMarked (tag : BoundaryTag) (isMarked : Bool) : BoundaryTag := { tag with isMarked := isMarked }

def initSentinel (tag : BoundaryTag) : BoundaryTag :=
  ((tag.setRange 0 largeMin).setFree false).setOwner .vmHeap

end BoundaryTag

/-- The tags of a chunk, by slot. -/
structure Tags where
  tag : Nat → BoundaryTag

instance : CoeFun Tags fun _ => Nat → BoundaryTag := ⟨Tags.tag⟩

namespace Tags

def set (tags : Tags) (slot : Nat) (tag : BoundaryTag) : Tags := ⟨Function.update tags.tag slot tag⟩

def modify (tags : Tags) (slot : Nat) (change : BoundaryTag → BoundaryTag) : Tags :=
  tags.set slot (change (tags slot))

def clear (tags : Tags) (slot : Nat) : Tags := tags.set slot .null

/-- `EndTag::init`: an object with one slot has no end tag. -/
def initEnd (tags : Tags) (endTag beginTag : Nat) : Tags :=
  if endTag = beginTag then tags else tags.set endTag ((tags beginTag).setEnd true)

end Tags

namespace LargeChunk

/-- A tag takes 4 bytes. -/
def boundaryTagCount : Nat := max (2 * largeMin / 4) (largeChunkSize / largeMin)

/-- The memory behind the tags starts at a whole page. -/
def begin : Nat := (boundaryTagCount * 4 + vmPageSize - 1) / vmPageSize * vmPageSize

def beginTag (object : Nat) : Nat := object / largeMin - 1

def endTag (object size : Nat) : Nat := (object + size - largeMin) / largeMin - 1

end LargeChunk

/-- A large object: the number of its chunk, its tags and its position. -/
structure LargeObject where
  chunk : Nat
  beginTag : Nat
  endTag : Nat
  object : Nat
  deriving DecidableEq, Repr

namespace LargeObject

/-- The constructor, which does not check the tags it finds. -/
def ofPosition (tags : Tags) (chunk position : Nat) : LargeObject where
  chunk := chunk
  beginTag := LargeChunk.beginTag position
  endTag := LargeChunk.endTag position (tags (LargeChunk.beginTag position)).size
  object := position

variable (object : LargeObject) (tags : Tags)

def modifyTags (change : BoundaryTag → BoundaryTag) : Tags :=
  (tags.modify object.beginTag change).modify object.endTag change

def setFree (isFree : Bool) : Tags := object.modifyTags tags fun tag => tag.setFree isFree

def setOwner (owner : Owner) : Tags := object.modifyTags tags fun tag => tag.setOwner owner

def setMarked (isMarked : Bool) : Tags := object.modifyTags tags fun tag => tag.setMarked isMarked

def isValidAndFree (expectedOwner : Owner) (expectedSize : Nat) : Bool :=
  let tag := tags object.beginTag
  tag.isFree && !tag.isEnd && tag.size == expectedSize &&
    tag.compactBegin == BoundaryTag.compactBeginOf object.object && tag.owner == expectedOwner

/-- The part of `merge` for the object before: the tags, and the slot, position and
size of the range so far. -/
def mergeLeft (owner : Owner) : Tags × Nat × Nat × Nat :=
  let size := (tags object.beginTag).size
  let prev := tags (object.beginTag - 1)
  if prev.isFree ∧ prev.owner = owner then
    let begin := object.object - prev.size
    ((tags.clear (object.beginTag - 1)).clear object.beginTag, LargeChunk.beginTag begin, begin,
      prev.size + size)
  else (tags, object.beginTag, object.object, size)

/-- The part of `merge` for the object behind: the tags, and the end slot and size of
the range that starts at the given position. -/
def mergeRight (owner : Owner) (begin size : Nat) : Tags × Nat × Nat :=
  let next := tags (object.endTag + 1)
  if next.isFree ∧ next.owner = owner then
    ((tags.clear object.endTag).clear (object.endTag + 1), LargeChunk.endTag begin (size + next.size),
      size + next.size)
  else (tags, object.endTag, size)

/-- Join a free object with the free objects of its owner around it. -/
def merge : Tags × LargeObject :=
  let owner := (tags object.beginTag).owner
  let (tags, beginTag, begin, size) := object.mergeLeft tags owner
  let (tags, endTag, size) := object.mergeRight tags owner begin size
  let tags := tags.modify beginTag fun tag => ((tag.setRange begin size).setFree true).setOwner owner
  (tags.initEnd endTag beginTag, ⟨object.chunk, beginTag, endTag, begin⟩)

/-- Cut an object after the given size. -/
def split (size : Nat) : Tags × LargeObject × LargeObject :=
  let whole := (tags object.beginTag).size
  let leftover := object.object + size
  let splitEnd := LargeChunk.endTag object.object size
  let leftoverBegin := LargeChunk.beginTag leftover
  let tags := tags.modify object.beginTag fun tag => tag.setRange object.object size
  let tags := tags.initEnd splitEnd object.beginTag
  let tags := tags.set leftoverBegin ((tags object.beginTag).setRange leftover (whole - size))
  let tags := tags.initEnd object.endTag leftoverBegin
  (tags, ⟨object.chunk, object.beginTag, splitEnd, object.object⟩,
    ⟨object.chunk, leftoverBegin, object.endTag, leftover⟩)

/-- `init`: one free object over a fresh chunk, between sentinels that are never free. -/
def init : Tags :=
  let size := largeChunkSize - LargeChunk.begin
  let beginTag := LargeChunk.beginTag LargeChunk.begin
  let endTag := LargeChunk.endTag LargeChunk.begin size
  let tags : Tags := ⟨fun _ => .null⟩
  let tags := tags.modify beginTag fun tag =>
    ((tag.setRange LargeChunk.begin size).setFree true).setOwner .vmHeap
  let tags := tags.initEnd endTag beginTag
  let tags := tags.modify (beginTag - 1) BoundaryTag.initSentinel
  tags.modify (endTag + 1) BoundaryTag.initSentinel

end LargeObject

end WebNode.Bmalloc
