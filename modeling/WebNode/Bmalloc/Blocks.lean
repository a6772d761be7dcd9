import WebNode.Bmalloc.LargeObject
import WebNode.Lib.Tiling

/-! The objects of a chunk as blocks that tile it, and what the operations on objects
do to the tiling. -/
namespace WebNode.Bmalloc

open Tiling

/-- A large object as its tags describe it. -/
structure Block where
  size : Nat
  isFree : Bool
  owner : Owner
  isMarked : Bool
  deriving DecidableEq, Repr

def Block.tag (block : Block) (position : Nat) (isEnd : Bool) : BoundaryTag :=
  ⟨block.isFree, isEnd, block.owner, block.isMarked, BoundaryTag.compactBeginOf position, block.size⟩

/-- Where an object of a size can lie in a chunk. -/
structure Fits (position size : Nat) : Prop where
  least : largeMin ≤ size
  sizeAligned : size % largeAlignment = 0
  positionAligned : position % largeAlignment = 0
  above : LargeChunk.begin ≤ position
  below : position + size ≤ largeChunkSize

/-- A block whose first and last slots hold its tags. The slots between are empty, and
a block with one slot has its begin tag only. -/
structure BlockAt (tags : Tags) (position : Nat) (block : Block) : Prop where
  fits : Fits position block.size
  beginTag : tags (LargeChunk.beginTag position) = block.tag position false
  endTag : LargeChunk.endTag position block.size ≠ LargeChunk.beginTag position →
    tags (LargeChunk.endTag position block.size) = block.tag position true
  interior : ∀ slot, LargeChunk.beginTag position < slot → slot < LargeChunk.endTag position block.size →
    tags slot = .null

def HasBlock (tags : Tags) (position : Nat) (block : Block) : Prop :=
  Has Block.size (BlockAt tags) LargeChunk.begin largeChunkSize position block

/-- A chunk tiled by blocks, between sentinels that are not free. -/
structure Chunk (tags : Tags) : Prop where
  tiles : ∃ blocks, Tiles Block.size (BlockAt tags) LargeChunk.begin blocks largeChunkSize
  leftSentinel : (tags (LargeChunk.beginTag LargeChunk.begin - 1)).isFree = false
  rightSentinel : (tags (LargeChunk.beginTag largeChunkSize)).isFree = false

section Slots

variable {position size : Nat}

theorem LargeChunk.begin_eq : LargeChunk.begin = 65536 := by decide

theorem largeChunkSize_eq : largeChunkSize = 16777216 := rfl

/-- The bounds of a fitting object in numbers. -/
theorem Fits.numbers (fits : Fits position size) :
    1024 ≤ size ∧ size % 64 = 0 ∧ position % 64 = 0 ∧ 65536 ≤ position ∧ position + size ≤ 16777216 :=
  ⟨fits.least, fits.sizeAligned, fits.positionAligned, LargeChunk.begin_eq ▸ fits.above, fits.below⟩

theorem beginTag_eq (position : Nat) : LargeChunk.beginTag position = position / 1024 - 1 := rfl

/-- The end tag is right before the begin tag of what follows. -/
theorem Fits.endTag_eq (fits : Fits position size) :
    LargeChunk.endTag position size = (position + size) / 1024 - 2 := by
  have numbers := fits.numbers
  simp only [LargeChunk.endTag, largeMin, mediumMax]
  omega

/-- A block takes the slots from its begin tag to its end tag, and the next block the
one behind. -/
theorem Fits.slots (fits : Fits position size) :
    62 < LargeChunk.beginTag position ∧ LargeChunk.beginTag position ≤ LargeChunk.endTag position size ∧
      LargeChunk.endTag position size + 1 = LargeChunk.beginTag (position + size) := by
  have numbers := fits.numbers
  rw [fits.endTag_eq, beginTag_eq, beginTag_eq]
  omega

theorem beginTag_mono {position other : Nat} (le : position ≤ other) :
    LargeChunk.beginTag position ≤ LargeChunk.beginTag other :=
  Nat.sub_le_sub_right (Nat.div_le_div_right le) 1

theorem compactBeginOf_eq (position : Nat) : BoundaryTag.compactBeginOf position = position % 1024 / 64 := by
  have mask : position &&& (1024 - 1) = position % 1024 := Nat.and_two_pow_sub_one_eq_mod position 10
  simp only [BoundaryTag.compactBeginOf, largeMin, mediumMax, largeAlignment, mask]

/-- The fields of a tag are wide enough. -/
theorem Fits.setRange (fits : Fits position size) (tag : BoundaryTag) :
    tag.setRange position size =
      { tag with compactBegin := BoundaryTag.compactBeginOf position, size := size } := by
  have numbers := fits.numbers
  have compact : BoundaryTag.compactBeginOf position % 2 ^ 4 = BoundaryTag.compactBeginOf position := by
    rw [compactBeginOf_eq]
    omega
  have whole : size % 2 ^ 24 = size := by omega
  rw [BoundaryTag.setRange, compact, whole]

@[simp] theorem Tags.set_apply (tags : Tags) (slot other : Nat) (tag : BoundaryTag) :
    (tags.set slot tag).tag other = if other = slot then tag else tags.tag other :=
  Function.update_apply ..

end Slots

section Tiles

variable {tags later : Tags} {position other : Nat} {block otherBlock : Block}

theorem blockAt_proper (tags : Tags) : Proper Block.size (BlockAt tags) where
  positive here := Nat.lt_of_lt_of_le (by decide) here.fits.least
  unique {position block other} here there := by
    have same : block.tag position false = other.tag position false := here.beginTag.symm.trans there.beginTag
    obtain ⟨size, isFree, owner, isMarked⟩ := block
    obtain ⟨otherSize, otherFree, otherOwner, otherMarked⟩ := other
    simp_all [Block.tag]

/-- A block depends on its own slots only. -/
theorem BlockAt.congr (here : BlockAt tags position block)
    (same : ∀ slot, LargeChunk.beginTag position ≤ slot → slot < LargeChunk.beginTag (position + block.size) →
      later slot = tags slot) : BlockAt later position block := by
  have slots := here.fits.slots
  refine ⟨here.fits, ?_, fun different => ?_, fun slot above below => ?_⟩
  · rw [same _ (Nat.le_refl _) (by omega), here.beginTag]
  · rw [same _ (by omega) (by omega), here.endTag different]
  · rw [same _ (by omega) (by omega), here.interior slot above below]

/-- The last slot of a block tells its size and state, whichever tag it holds. -/
theorem BlockAt.last_tag (here : BlockAt tags position block) :
    ∃ isEnd, tags (LargeChunk.beginTag (position + block.size) - 1) = block.tag position isEnd := by
  have slots := here.fits.slots
  have last : LargeChunk.beginTag (position + block.size) - 1 = LargeChunk.endTag position block.size := by omega
  rw [last]
  by_cases single : LargeChunk.endTag position block.size = LargeChunk.beginTag position
  · exact ⟨false, single ▸ here.beginTag⟩
  · exact ⟨true, here.endTag single⟩

/-- What a change of the tags of a chunk does to its blocks. -/
structure Change (tags later : Tags) (gone new : List (Nat × Block)) : Prop where
  chunk : Chunk later
  back : ∀ {position block}, HasBlock later position block →
    (HasBlock tags position block ∧ (position, block) ∉ gone) ∨ (position, block) ∈ new
  forth : ∀ {position block}, HasBlock tags position block →
    HasBlock later position block ∨ (position, block) ∈ gone
  added : ∀ {position block}, (position, block) ∈ new → HasBlock later position block
  removed : ∀ {position block}, (position, block) ∈ gone → HasBlock tags position block

/-- Writing the slots between two positions replaces the blocks there. -/
theorem Chunk.replace (chunk : Chunk tags) {left right : Nat} {first second old new : List Block}
    (opening : Tiles Block.size (BlockAt tags) LargeChunk.begin first left)
    (removed : Tiles Block.size (BlockAt tags) left old right)
    (added : Tiles Block.size (BlockAt later) left new right)
    (closing : Tiles Block.size (BlockAt tags) right second largeChunkSize)
    (same : ∀ slot, slot < LargeChunk.beginTag left ∨ LargeChunk.beginTag right ≤ slot → later slot = tags slot) :
    Change tags later (placed Block.size left old) (placed Block.size left new) := by
  have leftLe := beginTag_mono opening.le
  have rightLe := beginTag_mono closing.le
  have positive : 0 < LargeChunk.beginTag LargeChunk.begin := by decide
  have replaced := (blockAt_proper tags).replace (blockAt_proper later) opening removed added closing (by
    intro position block apart above below here
    refine here.congr fun slot first last => same slot ?_
    rcases apart with before | after
    · exact .inl (Nat.lt_of_lt_of_le last (beginTag_mono before))
    · exact .inr (Nat.le_trans (beginTag_mono after) first))
  refine ⟨⟨replaced.tiles, ?_, ?_⟩, replaced.back, replaced.forth, replaced.added, replaced.removed⟩
  · rw [same _ (.inl (by omega)), chunk.leftSentinel]
  · rw [same _ (.inr rightLe), chunk.rightSentinel]

end Tiles

end WebNode.Bmalloc
