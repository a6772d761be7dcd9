import WebNode.Bmalloc.Blocks

/-! What the operations on large objects do to the blocks of their chunk. -/
namespace WebNode.Bmalloc

open Tiling

/-- The object whose block has the given position and size. -/
def LargeObject.ofBlock (chunk position size : Nat) : LargeObject :=
  ⟨chunk, LargeChunk.beginTag position, LargeChunk.endTag position size, position⟩

section Modify

variable {tags : Tags} {position : Nat} {block later : Block}

theorem HasBlock.ofPosition (has : HasBlock tags position block) (number : Nat) :
    LargeObject.ofPosition tags number position = .ofBlock number position block.size := by
  simp [LargeObject.ofPosition, LargeObject.ofBlock, has.at.beginTag, Block.tag]

theorem LargeObject.modifyTags_apply (number position size : Nat) (tags : Tags)
    (change : BoundaryTag → BoundaryTag) (slot : Nat) :
    ((LargeObject.ofBlock number position size).modifyTags tags change).tag slot =
      if slot = LargeChunk.endTag position size then
        (if slot = LargeChunk.beginTag position then change (change (tags slot)) else change (tags slot))
      else if slot = LargeChunk.beginTag position then change (tags slot) else tags slot := by
  simp only [modifyTags, ofBlock, Tags.modify, Tags.set_apply]
  grind

/-- Writing both tags of an object changes its block. -/
theorem Chunk.modifyTags (chunk : Chunk tags) (number : Nat) (has : HasBlock tags position block)
    (change : BoundaryTag → BoundaryTag) (size : later.size = block.size)
    (changed : ∀ isEnd, change (block.tag position isEnd) = later.tag position isEnd)
    (again : ∀ isEnd, change (later.tag position isEnd) = later.tag position isEnd) :
    Change tags ((LargeObject.ofBlock number position block.size).modifyTags tags change)
      [(position, block)] [(position, later)] := by
  obtain ⟨before, after, left, here, right⟩ := has
  have slots := here.fits.slots
  have applied := LargeObject.modifyTags_apply number position block.size tags change
  have new : BlockAt ((LargeObject.ofBlock number position block.size).modifyTags tags change) position later := by
    refine ⟨size ▸ here.fits, ?_, fun different => ?_, fun slot above below => ?_⟩
    · rw [applied]
      split
      · rw [if_pos rfl, here.beginTag, changed, again]
      · rw [if_pos rfl, here.beginTag, changed]
    · rw [size] at different ⊢
      rw [applied, if_pos rfl, if_neg different, here.endTag different, changed]
    · rw [size] at below
      rw [applied, if_neg (by omega), if_neg (by omega), here.interior slot above below]
  refine chunk.replace left (show Tiles Block.size (BlockAt tags) position [block] _ from ⟨here, rfl⟩)
    (show Tiles Block.size _ position [later] _ from ⟨new, by rw [Tiles, size]⟩) right fun slot outside => ?_
  rw [applied, if_neg (by omega), if_neg (by omega)]

theorem Chunk.setFree (chunk : Chunk tags) (number : Nat) (has : HasBlock tags position block) (isFree : Bool) :
    Change tags ((LargeObject.ofBlock number position block.size).setFree tags isFree)
      [(position, block)] [(position, { block with isFree := isFree })] :=
  chunk.modifyTags number has _ rfl (fun _ => rfl) fun _ => rfl

theorem Chunk.setOwner (chunk : Chunk tags) (number : Nat) (has : HasBlock tags position block) (owner : Owner) :
    Change tags ((LargeObject.ofBlock number position block.size).setOwner tags owner)
      [(position, block)] [(position, { block with owner := owner })] :=
  chunk.modifyTags number has _ rfl (fun _ => rfl) fun _ => rfl

theorem Chunk.setMarked (chunk : Chunk tags) (number : Nat) (has : HasBlock tags position block) (isMarked : Bool) :
    Change tags ((LargeObject.ofBlock number position block.size).setMarked tags isMarked)
      [(position, block)] [(position, { block with isMarked := isMarked })] :=
  chunk.modifyTags number has _ rfl (fun _ => rfl) fun _ => rfl

end Modify

section Split

variable {tags : Tags} {position size : Nat} {block : Block}

theorem Tags.initEnd_apply (tags : Tags) (endTag beginTag slot : Nat) : (tags.initEnd endTag beginTag).tag slot =
    if slot = endTag ∧ endTag ≠ beginTag then (tags beginTag).setEnd true else tags slot := by
  unfold Tags.initEnd
  split
  · rename_i same
    rw [if_neg fun both => both.2 same]
  · rename_i different
    simp [different]

/-- The four tags that a split writes, where an object with one slot has no end tag. -/
theorem LargeObject.split_apply (object : LargeObject) (tags : Tags) (size slot : Nat) :
    (object.split tags size).1.tag slot =
      let first := (tags object.beginTag).setRange object.object size
      let leftover := object.object + size
      let second := first.setRange leftover ((tags object.beginTag).size - size)
      if slot = object.endTag ∧ object.endTag ≠ LargeChunk.beginTag leftover then second.setEnd true
      else if slot = LargeChunk.beginTag leftover then second
      else if slot = LargeChunk.endTag object.object size ∧
          LargeChunk.endTag object.object size ≠ object.beginTag then first.setEnd true
      else if slot = object.beginTag then first
      else tags slot := by
  simp only [split, Tags.initEnd_apply, Tags.modify, Tags.set_apply, if_true]
  have not : ¬ (object.beginTag = LargeChunk.endTag object.object size ∧
      LargeChunk.endTag object.object size ≠ object.beginTag) := fun both => both.2 both.1.symm
  rw [if_neg not]

theorem Fits.split {whole : Nat} (fits : Fits position whole) (least : largeMin ≤ size)
    (aligned : size % largeAlignment = 0) (leftover : size + largeMin ≤ whole) :
    Fits position size ∧ Fits (position + size) (whole - size) := by
  have numbers := fits.numbers
  have sizeAligned : size % 64 = 0 := aligned
  refine ⟨⟨least, aligned, fits.positionAligned, fits.above, ?_⟩, ⟨?_, ?_, ?_, ?_, ?_⟩⟩
  · exact Nat.le_trans (by omega) fits.below
  · exact Nat.le_sub_of_add_le (Nat.add_comm .. ▸ leftover)
  · exact (show (whole - size) % 64 = 0 by omega)
  · exact (show (position + size) % 64 = 0 by omega)
  · exact Nat.le_trans fits.above (Nat.le_add_right ..)
  · exact Nat.le_trans (by omega) fits.below

/-- Splitting leaves two blocks with the state of the one that was split. -/
theorem Chunk.split (chunk : Chunk tags) (number : Nat) (has : HasBlock tags position block)
    (least : largeMin ≤ size) (aligned : size % largeAlignment = 0) (leftover : size + largeMin ≤ block.size) :
    ∃ later, (LargeObject.ofBlock number position block.size).split tags size =
        (later, .ofBlock number position size, .ofBlock number (position + size) (block.size - size)) ∧
      Change tags later [(position, block)]
        [(position, { block with size := size }), (position + size, { block with size := block.size - size })] := by
  obtain ⟨before, after, left, here, right⟩ := has
  obtain ⟨firstFits, secondFits⟩ := here.fits.split least aligned leftover
  have slots := here.fits.slots
  have firstSlots := firstFits.slots
  have secondSlots := secondFits.slots
  have stop : position + size + (block.size - size) = position + block.size := by omega
  rw [stop] at secondSlots
  have sameEnd : LargeChunk.endTag (position + size) (block.size - size) = LargeChunk.endTag position block.size := by
    omega
  have whole : (tags (LargeChunk.beginTag position)).size = block.size := by rw [here.beginTag]; rfl
  obtain ⟨later, laterEq⟩ : ∃ later, ((LargeObject.ofBlock number position block.size).split tags size).1 = later :=
    ⟨_, rfl⟩
  have applied (slot : Nat) := LargeObject.split_apply (.ofBlock number position block.size) tags size slot
  rw [laterEq] at applied
  simp only [LargeObject.ofBlock, here.beginTag, firstFits.setRange, secondFits.setRange, Block.tag,
    BoundaryTag.setEnd] at applied
  have first : BlockAt later position { block with size := size } := by
    refine ⟨firstFits, ?_, fun different => ?_, fun slot above below => ?_⟩
    · rw [applied, if_neg (by omega), if_neg (by omega), if_neg (by omega), if_pos rfl]
      rfl
    · rw [applied, if_neg (by simp only; omega), if_neg (by simp only; omega), if_pos ⟨rfl, different⟩]
      rfl
    · simp only at below
      rw [applied, if_neg (by omega), if_neg (by omega), if_neg (by omega), if_neg (by omega),
        here.interior slot above (by omega)]
  have second : BlockAt later (position + size) { block with size := block.size - size } := by
    refine ⟨secondFits, ?_, fun different => ?_, fun slot above below => ?_⟩
    · rw [applied, if_neg (by omega), if_pos rfl]
      rfl
    · simp only [sameEnd] at different ⊢
      rw [applied, if_pos ⟨rfl, different⟩]
      rfl
    · simp only [sameEnd] at below
      rw [applied, if_neg (by omega), if_neg (by omega), if_neg (by omega), if_neg (by omega),
        here.interior slot (by omega) (by omega)]
  refine ⟨later, ?_, chunk.replace left (show Tiles Block.size (BlockAt tags) position [block] _ from ⟨here, rfl⟩)
    (show Tiles Block.size _ position [{ block with size := size }, { block with size := block.size - size }] _ from
      ⟨first, second, ?_⟩) right ?_⟩
  · have second : LargeObject.ofBlock number (position + size) (block.size - size) =
        ⟨number, LargeChunk.beginTag (position + size), LargeChunk.endTag position block.size, position + size⟩ := by
      rw [LargeObject.ofBlock, sameEnd]
    rw [← laterEq, second]
    rfl
  · simpa only [Tiles] using stop
  · intro slot outside
    rw [applied, if_neg (by omega), if_neg (by omega), if_neg (by omega), if_neg (by omega)]

end Split

section Merge

variable {tags : Tags} {position : Nat} {block : Block}

theorem LargeObject.mergeLeft_of_not (object : LargeObject) (tags : Tags) (owner : Owner)
    (kept : ¬ ((tags (object.beginTag - 1)).isFree = true ∧ (tags (object.beginTag - 1)).owner = owner)) :
    object.mergeLeft tags owner =
      (tags, object.beginTag, object.object, (tags object.beginTag).size) := by
  rw [mergeLeft, if_neg kept]

theorem LargeObject.mergeLeft_of (object : LargeObject) (tags : Tags) (owner : Owner)
    (joins : (tags (object.beginTag - 1)).isFree = true ∧ (tags (object.beginTag - 1)).owner = owner) :
    object.mergeLeft tags owner =
      ((tags.clear (object.beginTag - 1)).clear object.beginTag,
        LargeChunk.beginTag (object.object - (tags (object.beginTag - 1)).size),
        object.object - (tags (object.beginTag - 1)).size,
        (tags (object.beginTag - 1)).size + (tags object.beginTag).size) := by
  rw [mergeLeft, if_pos joins]

theorem LargeObject.mergeRight_of_not (object : LargeObject) (tags : Tags) (owner : Owner) (begin size : Nat)
    (kept : ¬ ((tags (object.endTag + 1)).isFree = true ∧ (tags (object.endTag + 1)).owner = owner)) :
    object.mergeRight tags owner begin size = (tags, object.endTag, size) := by
  rw [mergeRight, if_neg kept]

theorem LargeObject.mergeRight_of (object : LargeObject) (tags : Tags) (owner : Owner) (begin size : Nat)
    (joins : (tags (object.endTag + 1)).isFree = true ∧ (tags (object.endTag + 1)).owner = owner) :
    object.mergeRight tags owner begin size =
      ((tags.clear object.endTag).clear (object.endTag + 1),
        LargeChunk.endTag begin (size + (tags (object.endTag + 1)).size), size + (tags (object.endTag + 1)).size) := by
  rw [mergeRight, if_pos joins]

/-- Free blocks of an owner that lie end to end. -/
structure FreeRun (tags : Tags) (owner : Owner) (start : Nat) (blocks : List Block) (stop : Nat) : Prop where
  tiles : Tiles Block.size (BlockAt tags) start blocks stop
  free : ∀ block ∈ blocks, block.isFree = true ∧ block.owner = owner

/-- The left part of a merge takes in the block before, if it is free, and empties the
slots behind the begin tag of the range up to the object's own. -/
theorem Chunk.mergeLeft (chunk : Chunk tags) (number : Nat) (owner : Owner) {before : List Block}
    (opening : Tiles Block.size (BlockAt tags) LargeChunk.begin before position)
    (here : BlockAt tags position block) :
    ∃ first joined start later, Tiles Block.size (BlockAt tags) LargeChunk.begin first start ∧
      FreeRun tags owner start joined position ∧ start % 64 = 0 ∧
      (LargeObject.ofBlock number position block.size).mergeLeft tags owner =
        (later, LargeChunk.beginTag start, start, position + block.size - start) ∧
      (later (LargeChunk.beginTag start)).isEnd = false ∧
      (∀ slot, LargeChunk.beginTag start < slot → slot ≤ LargeChunk.beginTag position → later slot = .null) ∧
      ∀ slot, slot < LargeChunk.beginTag start ∨ LargeChunk.beginTag position < slot → later slot = tags slot := by
  have size : (tags (LargeChunk.beginTag position)).size = block.size := by rw [here.beginTag]; rfl
  by_cases joins : (tags (LargeChunk.beginTag position - 1)).isFree = true ∧
      (tags (LargeChunk.beginTag position - 1)).owner = owner
  · rcases List.eq_nil_or_concat before with rfl | ⟨front, last, rfl⟩
    · obtain rfl : LargeChunk.begin = position := opening
      simp [chunk.leftSentinel] at joins
    · rw [List.concat_eq_append] at opening
      obtain ⟨start, first, there, ended⟩ := opening.exists_middle
      obtain rfl : start + last.size = position := ended
      have slots := there.fits.slots
      obtain ⟨isEnd, lastTag⟩ := there.last_tag
      have merged := LargeObject.mergeLeft_of (.ofBlock number (start + last.size) block.size) tags owner joins
      simp only [LargeObject.ofBlock, lastTag, size, Block.tag, Nat.add_sub_cancel] at merged
      rw [lastTag] at joins
      refine ⟨front, [last], start, (tags.clear (LargeChunk.beginTag (start + last.size) - 1)).clear
          (LargeChunk.beginTag (start + last.size)), first, ⟨⟨there, rfl⟩, by simpa [Block.tag] using joins⟩,
        there.fits.positionAligned, ?_, ?_, ?_, ?_⟩
      · rw [LargeObject.ofBlock, merged, Nat.add_assoc, Nat.add_sub_cancel_left]
      · simp only [Tags.clear, Tags.set_apply]
        rw [if_neg (by omega)]
        split
        · rfl
        · rw [there.beginTag]
          rfl
      · intro slot above below
        simp only [Tags.clear, Tags.set_apply]
        split
        · rfl
        · rw [ite_eq_left_iff]
          exact fun _ => there.interior slot above (by omega)
      · intro slot outside
        simp only [Tags.clear, Tags.set_apply]
        rw [if_neg (by omega), if_neg (by omega)]
  · -- nothing is merged if the slot before is not free or has another owner
    have kept := LargeObject.mergeLeft_of_not (.ofBlock number position block.size) tags owner joins
    simp only [LargeObject.ofBlock, size] at kept
    refine ⟨before, [], position, tags, opening, ⟨rfl, by simp⟩, here.fits.positionAligned, ?_, ?_, ?_,
      fun _ _ => rfl⟩
    · rw [LargeObject.ofBlock, kept, Nat.add_sub_cancel_left]
    · rw [here.beginTag]
      rfl
    · intro slot above below
      omega

/-- The right part of a merge takes in the block behind, if it is free, and empties the
slots from the object's end tag up to the one of the range. -/
theorem Chunk.mergeRight (chunk : Chunk tags) (number : Nat) (owner : Owner) {after : List Block}
    {current : Tags} {start : Nat} (fits : Fits position block.size) (low : 65536 ≤ start) (le : start ≤ position)
    (closing : Tiles Block.size (BlockAt tags) (position + block.size) after largeChunkSize)
    (same : ∀ slot, LargeChunk.beginTag position < slot → current slot = tags slot) :
    ∃ second joined stop later, Tiles Block.size (BlockAt tags) stop second largeChunkSize ∧
      FreeRun tags owner (position + block.size) joined stop ∧ stop % 64 = 0 ∧
      (LargeObject.ofBlock number position block.size).mergeRight current owner start
          (position + block.size - start) =
        (later, LargeChunk.endTag start (stop - start), stop - start) ∧
      (∀ slot, LargeChunk.endTag position block.size ≤ slot → slot < LargeChunk.beginTag stop - 1 →
        later slot = .null) ∧
      ∀ slot, slot < LargeChunk.endTag position block.size ∨ LargeChunk.beginTag stop ≤ slot ∨
        LargeChunk.beginTag stop = LargeChunk.beginTag (position + block.size) → later slot = current slot := by
  have numbers := fits.numbers
  have slots := fits.slots
  have nextTag : current (LargeChunk.endTag position block.size + 1) =
      tags (LargeChunk.beginTag (position + block.size)) := by rw [same _ (by omega), slots.2.2]
  by_cases joins : (current (LargeChunk.endTag position block.size + 1)).isFree = true ∧
      (current (LargeChunk.endTag position block.size + 1)).owner = owner
  · cases after with
    | nil =>
      have ended : position + block.size = largeChunkSize := closing
      rw [nextTag, ended, chunk.rightSentinel] at joins
      simp at joins
    | cons right rest =>
      obtain ⟨there, remaining⟩ := closing
      have rightSlots := there.fits.slots
      have rightNumbers := there.fits.numbers
      have merged := LargeObject.mergeRight_of (.ofBlock number position block.size) current owner start
        (position + block.size - start) joins
      simp only [LargeObject.ofBlock, nextTag, there.beginTag, Block.tag] at merged
      rw [nextTag, there.beginTag] at joins
      have whole : position + block.size - start + right.size = position + block.size + right.size - start := by
        omega
      refine ⟨rest, [right], position + block.size + right.size,
        (current.clear (LargeChunk.endTag position block.size)).clear
          (LargeChunk.endTag position block.size + 1), remaining, ⟨⟨there, rfl⟩, by simpa [Block.tag] using joins⟩,
        by omega, by rw [LargeObject.ofBlock, merged, whole], ?_, ?_⟩
      · intro slot above below
        simp only [Tags.clear, Tags.set_apply]
        split
        · rfl
        · rw [ite_eq_left_iff]
          intro different
          rw [same _ (by omega), there.interior slot (by omega) (by omega)]
      · intro slot outside
        simp only [Tags.clear, Tags.set_apply]
        rw [if_neg (by omega), if_neg (by omega)]
  · have kept := LargeObject.mergeRight_of_not (.ofBlock number position block.size) current owner start
      (position + block.size - start) joins
    simp only [LargeObject.ofBlock] at kept
    have sameEnd : LargeChunk.endTag position block.size = LargeChunk.endTag start (position + block.size - start) := by
      simp only [LargeChunk.endTag, largeMin, mediumMax]
      omega
    refine ⟨after, [], position + block.size, current, closing, ⟨rfl, by simp⟩, by omega, ?_, ?_, fun _ _ => rfl⟩
    · rw [LargeObject.ofBlock, kept, sameEnd]
    · intro slot above below
      omega

theorem LargeObject.merge_eq {object : LargeObject} {tags opened closed : Tags} {owner : Owner}
    {beginTag endTag begin size total : Nat} (owns : (tags object.beginTag).owner = owner)
    (left : object.mergeLeft tags owner = (opened, beginTag, begin, size))
    (right : object.mergeRight opened owner begin size = (closed, endTag, total)) :
    object.merge tags =
      ((closed.modify beginTag fun tag => ((tag.setRange begin total).setFree true).setOwner owner).initEnd
        endTag beginTag, ⟨object.chunk, beginTag, endTag, begin⟩) := by
  simp only [merge, owns, left, right]

/-- Merging joins a free block with the free blocks of its owner around it. -/
theorem Chunk.merge (chunk : Chunk tags) (number : Nat) (has : HasBlock tags position block)
    (free : block.isFree = true) :
    ∃ later start merged gone, (LargeObject.ofBlock number position block.size).merge tags =
        (later, .ofBlock number start merged.size) ∧
      merged.isFree = true ∧ merged.owner = block.owner ∧ (position, block) ∈ gone ∧
      (∀ entry ∈ gone, entry.2.isFree = true ∧ entry.2.owner = block.owner) ∧
      Change tags later gone [(start, merged)] := by
  obtain ⟨before, after, left, here, right⟩ := has
  have owner : (tags (LargeChunk.beginTag position)).owner = block.owner := by rw [here.beginTag]; rfl
  obtain ⟨first, joined, start, opened, opening, leftRun, startAligned, openedEq, notEnd, emptied, kept⟩ :=
    chunk.mergeLeft number block.owner left here
  have low : 65536 ≤ start := LargeChunk.begin_eq ▸ opening.le
  have startLe := leftRun.tiles.le
  obtain ⟨second, added, stop, closed, closing, rightRun, stopAligned, closedEq, cleared, same⟩ :=
    chunk.mergeRight number block.owner here.fits low startLe right fun slot above => kept slot (.inr above)
  have stopGe := rightRun.tiles.le
  have numbers := here.fits.numbers
  have fits : Fits start (stop - start) := by
    refine ⟨?_, ?_, startAligned, opening.le, ?_⟩
    · exact Nat.le_trans here.fits.least (by omega)
    · exact (show (stop - start) % 64 = 0 by omega)
    · exact Nat.le_trans (by omega) closing.le
  have slots := fits.slots
  have ownSlots := here.fits.slots
  have beginMono := beginTag_mono startLe
  have stopMono := beginTag_mono stopGe
  rw [show start + (stop - start) = stop by omega] at slots
  have whole := LargeObject.merge_eq owner openedEq closedEq
  obtain ⟨later, laterEq⟩ : ∃ later, (closed.modify (LargeChunk.beginTag start) fun tag =>
      ((tag.setRange start (stop - start)).setFree true).setOwner block.owner).initEnd
        (LargeChunk.endTag start (stop - start)) (LargeChunk.beginTag start) = later := ⟨_, rfl⟩
  rw [laterEq] at whole
  have applied (slot : Nat) : later slot =
      if slot = LargeChunk.endTag start (stop - start) ∧
          LargeChunk.endTag start (stop - start) ≠ LargeChunk.beginTag start then
        Block.tag ⟨stop - start, true, block.owner, (closed (LargeChunk.beginTag start)).isMarked⟩ start true
      else if slot = LargeChunk.beginTag start then
        { Block.tag ⟨stop - start, true, block.owner, (closed (LargeChunk.beginTag start)).isMarked⟩ start false with
          isEnd := (closed (LargeChunk.beginTag start)).isEnd }
      else closed slot := by
    rw [← laterEq, Tags.initEnd_apply]
    simp only [Tags.modify, Tags.set_apply, if_true, fits.setRange]
    rfl
  -- the begin tag of the range keeps its place, or is the object's own or an empty one
  have beginNotEnd : (closed (LargeChunk.beginTag start)).isEnd = false := by
    by_cases inner : LargeChunk.beginTag start < LargeChunk.endTag position block.size ∨
        LargeChunk.beginTag stop = LargeChunk.beginTag (position + block.size)
    · rw [same _ (by omega), notEnd]
    · rw [cleared _ (by omega) (by omega)]
      rfl
  have new : BlockAt later start ⟨stop - start, true, block.owner, (closed (LargeChunk.beginTag start)).isMarked⟩ := by
    refine ⟨fits, ?_, fun different => ?_, fun slot above below => ?_⟩
    · rw [applied, if_neg (by omega), if_pos rfl, beginNotEnd]
      rfl
    · rw [applied, if_pos ⟨rfl, different⟩]
    · simp only at below
      rw [applied, if_neg (by omega), if_neg (by omega)]
      by_cases passed : LargeChunk.endTag position block.size ≤ slot
      · exact cleared slot passed (by omega)
      · rw [same slot (by omega)]
        by_cases early : slot ≤ LargeChunk.beginTag position
        · exact emptied slot above early
        · rw [kept slot (by omega)]
          exact here.interior slot (by omega) (by omega)
  have old := leftRun.tiles.append
    (show Tiles Block.size (BlockAt tags) position (block :: added) stop from ⟨here, rightRun.tiles⟩)
  refine ⟨later, start, ⟨stop - start, true, block.owner, (closed (LargeChunk.beginTag start)).isMarked⟩, _,
    by rw [whole]; rfl, rfl, rfl, leftRun.tiles.mem_placed_append.mpr (.inr (List.mem_cons_self ..)),
    fun entry member => ?_, chunk.replace opening old
    (show Tiles Block.size _ start [_] stop from ⟨new, ?_⟩) closing fun slot outside => ?_⟩
  · rcases List.mem_append.mp (tile_mem_of_placed member) with inLeft | inRight
    · exact leftRun.free _ inLeft
    · rcases List.mem_cons.mp inRight with own | inRight
      · rw [own]
        exact ⟨free, rfl⟩
      · exact rightRun.free _ inRight
  · simp only [Tiles]
    omega
  · rw [applied, if_neg (by omega), if_neg (by omega), same slot (by omega), kept slot (by omega)]

end Merge

/-- The block of a fresh chunk. -/
def freshBlock : Block := ⟨largeChunkSize - LargeChunk.begin, true, .vmHeap, false⟩

theorem init_apply (slot : Nat) : LargeObject.init slot =
    if slot = 16383 ∨ slot = 62 then BoundaryTag.initSentinel .null
    else if slot = 16382 then freshBlock.tag LargeChunk.begin true
    else if slot = 63 then freshBlock.tag LargeChunk.begin false
    else .null := by
  have first : LargeChunk.beginTag LargeChunk.begin = 63 := by decide
  have last : LargeChunk.endTag LargeChunk.begin (largeChunkSize - LargeChunk.begin) = 16382 := by decide
  have tag : ((BoundaryTag.null.setRange LargeChunk.begin (largeChunkSize - LargeChunk.begin)).setFree true).setOwner
      .vmHeap = freshBlock.tag LargeChunk.begin false := by decide
  simp only [LargeObject.init, first, last, Tags.modify, Tags.initEnd_apply, Tags.set_apply, tag]
  by_cases right : slot = 16383
  · simp [right]
  · by_cases left : slot = 62
    · simp [left]
    · by_cases atEnd : slot = 16382
      · simp [atEnd, BoundaryTag.setEnd, Block.tag]
      · simp [right, left, atEnd]

/-- A fresh chunk has one block. -/
theorem init_blocks : Chunk LargeObject.init ∧
    ∀ {position : Nat} {block : Block}, HasBlock LargeObject.init position block ↔
      position = LargeChunk.begin ∧ block = freshBlock := by
  have first : LargeChunk.beginTag LargeChunk.begin = 63 := by decide
  have last : LargeChunk.endTag LargeChunk.begin freshBlock.size = 16382 := by decide
  have here : BlockAt LargeObject.init LargeChunk.begin freshBlock := by
    refine ⟨⟨by decide, by decide, by decide, Nat.le_refl _, by decide⟩, ?_, fun _ => ?_, fun slot above below => ?_⟩
    · simp [init_apply, first]
    · simp [init_apply, last]
    · rw [first] at above
      rw [last] at below
      rw [init_apply, if_neg (by omega), if_neg (by omega), if_neg (by omega)]
  have tiled : Tiles Block.size (BlockAt LargeObject.init) LargeChunk.begin [freshBlock] largeChunkSize :=
    ⟨here, show LargeChunk.begin + freshBlock.size = largeChunkSize by decide⟩
  refine ⟨⟨⟨_, tiled⟩, ?_, ?_⟩, fun {position block} => ?_⟩
  · simp [init_apply, first, BoundaryTag.initSentinel, BoundaryTag.setFree, BoundaryTag.setOwner]
  · rw [init_apply, if_pos (by decide)]
    rfl
  · rw [HasBlock, (blockAt_proper _).has_iff tiled]
    simp [placed]

end WebNode.Bmalloc
