import WebNode.Bmalloc.ChunkOperations
import WebNode.Bmalloc.FreeList

/-! The blocks of all chunks, by address, and which entries of free lists stand for one. -/
namespace WebNode.Bmalloc

open Tiling

/-- A block at an address in one of the given chunks. -/
structure Holds (chunks : List Nat) (memory : Memory) (address : Nat) (block : Block) : Prop where
  known : address / largeChunkSize ∈ chunks
  block : HasBlock (memory (address / largeChunkSize)) (address % largeChunkSize) block

def Tiled (chunks : List Nat) (memory : Memory) : Prop := ∀ chunk ∈ chunks, Chunk (memory chunk)

/-- The object at an address whose block has the given size. -/
def LargeObject.spanning (address size : Nat) : LargeObject :=
  .ofBlock (address / largeChunkSize) (address % largeChunkSize) size

section Blocks

variable {chunks : List Nat} {memory : Memory} {address otherAddress size : Nat} {block other : Block}

@[simp] theorem LargeObject.spanning_begin : (LargeObject.spanning address size).begin = address := by
  simp only [spanning, begin, ofBlock]
  exact Nat.div_add_mod' address largeChunkSize

@[simp] theorem LargeObject.spanning_chunk :
    (LargeObject.spanning address size).chunk = address / largeChunkSize := rfl

section Held

variable (holds : Holds chunks memory address block)

include holds

theorem Holds.ofAddress :
    LargeObject.ofAddress memory address = .spanning address block.size :=
  holds.block.ofPosition _

theorem Holds.fits :
    Fits (address % largeChunkSize) block.size := holds.block.at.fits

theorem Holds.tag (size : Nat) :
    (LargeObject.spanning address size).tag memory = block.tag (address % largeChunkSize) false :=
  holds.block.at.beginTag

theorem Holds.size_eq (size : Nat) :
    (LargeObject.spanning address size).size memory = block.size := by
  rw [LargeObject.size, holds.tag]
  rfl

theorem Holds.unique (otherHolds : Holds chunks memory address other) :
    block = other := (blockAt_proper _).unique holds.block.at otherHolds.block.at

/-- Blocks lie apart. -/
theorem Holds.apart (otherHolds : Holds chunks memory otherAddress other) :
    (address = otherAddress ∧ block = other) ∨ address + block.size ≤ otherAddress ∨
      otherAddress + other.size ≤ address := by
  have numbers := holds.fits.numbers
  have otherNumbers := otherHolds.fits.numbers
  by_cases same : address / largeChunkSize = otherAddress / largeChunkSize
  · have there := otherHolds.block
    rw [← same] at there
    have apart := (blockAt_proper _).has_apart holds.block there
    simp only [largeChunkSize_eq] at same apart numbers otherNumbers
    rcases apart with ⟨position, block⟩ | before | after
    · exact .inl ⟨by omega, block⟩
    · exact .inr (.inl (by omega))
    · exact .inr (.inr (by omega))
  · simp only [largeChunkSize_eq] at same numbers otherNumbers
    rcases Nat.lt_or_gt_of_ne same with before | after
    · exact .inr (.inl (by omega))
    · exact .inr (.inr (by omega))

end Held

/-- Every slot of a tiled interval belongs to a block. -/
theorem exists_block_of_slot {tags : Tags} {start stop slot : Nat} {blocks : List Block}
    (tiled : Tiles Block.size (BlockAt tags) start blocks stop) (above : LargeChunk.beginTag start ≤ slot)
    (below : slot < LargeChunk.beginTag stop) :
    ∃ position block, Has Block.size (BlockAt tags) start stop position block ∧
      LargeChunk.beginTag position ≤ slot ∧ slot < LargeChunk.beginTag (position + block.size) := by
  induction blocks generalizing start with
  | nil =>
    obtain rfl : start = stop := tiled
    omega
  | cons first rest ih =>
    by_cases inside : slot < LargeChunk.beginTag (start + first.size)
    · exact ⟨start, first, ⟨[], rest, rfl, tiled.1, tiled.2⟩, above, inside⟩
    · obtain ⟨position, block, has, found⟩ := ih tiled.2 (by omega)
      exact ⟨position, block,
        has.append_right (show Tiles Block.size (BlockAt tags) start [first] _ from ⟨tiled.1, rfl⟩), found⟩

/-- An entry of a free list lies where an object can start. -/
structure Placed (chunks : List Nat) (entry : Range) : Prop where
  known : entry.begin / largeChunkSize ∈ chunks
  above : LargeChunk.begin ≤ entry.begin % largeChunkSize
  aligned : entry.begin % largeChunkSize % largeAlignment = 0

theorem Holds.placed (holds : Holds chunks memory address block) : Placed chunks ⟨address, size⟩ :=
  ⟨holds.known, holds.fits.above, holds.fits.positionAligned⟩

/-- The slot and the compact begin tell where an object starts. -/
theorem position_of_tag {position other : Nat} (aligned : position % largeAlignment = 0)
    (otherAligned : other % largeAlignment = 0) (low : LargeChunk.begin ≤ position)
    (otherLow : LargeChunk.begin ≤ other) (slot : LargeChunk.beginTag position = LargeChunk.beginTag other)
    (compact : BoundaryTag.compactBeginOf position = BoundaryTag.compactBeginOf other) : position = other := by
  rw [LargeChunk.begin_eq] at low otherLow
  simp only [compactBeginOf_eq, beginTag_eq, largeAlignment] at *
  omega

/-- The test of an entry is exact, however stale the entry. -/
theorem Tiled.isValidEntry_iff (tiled : Tiled chunks memory) {owner : Owner} {entry : Range}
    (placed : Placed chunks entry) :
    isValidEntry memory owner entry = true ↔
      ∃ block, Holds chunks memory entry.begin block ∧ block.isFree = true ∧ block.owner = owner ∧
        block.size = entry.size := by
  constructor
  · intro valid
    simp only [isValidEntry, LargeObject.ofAddress, LargeObject.ofPosition, LargeObject.isValidAndFree,
      Bool.and_eq_true, Bool.not_eq_true', beq_iff_eq] at valid
    obtain ⟨⟨⟨⟨free, notEnd⟩, size⟩, compact⟩, owned⟩ := valid
    obtain ⟨⟨blocks, tiles⟩, _, _⟩ := tiled _ placed.known
    have above := beginTag_mono placed.above
    have below : LargeChunk.beginTag (entry.begin % largeChunkSize) < LargeChunk.beginTag largeChunkSize := by
      have bounded := Nat.mod_lt entry.begin (show 0 < largeChunkSize by decide)
      simp only [beginTag_eq, largeChunkSize_eq] at bounded ⊢
      omega
    obtain ⟨position, block, has, first, last⟩ := exists_block_of_slot tiles above below
    have here := has.at
    have slots := here.fits.slots
    by_cases atBegin : LargeChunk.beginTag (entry.begin % largeChunkSize) = LargeChunk.beginTag position
    · rw [atBegin, here.beginTag] at free size compact owned
      obtain rfl : position = entry.begin % largeChunkSize :=
        position_of_tag here.fits.positionAligned placed.aligned here.fits.above placed.above atBegin.symm compact
      exact ⟨block, ⟨placed.known, has⟩, free, owned, size⟩
    · by_cases atEnd : LargeChunk.beginTag (entry.begin % largeChunkSize) = LargeChunk.endTag position block.size
      · rw [atEnd, here.endTag (atEnd ▸ atBegin)] at notEnd
        simp [Block.tag] at notEnd
      · rw [here.interior _ (by omega) (by omega)] at free
        simp [BoundaryTag.null] at free
  · rintro ⟨block, holds, free, rfl, size⟩
    have here := holds.block.at.beginTag
    simp [isValidEntry, LargeObject.ofAddress, LargeObject.ofPosition, LargeObject.isValidAndFree, here, Block.tag,
      free, size]

end Blocks

/-- What a change of the tags of one chunk does to the blocks of all. -/
structure MemoryChange (chunks : List Nat) (memory later : Memory) (gone new : List (Nat × Block)) : Prop where
  tiled : Tiled chunks later
  back : ∀ {address block}, Holds chunks later address block →
    (Holds chunks memory address block ∧ (address, block) ∉ gone) ∨ (address, block) ∈ new
  forth : ∀ {address block}, Holds chunks memory address block →
    Holds chunks later address block ∨ (address, block) ∈ gone
  added : ∀ {address block}, (address, block) ∈ new → Holds chunks later address block
  removed : ∀ {address block}, (address, block) ∈ gone → Holds chunks memory address block

/-- The blocks of a chunk by address. -/
def byAddress (chunk : Nat) (entries : List (Nat × Block)) : List (Nat × Block) :=
  entries.map fun entry => (chunk * largeChunkSize + entry.1, entry.2)

section Changes

variable {chunks : List Nat} {memory : Memory} {address size : Nat} {block : Block}

theorem mem_byAddress {chunk : Nat} {entries : List (Nat × Block)} (inside : address / largeChunkSize = chunk) :
    (address, block) ∈ byAddress chunk entries ↔ (address % largeChunkSize, block) ∈ entries := by
  have whole := Nat.div_add_mod' address largeChunkSize
  rw [inside] at whole
  constructor
  · intro member
    obtain ⟨⟨position, found⟩, inEntries, same⟩ := List.mem_map.mp member
    obtain ⟨same, rfl⟩ := Prod.mk.inj same
    obtain rfl : position = address % largeChunkSize := by
      simp only at same
      omega
    exact inEntries
  · intro member
    exact List.mem_map.mpr ⟨_, member, by rw [whole]⟩

theorem Change.lift {chunk : Nat} {later : Tags} {gone new : List (Nat × Block)} (tiled : Tiled chunks memory)
    (known : chunk ∈ chunks) (change : Change (memory chunk) later gone new) :
    MemoryChange chunks memory (Function.update memory chunk later) (byAddress chunk gone) (byAddress chunk new) := by
  have here {address : Nat} {block : Block} (inside : address / largeChunkSize = chunk) :
      Holds chunks (Function.update memory chunk later) address block ↔
        HasBlock later (address % largeChunkSize) block := by
    refine ⟨fun holds => ?_, fun has => ⟨inside ▸ known, ?_⟩⟩
    · simpa [inside] using holds.block
    · simpa [inside] using has
  have before {address : Nat} {block : Block} (inside : address / largeChunkSize = chunk) :
      Holds chunks memory address block ↔ HasBlock (memory chunk) (address % largeChunkSize) block :=
    ⟨fun holds => inside ▸ holds.block, fun has => ⟨inside ▸ known, inside ▸ has⟩⟩
  have elsewhere {address : Nat} {block : Block} (outside : address / largeChunkSize ≠ chunk) :
      Holds chunks (Function.update memory chunk later) address block ↔ Holds chunks memory address block := by
    refine ⟨fun holds => ⟨holds.known, ?_⟩, fun holds => ⟨holds.known, ?_⟩⟩
    · simpa [outside] using holds.block
    · simpa [outside] using holds.block
  have inChunk {address : Nat} {block : Block} {tags : Tags} {entries : List (Nat × Block)}
      (held : ∀ {position block}, (position, block) ∈ entries → HasBlock tags position block)
      (member : (address, block) ∈ byAddress chunk entries) : address / largeChunkSize = chunk := by
    obtain ⟨⟨position, found⟩, inEntries, same⟩ := List.mem_map.mp member
    obtain ⟨rfl, rfl⟩ := Prod.mk.inj same
    have numbers := (held inEntries).at.fits.numbers
    simp only [largeChunkSize_eq]
    omega
  refine ⟨fun number inChunks => ?_, fun {address block} holds => ?_, fun {address block} holds => ?_,
    fun {address block} member => ?_, fun {address block} member => ?_⟩
  · by_cases same : number = chunk
    · subst same
      simpa using change.chunk
    · simpa [same] using tiled number inChunks
  · by_cases inside : address / largeChunkSize = chunk
    · rw [mem_byAddress inside, mem_byAddress inside, before inside]
      exact change.back ((here inside).mp holds)
    · exact .inl ⟨(elsewhere inside).mp holds, fun member => inside (inChunk change.removed member)⟩
  · by_cases inside : address / largeChunkSize = chunk
    · rw [mem_byAddress inside, here inside]
      exact change.forth ((before inside).mp holds)
    · exact .inl ((elsewhere inside).mpr holds)
  · have inside := inChunk change.added member
    exact (here inside).mpr (change.added ((mem_byAddress inside).mp member))
  · have inside := inChunk change.removed member
    exact (before inside).mpr (change.removed ((mem_byAddress inside).mp member))

theorem byAddress_singleton (address : Nat) (block : Block) :
    byAddress (address / largeChunkSize) [(address % largeChunkSize, block)] = [(address, block)] := by
  simp [byAddress, Nat.div_add_mod']

variable (tiled : Tiled chunks memory) (holds : Holds chunks memory address block)

include tiled holds

/-- Writing the tags of one block. -/
theorem Holds.modify {tags : Tags} {later : Block} (change : Change (memory (address / largeChunkSize)) tags
      [(address % largeChunkSize, block)] [(address % largeChunkSize, later)]) :
    MemoryChange chunks memory ((LargeObject.spanning address block.size).store memory tags)
      [(address, block)] [(address, later)] := by
  have lifted := change.lift tiled holds.known
  rwa [byAddress_singleton, byAddress_singleton] at lifted

theorem Holds.setFree (isFree : Bool) :
    MemoryChange chunks memory ((LargeObject.spanning address block.size).store memory
        ((LargeObject.spanning address block.size).setFree (memory (address / largeChunkSize)) isFree))
      [(address, block)] [(address, { block with isFree := isFree })] :=
  holds.modify tiled ((tiled _ holds.known).setFree _ holds.block isFree)

theorem Holds.setOwner (owner : Owner) :
    MemoryChange chunks memory ((LargeObject.spanning address block.size).store memory
        ((LargeObject.spanning address block.size).setOwner (memory (address / largeChunkSize)) owner))
      [(address, block)] [(address, { block with owner := owner })] :=
  holds.modify tiled ((tiled _ holds.known).setOwner _ holds.block owner)

theorem Holds.setMarked (isMarked : Bool) :
    MemoryChange chunks memory (FreeList.setMarked memory (.spanning address block.size) isMarked)
      [(address, block)] [(address, { block with isMarked := isMarked })] :=
  holds.modify tiled ((tiled _ holds.known).setMarked _ holds.block isMarked)

theorem Holds.split (least : largeMin ≤ size) (aligned : size % largeAlignment = 0)
    (leftover : size + largeMin ≤ block.size) :
    ∃ later, (LargeObject.spanning address block.size).split (memory (address / largeChunkSize)) size =
        (later, .spanning address size, .spanning (address + size) (block.size - size)) ∧
      MemoryChange chunks memory ((LargeObject.spanning address block.size).store memory later) [(address, block)]
        [(address, { block with size := size }), (address + size, { block with size := block.size - size })] := by
  obtain ⟨later, result, change⟩ :=
    (tiled _ holds.known).split (address / largeChunkSize) holds.block least aligned leftover
  have numbers := holds.fits.numbers
  have sizes : size + 1024 ≤ block.size := leftover
  have chunk : (address + size) / largeChunkSize = address / largeChunkSize := by
    simp only [largeChunkSize_eq] at numbers ⊢
    omega
  have position : (address + size) % largeChunkSize = address % largeChunkSize + size := by
    simp only [largeChunkSize_eq] at numbers ⊢
    omega
  refine ⟨later, ?_, ?_⟩
  · rw [LargeObject.spanning, result, LargeObject.spanning, LargeObject.spanning, chunk, position]
  · have lifted := change.lift tiled holds.known
    rw [byAddress_singleton] at lifted
    simp only [byAddress, List.map_cons, List.map_nil, ← Nat.add_assoc, Nat.div_add_mod'] at lifted
    exact lifted

theorem Holds.merge (free : block.isFree = true) :
    ∃ later start merged gone, (LargeObject.spanning address block.size).merge (memory (address / largeChunkSize)) =
        (later, .spanning start merged.size) ∧
      merged.isFree = true ∧ merged.owner = block.owner ∧ (address, block) ∈ gone ∧
      (∀ entry ∈ gone, entry.2.isFree = true ∧ entry.2.owner = block.owner) ∧
      MemoryChange chunks memory ((LargeObject.spanning address block.size).store memory later)
        gone [(start, merged)] := by
  obtain ⟨later, position, merged, gone, result, isFree, owner, own, goneFree, change⟩ :=
    (tiled _ holds.known).merge (address / largeChunkSize) holds.block free
  have bounded := (change.added (List.mem_singleton_self _)).at.fits.numbers
  have chunk : (address / largeChunkSize * largeChunkSize + position) / largeChunkSize = address / largeChunkSize := by
    simp only [largeChunkSize_eq]
    omega
  have offset : (address / largeChunkSize * largeChunkSize + position) % largeChunkSize = position := by
    simp only [largeChunkSize_eq]
    omega
  refine ⟨later, address / largeChunkSize * largeChunkSize + position, merged,
    byAddress (address / largeChunkSize) gone, ?_, isFree, owner, (mem_byAddress rfl).mpr own, ?_,
      change.lift tiled holds.known⟩
  · rw [LargeObject.spanning, result, LargeObject.spanning, chunk, offset]
  · intro entry member
    obtain ⟨found, inGone, rfl⟩ := List.mem_map.mp member
    exact goneFree found inGone

end Changes

/-- Memories whose blocks differ in their marks only. -/
structure SameBlocks (chunks : List Nat) (memory later : Memory) : Prop where
  tiled : Tiled chunks later
  back : ∀ {address block}, Holds chunks later address block →
    ∃ isMarked, Holds chunks memory address { block with isMarked := isMarked }
  forth : ∀ {address block}, Holds chunks memory address block →
    ∃ isMarked, Holds chunks later address { block with isMarked := isMarked }

namespace SameBlocks

variable {chunks : List Nat} {memory later last : Memory}

theorem refl (tiled : Tiled chunks memory) : SameBlocks chunks memory memory :=
  ⟨tiled, fun {_ block} holds => ⟨block.isMarked, holds⟩, fun {_ block} holds => ⟨block.isMarked, holds⟩⟩

theorem trans (first : SameBlocks chunks memory later) (second : SameBlocks chunks later last) :
    SameBlocks chunks memory last := by
  refine ⟨second.tiled, fun holds => ?_, fun holds => ?_⟩
  · obtain ⟨_, middle⟩ := second.back holds
    obtain ⟨isMarked, before⟩ := first.back middle
    exact ⟨isMarked, before⟩
  · obtain ⟨_, middle⟩ := first.forth holds
    obtain ⟨isMarked, after⟩ := second.forth middle
    exact ⟨isMarked, after⟩

theorem isValidEntry_eq (same : SameBlocks chunks memory later) (tiled : Tiled chunks memory) {owner : Owner}
    {entry : Range} (placed : Placed chunks entry) :
    isValidEntry later owner entry = isValidEntry memory owner entry := by
  rw [Bool.eq_iff_iff, same.tiled.isValidEntry_iff placed, tiled.isValidEntry_iff placed]
  constructor
  · rintro ⟨block, holds, state⟩
    obtain ⟨_, before⟩ := same.back holds
    exact ⟨_, before, state⟩
  · rintro ⟨block, holds, state⟩
    obtain ⟨_, after⟩ := same.forth holds
    exact ⟨_, after, state⟩

end SameBlocks

section Marks

variable {chunks : List Nat} {memory : Memory} {address : Nat} {block : Block}

theorem Holds.sameBlocks_setMarked (tiled : Tiled chunks memory) (holds : Holds chunks memory address block)
    (isMarked : Bool) :
    SameBlocks chunks memory (FreeList.setMarked memory (.spanning address block.size) isMarked) := by
  have change := holds.setMarked tiled isMarked
  refine ⟨change.tiled, fun {other found} after => ?_, fun {other found} before => ?_⟩
  · rcases change.back after with ⟨before, _⟩ | new
    · exact ⟨found.isMarked, before⟩
    · obtain ⟨rfl, rfl⟩ := Prod.mk.inj (List.mem_singleton.mp new)
      exact ⟨block.isMarked, holds⟩
  · rcases change.forth before with after | gone
    · exact ⟨found.isMarked, after⟩
    · obtain ⟨rfl, rfl⟩ := Prod.mk.inj (List.mem_singleton.mp gone)
      exact ⟨isMarked, change.added (List.mem_singleton_self _)⟩

end Marks

end WebNode.Bmalloc
