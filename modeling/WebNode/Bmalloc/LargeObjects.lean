import WebNode.Bmalloc.LargeAllocation

/-! What holds of large objects in every state that a process reaches: they tile their
chunks, none is handed out twice, and none that is free is lost. -/
namespace WebNode.Bmalloc

open SegregatedFreeList Tiling

/-- The offsets of the objects of a chunk from an offset on, if a walk by the sizes in
begin tags reaches the end of the chunk exactly. -/
def walk (tags : Tags) : Nat → Nat → Option (List Nat)
  | 0, offset => if offset = largeChunkSize then some [] else none
  | fuel + 1, offset =>
    if offset = largeChunkSize then some []
    else if largeChunkSize < offset then none
    else (walk tags fuel (offset + (tags (LargeChunk.beginTag offset)).size)).map (offset :: ·)

/-- A chunk has room for `largeChunkSize / largeMin` objects. -/
def LargeHeap.objects (heap : LargeHeap) (chunk : Nat) : Option (List Nat) :=
  walk (heap.memory chunk) (largeChunkSize / largeMin) LargeChunk.begin

/-- What the tags say of the object at an offset. -/
structure WellTagged (tags : Tags) (offset : Nat) : Prop where
  least : largeMin ≤ (tags (LargeChunk.beginTag offset)).size
  aligned : (tags (LargeChunk.beginTag offset)).size % largeAlignment = 0
  next : LargeChunk.beginTag (offset + (tags (LargeChunk.beginTag offset)).size) =
    LargeChunk.endTag offset (tags (LargeChunk.beginTag offset)).size + 1
  agree : ∀ {beginTag endTag}, tags (LargeChunk.beginTag offset) = beginTag →
    tags (LargeChunk.endTag offset beginTag.size) = endTag →
    endTag.size = beginTag.size ∧ endTag.isFree = beginTag.isFree ∧ endTag.owner = beginTag.owner ∧
      endTag.isMarked = beginTag.isMarked
  interior : ∀ slot, LargeChunk.beginTag offset < slot →
    slot < LargeChunk.endTag offset (tags (LargeChunk.beginTag offset)).size → tags slot = .null

section Walk

variable {tags : Tags} {start fuel : Nat} {blocks : List Block}

theorem BlockAt.wellTagged {position : Nat} {block : Block} (here : BlockAt tags position block) :
    WellTagged tags position := by
  have size : (tags (LargeChunk.beginTag position)).size = block.size := by
    rw [here.beginTag]
    rfl
  refine ⟨size ▸ here.fits.least, size ▸ here.fits.sizeAligned, ?_, ?_, ?_⟩
  · rw [size, here.fits.slots.2.2]
  · rintro beginTag endTag rfl rfl
    rw [size]
    by_cases shared : LargeChunk.endTag position block.size = LargeChunk.beginTag position
    · rw [shared]
      exact ⟨size, rfl, rfl, rfl⟩
    · rw [here.endTag shared, here.beginTag]
      exact ⟨rfl, rfl, rfl, rfl⟩
  · rw [size]
    exact here.interior

theorem walk_tiles (tiled : Tiles Block.size (BlockAt tags) start blocks largeChunkSize)
    (enough : blocks.length ≤ fuel) :
    walk tags fuel start = some ((placed Block.size start blocks).map Prod.fst) := by
  induction blocks generalizing start fuel with
  | nil =>
    obtain rfl : start = largeChunkSize := tiled
    cases fuel <;> simp [walk, placed]
  | cons block rest ih =>
    cases fuel with
    | zero => simp at enough
    | succ fuel =>
      have numbers := tiled.1.fits.numbers
      have inside : start < largeChunkSize := by
        rw [largeChunkSize_eq]
        omega
      have size : (tags (LargeChunk.beginTag start)).size = block.size := by
        rw [tiled.1.beginTag]
        rfl
      rw [walk, if_neg (Nat.ne_of_lt inside), if_neg (Nat.lt_asymm inside), size,
        ih tiled.2 (Nat.le_of_succ_le_succ enough)]
      rfl

theorem length_tiles (tiled : Tiles Block.size (BlockAt tags) start blocks largeChunkSize) :
    start + blocks.length * largeMin ≤ largeChunkSize := by
  induction blocks generalizing start with
  | nil =>
    obtain rfl : start = largeChunkSize := tiled
    simp
  | cons block rest ih =>
    have least := tiled.1.fits.least
    have later := ih tiled.2
    rw [List.length_cons, Nat.succ_mul]
    omega

/-- The walk finds exactly the blocks of a chunk. -/
theorem Chunk.walk (chunk : Chunk tags) :
    ∃ offsets, walk tags (largeChunkSize / largeMin) LargeChunk.begin = some offsets ∧
      ∀ {position}, position ∈ offsets ↔ ∃ block, HasBlock tags position block := by
  obtain ⟨blocks, tiled⟩ := chunk.tiles
  have most := length_tiles tiled
  have enough : blocks.length ≤ largeChunkSize / largeMin := by
    rw [Nat.le_div_iff_mul_le (by decide)]
    omega
  refine ⟨_, walk_tiles tiled enough, fun {position} => ?_⟩
  simp only [List.mem_map, Prod.exists, exists_and_right, exists_eq_right, HasBlock,
    (blockAt_proper tags).has_iff tiled]

end Walk

section Entries

variable {heap : LargeHeap} {owner : Owner} {entry : Range}

/-- An entry stands for an object of a chunk that its tags say is free. -/
structure IsFreeObject (heap : LargeHeap) (owner : Owner) (entry : Range) : Prop where
  walked : ∃ superChunk ∈ heap.superChunks, LargeHeap.largeChunk superChunk = entry.begin / largeChunkSize ∧
    ∃ offsets, heap.objects (entry.begin / largeChunkSize) = some offsets ∧ entry.begin % largeChunkSize ∈ offsets
  free : ∀ {tag}, (LargeObject.ofAddress heap.memory entry.begin).tag heap.memory = tag →
    tag.isFree = true ∧ tag.owner = owner ∧ tag.size = entry.size

theorem isFreeObject_iff (tiled : Tiled heap.chunks heap.memory) :
    IsFreeObject heap owner entry ↔ heap.Has entry.begin entry.size true owner := by
  constructor
  · rintro ⟨⟨superChunk, member, chunk, offsets, walked, inside⟩, free⟩
    have known : entry.begin / largeChunkSize ∈ heap.chunks := chunk ▸ List.mem_map_of_mem member
    obtain ⟨found, same, members⟩ := (tiled _ known).walk
    obtain rfl := Option.some.inj (walked.symm.trans same)
    obtain ⟨⟨size, isFree, who, isMarked⟩, has⟩ := members.mp inside
    have holds : Holds heap.chunks heap.memory entry.begin ⟨size, isFree, who, isMarked⟩ := ⟨known, has⟩
    obtain ⟨rfl, rfl, rfl⟩ := free (by rw [holds.ofAddress, holds.tag])
    exact ⟨isMarked, holds⟩
  · rintro ⟨isMarked, holds⟩
    obtain ⟨superChunk, member, chunk⟩ := List.mem_map.mp holds.known
    obtain ⟨offsets, walked, members⟩ := (tiled _ holds.known).walk
    refine ⟨⟨superChunk, member, chunk, offsets, walked, members.mpr ⟨_, holds.block⟩⟩, ?_⟩
    rintro tag rfl
    rw [holds.ofAddress, holds.tag]
    exact ⟨rfl, rfl, rfl⟩

end Entries

/-- The searches of the segregated free lists. -/
inductive Search where
  | take (size : Nat)
  | takeAligned (alignment size unalignedSize : Nat)
  | takeGreedy

namespace Search

def run : Search → Memory → Owner → SegregatedFreeList → Option LargeObject × SegregatedFreeList
  | .take size, memory, owner => SegregatedFreeList.take memory owner size
  | .takeAligned alignment size unalignedSize, memory, owner =>
    SegregatedFreeList.takeAligned memory owner alignment size unalignedSize
  | .takeGreedy, memory, owner => SegregatedFreeList.takeGreedy memory owner

def requested : Search → Nat
  | .take size => size
  | .takeAligned _ size _ => size
  | .takeGreedy => 0

end Search

/-- The heaps in which critical sections search: after a search that found nothing, and
after growing, too. -/
inductive SearchPoint (state : LargeState) : LargeHeap → Prop
  | entered : SearchPoint state state.heap
  | missed {heap later : LargeHeap} {owner : Owner} {search : Search} (point : SearchPoint state heap)
      (nothing : heap.takeWith owner search.run = (none, later)) : SearchPoint state later
  | grown {heap : LargeHeap} {fresh : Nat} (point : SearchPoint state heap) (isFresh : fresh ∉ heap.superChunks) :
      SearchPoint state (heap.grow fresh)

section Search

variable {state : LargeState} {heap : LargeHeap}

/-- Whether an object fits a search. -/
def Search.fits : Search → Memory → LargeObject → Bool
  | .take size, memory => FreeList.fitsSize memory size
  | .takeAligned alignment size unalignedSize, memory => FreeList.fitsAligned memory alignment size unalignedSize
  | .takeGreedy, _ => fun _ => true

theorem Search.takes (search : Search) (memory : Memory) (owner : Owner) (lists : SegregatedFreeList) :
    TakesFrom memory owner (search.fits memory) lists (search.run memory owner lists).1
      (search.run memory owner lists).2 := by
  cases search with
  | take size => exact takeFrom_takes (fun list => (FreeList.takeFitting_spec list).1) _ _
  | takeAligned alignment size unalignedSize =>
    exact takeFrom_takes (fun list => (FreeList.takeFitting_spec list).1) _ _
  | takeGreedy => exact takeFrom_takes (fun list => FreeList.takeGreedyLoop_takes list.vector) _ _

theorem Search.requested_le {search : Search} {memory : Memory} {object : LargeObject}
    (fits : search.fits memory object = true) : search.requested ≤ object.size memory := by
  cases search with
  | take size => exact of_decide_eq_true fits
  | takeAligned alignment size unalignedSize =>
    exact of_decide_eq_true (Bool.and_eq_true_iff.mp fits).1
  | takeGreedy => exact Nat.zero_le _

theorem SearchPoint.invariant (point : SearchPoint state heap) (consistent : state.Consistent) :
    LargeInvariant heap [] state.live state.scavenged := by
  induction point with
  | entered => exact consistent
  | missed _ nothing ih =>
    rename_i before _ owner search _
    obtain ⟨later, ⟨missed, kept, _⟩ | ⟨_, _, found, _⟩⟩ := ih.takeWith search.takes owner
    · obtain ⟨_, rfl⟩ := Prod.mk.inj (nothing.symm.trans missed)
      exact kept
    · cases (Prod.mk.inj (nothing.symm.trans found)).1
  | grown _ isFresh ih => exact (ih.grow isFresh).1

end Search

section Reached

variable {state : LargeState}

theorem LargeReachable.run {actions : List LargeAction} {next : LargeState} (reached : LargeReachable state)
    (ran : state.run actions = some next) : LargeReachable next := by
  induction actions generalizing state with
  | nil => exact Option.some.inj ran ▸ reached
  | cons action rest ih =>
    obtain ⟨middle, stepped, ranRest⟩ := Option.bind_eq_some_iff.mp ran
    exact ih (reached.step stepped) ranRest

/-- A run that ends in a state with a given property. -/
theorem exists_largeReachable (actions : List LargeAction) (p : LargeState → Bool)
    (checked : (LargeState.initial.run actions).any p = true) : ∃ state, LargeReachable state ∧ p state = true := by
  cases ran : LargeState.initial.run actions with
  | none => simp [ran] at checked
  | some state => exact ⟨state, LargeReachable.initial.run ran, by simpa [ran] using checked⟩

/-- Large objects tile their chunk, with consistent tags. -/
theorem LargeReachable.chunks_tiled (reached : LargeReachable state) {superChunk : Nat}
    (member : superChunk ∈ state.heap.superChunks) :
    ∃ offsets, state.heap.objects (LargeHeap.largeChunk superChunk) = some offsets ∧
      ∀ offset ∈ offsets, WellTagged (state.heap.memory (LargeHeap.largeChunk superChunk)) offset := by
  have chunk := reached.consistent.tiled _ (List.mem_map_of_mem member)
  obtain ⟨offsets, walked, members⟩ := chunk.walk
  refine ⟨offsets, walked, fun offset inside => ?_⟩
  obtain ⟨block, has⟩ := members.mp inside
  exact has.at.wellTagged

/-- A chunk with a live object between the two parts of a freed one, and one in flight. -/
theorem LargeReachable.chunks_tiled_three : ∃ state, LargeReachable state ∧ state.scavenged.length = 1 ∧
    state.heap.objects (LargeHeap.largeChunk 1) = some [65536, 69632, 70720] ∧
    ∃ offsets, state.heap.objects (LargeHeap.largeChunk 1) = some offsets ∧
      ∀ offset ∈ offsets, WellTagged (state.heap.memory (LargeHeap.largeChunk 1)) offset := by
  obtain ⟨state, reached, holds⟩ := exists_largeReachable
    [.allocateLarge 2048 1, .allocateLargeAligned 4096 1088 2, .deallocateLarge 33619968, .scavengeBegin]
    (fun state => 1 ∈ state.heap.superChunks ∧ state.scavenged.length = 1 ∧
      state.heap.objects (LargeHeap.largeChunk 1) = some [65536, 69632, 70720]) (by decide +kernel)
  obtain ⟨member, one, walked⟩ := of_decide_eq_true holds
  exact ⟨state, reached, one, walked, reached.chunks_tiled member⟩

/-- What a search returns is free and large enough, and live allocations are disjoint. -/
theorem LargeReachable.handed_out_once (reached : LargeReachable state) :
    (∀ heap, SearchPoint state heap → ∀ owner (search : Search) object,
      (heap.takeWith owner search.run).1 = some object →
        IsFreeObject heap owner ⟨object.begin, object.size heap.memory⟩ ∧
        object = LargeObject.ofAddress heap.memory object.begin ∧ search.requested ≤ object.size heap.memory) ∧
      state.live.Pairwise fun range other =>
        range.begin + range.size ≤ other.begin ∨ other.begin + other.size ≤ range.begin := by
  have consistent := reached.consistent
  refine ⟨fun heap point owner search object taken => ?_, ?_⟩
  · have invariant := point.invariant consistent
    rcases invariant.take (search.takes heap.memory owner (heap.freeLists owner)) with
      ⟨missed, _⟩ | ⟨address, size, found, has, fits, _⟩
    · cases missed.symm.trans taken
    · obtain rfl := Option.some.inj (found.symm.trans taken)
      have requested := Search.requested_le fits
      rw [LargeObject.spanning_begin, has.size_eq size] at *
      exact ⟨(isFreeObject_iff invariant.tiled).mpr has, has.ofAddress.symm, requested⟩
  · have distinct := List.pairwise_map.mp consistent.liveOnce
    refine distinct.imp_of_mem fun {range other} inLive otherLive different => ?_
    obtain ⟨size, ⟨_, holds⟩, fits⟩ := consistent.inUse range inLive
    obtain ⟨otherSize, ⟨_, otherHolds⟩, otherFits⟩ := consistent.inUse other otherLive
    rcases holds.apart otherHolds with ⟨same, _⟩ | before | after
    · exact absurd same different
    · exact .inl (Nat.le_trans (Nat.add_le_add_left fits _) before)
    · exact .inr (Nat.le_trans (Nat.add_le_add_left otherFits _) after)

/-- Two live allocations, one of them in memory that was used before. -/
theorem LargeReachable.handed_out_once_twice : ∃ state, LargeReachable state ∧
    state.live = [⟨33619968, 3072⟩, ⟨33624064, 1088⟩] ∧
    state.live.Pairwise fun range other =>
      range.begin + range.size ≤ other.begin ∨ other.begin + other.size ≤ range.begin := by
  obtain ⟨state, reached, holds⟩ := exists_largeReachable
    [.allocateLarge 2048 1, .allocateLargeAligned 4096 1088 2, .deallocateLarge 33619968, .allocateLarge 3072 3]
    (fun state => state.live = [⟨33619968, 3072⟩, ⟨33624064, 1088⟩]) (by decide +kernel)
  exact ⟨state, reached, of_decide_eq_true holds, reached.handed_out_once.2⟩

/-- Free objects are listed, exactly once after a cleanup, and a search after growing
finds one. The sizes are those that the callers assert. -/
theorem LargeReachable.free_listed (reached : LargeReachable state) :
    (∀ owner entry, IsFreeObject state.heap owner entry →
      entry ∈ (state.heap.freeLists owner (select entry.size)).vector) ∧
    (∀ owner index cleaned, (FreeList.removeInvalidAndDuplicateEntries state.heap.memory owner
        (state.heap.freeLists owner index).vector).2 = cleaned →
      cleaned.Nodup ∧ ∀ entry, entry ∈ cleaned ↔ IsFreeObject state.heap owner entry ∧ select entry.size = index) ∧
    ∀ heap, SearchPoint state heap → ∀ fresh ∉ heap.superChunks,
      (∀ size, largeMin ≤ size → size < largeMax + largeAlignment →
        ((heap.grow fresh).takeWith .vmHeap (Search.take size).run).1 ≠ none) ∧
      ∀ alignment size unalignedSize, largeMin ≤ size → size ≤ unalignedSize →
        unalignedSize < largeMax + largeAlignment →
        ((heap.grow fresh).takeWith .vmHeap (Search.takeAligned alignment size unalignedSize).run).1 ≠ none := by
  have consistent := reached.consistent
  have room : largeMax + largeAlignment ≤ freshBlock.size := by decide
  refine ⟨fun owner entry free => ?_, ?_, fun heap point fresh isFresh => ⟨?_, ?_⟩⟩
  · exact consistent.listed ((isFreeObject_iff consistent.tiled).mp free) List.not_mem_nil
  · rintro owner index _ rfl
    have placed := consistent.placed owner index
    obtain ⟨_, once, members⟩ := FreeList.removeInvalidAndDuplicateEntries_spec owner consistent.tiled
      fun entry member => (placed entry member).1
    refine ⟨once, fun entry => ?_⟩
    rw [members, isFreeObject_iff consistent.tiled]
    constructor
    · rintro ⟨member, valid⟩
      obtain ⟨⟨size, isFree, who, isMarked⟩, holds, rfl, rfl, rfl⟩ :=
        (consistent.tiled.isValidEntry_iff (placed entry member).1).mp valid
      exact ⟨⟨isMarked, holds⟩, (placed entry member).2⟩
    · rintro ⟨has, rfl⟩
      refine ⟨consistent.listed has List.not_mem_nil, ?_⟩
      obtain ⟨isMarked, holds⟩ := has
      exact (consistent.tiled.isValidEntry_iff holds.placed).mpr ⟨_, holds, rfl, rfl, rfl⟩
  · intro size _ most
    have small : size ≤ freshBlock.size := Nat.le_trans (Nat.le_of_lt most) room
    refine (point.invariant consistent).takeWith_grow (taking_take small) isFresh fun memory object same => ?_
    exact decide_eq_true (same ▸ small)
  · intro alignment size unalignedSize _ shorter most
    have small : unalignedSize ≤ freshBlock.size := Nat.le_trans (Nat.le_of_lt most) room
    refine (point.invariant consistent).takeWith_grow
      (taking_takeAligned alignment unalignedSize (Nat.le_trans shorter small)) isFresh fun memory object same => ?_
    exact fitsAligned_of_le shorter (same ▸ small)

/-- Growing for an allocation of the largest size, with memory of the heap in use. -/
theorem LargeReachable.free_listed_grow : ∃ state, LargeReachable state ∧ state.live.length = 1 ∧
    ((state.heap.grow 7).takeWith .vmHeap (Search.take 16609472).run).1 ≠ none := by
  obtain ⟨state, reached, holds⟩ := exists_largeReachable [.allocateLarge 2048 1]
    (fun state => state.live.length = 1 ∧ 7 ∉ state.heap.superChunks) (by decide +kernel)
  obtain ⟨one, isFresh⟩ := of_decide_eq_true holds
  exact ⟨state, reached, one,
    (reached.free_listed.2.2 state.heap .entered 7 isFresh).1 16609472 (by decide) (by decide)⟩

end Reached

end WebNode.Bmalloc
