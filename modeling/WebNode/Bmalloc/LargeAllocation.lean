import Mathlib.Algebra.Order.Ring.Nat
import WebNode.Bmalloc.LargeOperations

/-! Taking objects out of free lists, and what allocation, deallocation and scavenging
do to the invariant of large objects. -/
namespace WebNode.Bmalloc

open SegregatedFreeList

/-- A way of taking from the lists of an owner that finds what fits if it comes last in
the last list. -/
structure Taking (takeSome : Memory → Owner → SegregatedFreeList → Option LargeObject × SegregatedFreeList)
    (fits : Memory → LargeObject → Bool) : Prop where
  takes : ∀ memory owner lists, TakesFrom memory owner (fits memory) lists (takeSome memory owner lists).1
    (takeSome memory owner lists).2
  last : ∀ {memory owner lists front entry}, (lists (select freshBlock.size)).vector = front ++ [entry] →
    isValidEntry memory owner entry = true → fits memory (LargeObject.ofAddress memory entry.begin) = true →
    (takeSome memory owner lists).1 ≠ none

section Taking

theorem halvings_le {count exponent : Nat} (less : count < 2 ^ exponent) : halvings count ≤ exponent := by
  induction exponent generalizing count with
  | zero =>
    obtain rfl : count = 0 := by omega
    rw [halvings]
    simp
  | succ exponent ih =>
    rw [halvings]
    split
    · exact Nat.zero_le _
    · have half : halvings (count / 2) ≤ exponent := ih (by rw [Nat.pow_succ] at less; omega)
      omega

theorem select_freshBlock : select freshBlock.size = 18 := by decide +kernel

theorem select_le {size : Nat} (small : size ≤ freshBlock.size) : select size ≤ 18 := by
  refine halvings_le ?_
  have fresh : freshBlock.size = 16711680 := rfl
  simp only [largeMin, mediumMax, largeAlignment]
  omega

/-- The two best fit searches, for objects that are not larger than a fresh one. -/
theorem taking_fitting {fits : Memory → LargeObject → Bool} {size : Nat} (small : size ≤ freshBlock.size) :
    Taking (fun memory owner => takeFrom (fun list => list.takeFitting memory owner (fits memory))
      (indicesFrom (select size))) fits := by
  refine ⟨fun memory owner lists => takeFrom_takes (fun list => (FreeList.takeFitting_spec list).1) _ _, ?_⟩
  intro memory owner lists front entry vector valid fit missed
  have inside : select freshBlock.size ∈ indicesFrom (select size) := by
    have low := select_le small
    rw [indicesFrom, listCount, List.mem_range'_1, select_freshBlock]
    omega
  have nothing := takeFrom_none (List.nodup_range' ..) missed inside
  have unfit := (FreeList.takeFitting_spec _).2 nothing entry (by
    rw [vector, List.drop_append_of_le_length (by simp [freeListSearchDepth])]
    simp) valid
  rw [fit] at unfit
  cases unfit

theorem taking_take {size : Nat} (small : size ≤ freshBlock.size) :
    Taking (fun memory owner => SegregatedFreeList.take memory owner size)
      fun memory => FreeList.fitsSize memory size := taking_fitting small

theorem taking_takeAligned (alignment unalignedSize : Nat) {size : Nat} (small : size ≤ freshBlock.size) :
    Taking (fun memory owner => SegregatedFreeList.takeAligned memory owner alignment size unalignedSize)
      fun memory => FreeList.fitsAligned memory alignment size unalignedSize := taking_fitting small

end Taking

section Allocate

variable {heap : LargeHeap} {pending : List Nat} {live : List Range} {scavenged : List LargeObject}
  {address size wanted fresh : Nat} {owner : Owner}
  {takeSome : Memory → Owner → SegregatedFreeList → Option LargeObject × SegregatedFreeList}
  {fits : Memory → LargeObject → Bool}

theorem LargeInvariant.takeWith (invariant : LargeInvariant heap pending live scavenged)
    (takes : ∀ memory owner lists, TakesFrom memory owner (fits memory) lists (takeSome memory owner lists).1
      (takeSome memory owner lists).2) (owner : Owner) :
    ∃ later, (heap.takeWith owner takeSome = (none, later) ∧ LargeInvariant later pending live scavenged ∧
        later.superChunks = heap.superChunks) ∨
      ∃ address size, heap.takeWith owner takeSome = (some (.spanning address size), later) ∧
        LargeInvariant later (address :: pending) live scavenged ∧ later.Has address size true owner ∧
        fits later.memory (.spanning address size) = true := by
  refine ⟨heap.setFreeLists owner (takeSome heap.memory owner (heap.freeLists owner)).2, ?_⟩
  rcases invariant.take (takes heap.memory owner (heap.freeLists owner)) with
    ⟨missed, kept⟩ | ⟨address, size, found, has, fit, kept⟩
  · exact .inl ⟨by rw [LargeHeap.takeWith, ← missed], kept, rfl⟩
  · exact .inr ⟨address, size, by rw [LargeHeap.takeWith, ← found], kept, has, fit⟩

/-- Growing makes room for a search that a fresh object fits. -/
theorem LargeInvariant.takeWith_grow (invariant : LargeInvariant heap pending live scavenged)
    (taking : Taking takeSome fits) (isFresh : fresh ∉ heap.superChunks)
    (fitsFresh : ∀ memory object, object.size memory = freshBlock.size → fits memory object = true) :
    ((heap.grow fresh).takeWith .vmHeap takeSome).1 ≠ none := by
  obtain ⟨grown, has, front, vector⟩ := invariant.grow isFresh
  have sizeEq := has.size_eq freshBlock.size
  have object := has.ofAddress
  obtain ⟨isMarked, holds⟩ := has
  refine taking.last vector ?_ ?_
  · exact (grown.tiled.isValidEntry_iff holds.placed).mpr ⟨_, holds, rfl, rfl, rfl⟩
  · exact fitsFresh _ _ (by rw [object, sizeEq])

/-- The VM heap finds an object, in a fresh chunk if not before. -/
theorem LargeInvariant.vmTake (invariant : LargeInvariant heap pending live scavenged)
    (taking : Taking takeSome fits) (isFresh : fresh ∉ heap.superChunks)
    (fitsFresh : ∀ memory object, object.size memory = freshBlock.size → fits memory object = true) :
    ∃ later address size, heap.vmTake fresh takeSome = some (.spanning address size, later) ∧
      LargeInvariant later (address :: pending) live scavenged ∧ later.Has address size true .vmHeap ∧
      fits later.memory (.spanning address size) = true := by
  unfold LargeHeap.vmTake
  obtain ⟨missing, ⟨missed, kept, known⟩ | ⟨address, size, found, rest⟩⟩ := invariant.takeWith taking.takes .vmHeap
  · rw [missed]
    obtain ⟨later, ⟨again, _⟩ | ⟨address, size, found, rest⟩⟩ :=
      (kept.grow (known ▸ isFresh)).1.takeWith taking.takes .vmHeap
    · exact absurd (congrArg Prod.fst again) (kept.takeWith_grow taking (known ▸ isFresh) fitsFresh)
    · exact ⟨later, address, size, by simp only [found], rest⟩
  · exact ⟨missing, address, size, by simp only [found], rest⟩

/-- An object that the VM heap hands to the heap. -/
theorem LargeInvariant.vmAllocateObject (invariant : LargeInvariant heap (address :: pending) live scavenged)
    (has : heap.Has address size true .vmHeap) (least : largeMin ≤ wanted) (aligned : wanted % largeAlignment = 0)
    (enough : wanted ≤ size) :
    ∃ later span, heap.vmAllocateObject (.spanning address size) wanted = (later, .spanning address span) ∧
      LargeInvariant later (address :: pending) live scavenged ∧ later.Has address span true .heap ∧
      wanted ≤ span := by
  obtain ⟨trimmed, span, result, kept, hasSpan, fits⟩ := invariant.trim has least aligned enough
  obtain ⟨owned, hasOwned⟩ := kept.setOwner hasSpan .heap
  refine ⟨trimmed.setOwner (.spanning address span) .heap, span, ?_, owned, hasOwned, fits⟩
  simp only [LargeHeap.vmAllocateObject, result, LargeObject.spanning_begin, hasOwned.ofAddress]

/-- A free object of the heap becomes a live allocation. -/
theorem LargeInvariant.allocateObject (invariant : LargeInvariant heap (address :: pending) live scavenged)
    (has : heap.Has address size true .heap) (least : largeMin ≤ wanted) (aligned : wanted % largeAlignment = 0)
    (enough : wanted ≤ size) :
    ∃ later, heap.allocateObject (.spanning address size) wanted = (address, later) ∧
      LargeInvariant later pending (⟨address, wanted⟩ :: live) scavenged := by
  obtain ⟨trimmed, span, result, kept, hasSpan, fits⟩ := invariant.trim has least aligned enough
  obtain ⟨used, hasUsed⟩ := kept.setFree_false hasSpan
  have notLive : address ∉ live.map Range.begin := by
    intro member
    obtain ⟨range, inside, rfl⟩ := List.mem_map.mp member
    obtain ⟨_, inUse, _⟩ := invariant.inUse range inside
    cases (has.unique inUse).2.1
  refine ⟨trimmed.setFree (.spanning address span) false, ?_, used.tiled, used.placed, used.listed, ?_, ?_,
    used.inFlight, used.scavengedOnce⟩
  · simp only [LargeHeap.allocateObject, result, LargeObject.spanning_begin]
  · intro range member
    rcases List.mem_cons.mp member with rfl | old
    · exact ⟨span, hasUsed, fits⟩
    · exact used.inUse range old
  · exact List.nodup_cons.mpr ⟨notLive, used.liveOnce⟩

theorem LargeHeap.Has.fitsSize {isFree : Bool} (has : heap.Has address size isFree owner)
    (fits : FreeList.fitsSize heap.memory wanted (.spanning address size) = true) : wanted ≤ size := by
  rw [FreeList.fitsSize, has.size_eq] at fits
  exact of_decide_eq_true fits

/-- An allocation is served, in a fresh chunk if nothing else does. -/
theorem LargeInvariant.allocateLarge (invariant : LargeInvariant heap pending live scavenged)
    (large : LargeState.IsLargeSize wanted) (isFresh : fresh ∉ heap.superChunks) :
    ∃ address later, heap.allocateLarge wanted fresh = some (address, later) ∧
      LargeInvariant later pending (⟨address, wanted⟩ :: live) scavenged := by
  obtain ⟨least, aligned, most⟩ := large
  have small : wanted ≤ freshBlock.size := by
    simp only [largeMax, largeChunkSize_eq, largeAlignment] at most
    simp only [freshBlock, largeChunkSize_eq, LargeChunk.begin_eq]
    omega
  have taking := taking_take small
  unfold LargeHeap.allocateLarge
  obtain ⟨before, ⟨missed, kept, known⟩ | ⟨address, size, found, kept, has, fits⟩⟩ :=
    invariant.takeWith taking.takes .heap
  · obtain ⟨taken, address, size, found, keptTaken, has, fits⟩ := kept.vmTake taking (known ▸ isFresh)
      fun memory object same => by simp [FreeList.fitsSize, same, small]
    obtain ⟨given, span, result, keptGiven, hasGiven, enough⟩ :=
      keptTaken.vmAllocateObject has least aligned (has.fitsSize fits)
    obtain ⟨later, allocated, keptLater⟩ := keptGiven.allocateObject hasGiven least aligned enough
    refine ⟨address, later, ?_, keptLater⟩
    simp only [missed, LargeHeap.vmAllocateLargeObject, found, Option.map_some, result, allocated]
  · obtain ⟨later, allocated, keptLater⟩ := kept.allocateObject has least aligned (has.fitsSize fits)
    exact ⟨address, later, by simp only [found, allocated], keptLater⟩

end Allocate

section Align

variable {heap : LargeHeap} {pending : List Nat} {live : List Range} {scavenged : List LargeObject}
  {address size alignment wanted fresh : Nat} {owner : Owner}

theorem and_mask_eq {exponent : Nat} (x : Nat) : x &&& (2 ^ exponent - 1) = x % 2 ^ exponent :=
  Nat.and_two_pow_sub_one_eq_mod x exponent

theorem LargeHeap.roundUpToMultipleOf_spec (exponent x : Nat) :
    x ≤ roundUpToMultipleOf (2 ^ exponent) x ∧ roundUpToMultipleOf (2 ^ exponent) x < x + 2 ^ exponent ∧
      roundUpToMultipleOf (2 ^ exponent) x % 2 ^ exponent = 0 := by
  have positive : 0 < 2 ^ exponent := Nat.two_pow_pos exponent
  rw [roundUpToMultipleOf, and_mask_eq]
  obtain ⟨divisor, same⟩ : ∃ divisor, 2 ^ exponent = divisor := ⟨_, rfl⟩
  rw [same] at positive ⊢
  have less := Nat.mod_lt (x + (divisor - 1)) positive
  refine ⟨by omega, by omega, Nat.sub_mod_eq_zero_of_mod_eq (Nat.mod_mod _ _).symm⟩

/-- Powers of two that are no finer than `largeAlignment` are multiples of it. -/
theorem dvd_of_coarse {exponent : Nat} (coarse : largeAlignment ≤ 2 ^ exponent) : largeAlignment ∣ 2 ^ exponent :=
  Nat.pow_dvd_pow 2 (show 6 ≤ exponent from (Nat.pow_le_pow_iff_right Nat.one_lt_two).mp coarse)

/-- Objects in which an aligned part of the wanted size has room. -/
def Roomy (alignment wanted address size : Nat) : Prop :=
  wanted ≤ size ∧ (address % alignment ≠ 0 → largeMin + alignment + wanted ≤ size)

theorem LargeHeap.Has.fitsAligned {isFree : Bool} {exponent : Nat} (has : heap.Has address size isFree owner)
    (fits : FreeList.fitsAligned heap.memory (2 ^ exponent) wanted (largeMin + 2 ^ exponent + wanted)
      (.spanning address size) = true) : Roomy (2 ^ exponent) wanted address size := by
  simp only [FreeList.fitsAligned, has.size_eq, LargeObject.spanning_begin, and_mask_eq, Bool.and_eq_true,
    decide_eq_true_eq, Bool.not_eq_true', Bool.and_eq_false_iff, decide_eq_false_iff_not] at fits
  exact ⟨fits.1, fun unaligned => fits.2.elim (absurd unaligned) Nat.le_of_not_lt⟩

theorem fitsAligned_of_le {memory : Memory} {object : LargeObject} {unalignedSize : Nat}
    (shorter : wanted ≤ unalignedSize) (enough : unalignedSize ≤ object.size memory) :
    FreeList.fitsAligned memory alignment wanted unalignedSize object = true := by
  have most : wanted ≤ object.size memory := Nat.le_trans shorter enough
  simp only [FreeList.fitsAligned, most, Nat.not_lt.mpr enough, decide_true, decide_false, Bool.and_false,
    Bool.not_false, Bool.and_self]

theorem LargeHeap.Has.aligned {isFree : Bool} (has : heap.Has address size isFree owner) :
    address % largeAlignment = 0 := by
  obtain ⟨_, holds⟩ := has
  have numbers := holds.fits.numbers
  simp only [largeChunkSize_eq, largeAlignment] at numbers ⊢
  omega

/-- The aligned part of a roomy object, with the part before it listed. -/
theorem LargeInvariant.align {exponent : Nat} (invariant : LargeInvariant heap (address :: pending) live scavenged)
    (has : heap.Has address size true .heap) (least : largeMin ≤ wanted) (coarse : largeAlignment ≤ 2 ^ exponent)
    (roomy : Roomy (2 ^ exponent) wanted address size) :
    ∃ later start span, heap.align (.spanning address size) (2 ^ exponent) = (later, .spanning start span) ∧
      LargeInvariant later (start :: pending) live scavenged ∧ later.Has start span true .heap ∧
      wanted ≤ span ∧ start % 2 ^ exponent = 0 := by
  unfold LargeHeap.align
  simp only [LargeObject.spanning_begin, and_mask_eq]
  split
  · rename_i unaligned
    have room := roomy.2 unaligned
    obtain ⟨above, below, multiple⟩ := LargeHeap.roundUpToMultipleOf_spec exponent (address + largeMin)
    obtain ⟨target, targetEq⟩ : ∃ target, LargeHeap.roundUpToMultipleOf (2 ^ exponent) (address + largeMin) = target :=
      ⟨_, rfl⟩
    rw [targetEq] at above below multiple ⊢
    have fine : target % largeAlignment = 0 :=
      Nat.mod_eq_zero_of_dvd ((dvd_of_coarse coarse).trans (Nat.dvd_of_mod_eq_zero multiple))
    have start := has.aligned
    have prefixAligned : (target - address) % largeAlignment = 0 :=
      Nat.sub_mod_eq_zero_of_mod_eq (fine.trans start.symm)
    obtain ⟨later, result, kept, first, second⟩ :=
      invariant.split has (show largeMin ≤ target - address by omega) prefixAligned (by omega)
    obtain ⟨inserted, same, _⟩ := kept.insert first
    refine ⟨later.insert .heap (.spanning address (target - address)), address + (target - address),
      size - (target - address), by rw [result], inserted, second.insert same, by omega, ?_⟩
    rwa [Nat.add_sub_cancel' (by omega)]
  · rename_i aligned
    exact ⟨heap, address, size, rfl, invariant, has, roomy.1, Decidable.not_not.mp aligned⟩

theorem LargeInvariant.allocateAligned {exponent : Nat}
    (invariant : LargeInvariant heap (address :: pending) live scavenged) (has : heap.Has address size true .heap)
    (least : largeMin ≤ wanted) (aligned : wanted % largeAlignment = 0) (coarse : largeAlignment ≤ 2 ^ exponent)
    (roomy : Roomy (2 ^ exponent) wanted address size) :
    ∃ start later, heap.allocateAligned (.spanning address size) (2 ^ exponent) wanted = (start, later) ∧
      LargeInvariant later pending (⟨start, wanted⟩ :: live) scavenged ∧ start % 2 ^ exponent = 0 := by
  obtain ⟨cut, start, span, result, kept, hasStart, enough, multiple⟩ := invariant.align has least coarse roomy
  obtain ⟨later, allocated, keptLater⟩ := kept.allocateObject hasStart least aligned enough
  refine ⟨start, later, ?_, keptLater, multiple⟩
  rw [LargeHeap.allocateAligned, result]
  exact allocated

/-- The VM heap trims an aligned object to the wanted size, others to the unaligned one. -/
theorem LargeInvariant.vmAllocateLargeObjectAligned {exponent : Nat}
    (invariant : LargeInvariant heap pending live scavenged) (isFresh : fresh ∉ heap.superChunks)
    (least : largeMin ≤ wanted) (aligned : wanted % largeAlignment = 0) (coarse : largeAlignment ≤ 2 ^ exponent)
    (small : largeMin + 2 ^ exponent + wanted ≤ freshBlock.size) :
    ∃ later address size,
      heap.vmAllocateLargeObjectAligned (2 ^ exponent) wanted (largeMin + 2 ^ exponent + wanted) fresh =
        some (later, .spanning address size) ∧
      LargeInvariant later (address :: pending) live scavenged ∧ later.Has address size true .heap ∧
      Roomy (2 ^ exponent) wanted address size := by
  have taking := taking_takeAligned (2 ^ exponent) (largeMin + 2 ^ exponent + wanted)
    (Nat.le_trans (Nat.le_add_left wanted _) small)
  obtain ⟨taken, address, size, found, kept, has, fits⟩ :=
    invariant.vmTake taking isFresh fun _ _ same => fitsAligned_of_le (Nat.le_add_left ..) (same ▸ small)
  have roomy := has.fitsAligned fits
  have fine := Nat.mod_eq_zero_of_dvd (dvd_of_coarse coarse)
  simp only [LargeHeap.vmAllocateLargeObjectAligned, found, Option.map_some, LargeObject.spanning_begin, and_mask_eq]
  split
  · rename_i unaligned
    have unalignedAligned : (largeMin + 2 ^ exponent + wanted) % largeAlignment = 0 := by
      simp only [largeMin, mediumMax, largeAlignment] at fine aligned ⊢
      omega
    obtain ⟨later, span, result, keptLater, hasLater, enough⟩ :=
      kept.vmAllocateObject has (Nat.le_trans (Nat.le_add_right ..) (Nat.le_add_right ..)) unalignedAligned
        (roomy.2 unaligned)
    exact ⟨later, address, span, by rw [result], keptLater, hasLater, by omega, fun _ => enough⟩
  · rename_i multiple
    obtain ⟨later, span, result, keptLater, hasLater, enough⟩ := kept.vmAllocateObject has least aligned roomy.1
    exact ⟨later, address, span,
      by rw [result], keptLater, hasLater, enough, fun unaligned => absurd unaligned multiple⟩

/-- An aligned allocation is served, and aligned. -/
theorem LargeInvariant.allocateLargeAligned (invariant : LargeInvariant heap pending live scavenged)
    (request : LargeState.IsAlignedRequest alignment wanted) (isFresh : fresh ∉ heap.superChunks) :
    ∃ start later, heap.allocateLargeAligned alignment wanted (largeMin + alignment + wanted) fresh =
      some (start, later) ∧ LargeInvariant later pending (⟨start, wanted⟩ :: live) scavenged ∧
      start % alignment = 0 := by
  obtain ⟨⟨least, aligned, _⟩, coarse, ⟨exponent, _, rfl⟩, _, most⟩ := request
  have small : largeMin + 2 ^ exponent + wanted ≤ freshBlock.size := by
    simp only [largeMax, largeChunkSize_eq] at most
    simp only [freshBlock, largeChunkSize_eq, LargeChunk.begin_eq]
    omega
  have taking := taking_takeAligned (2 ^ exponent) (largeMin + 2 ^ exponent + wanted)
    (Nat.le_trans (Nat.le_add_left wanted _) small)
  unfold LargeHeap.allocateLargeAligned
  obtain ⟨before, ⟨missed, kept, known⟩ | ⟨address, size, found, kept, has, fits⟩⟩ :=
    invariant.takeWith taking.takes .heap
  · obtain ⟨given, address, size, result, keptGiven, hasGiven, roomy⟩ :=
      kept.vmAllocateLargeObjectAligned (known ▸ isFresh) least aligned coarse small
    obtain ⟨start, later, allocated, keptLater⟩ := keptGiven.allocateAligned hasGiven least aligned coarse roomy
    refine ⟨start, later, ?_, keptLater⟩
    simp only [missed, result, Option.map_some, allocated]
  · obtain ⟨start, later, allocated, keptLater⟩ :=
      kept.allocateAligned has least aligned coarse (has.fitsAligned fits)
    exact ⟨start, later, by simp only [found, allocated], keptLater⟩

end Align

section Release

variable {heap : LargeHeap} {live : List Range} {scavenged : List LargeObject} {address size : Nat}

theorem LargeInvariant.not_scavenged {pending : List Nat} {isFree : Bool} {owner : Owner}
    (invariant : LargeInvariant heap pending live scavenged) (has : heap.Has address size isFree owner)
    (other : isFree = true ∨ owner = .heap) : .spanning address size ∉ scavenged := by
  intro member
  obtain ⟨start, span, same, inFlight⟩ := invariant.inFlight _ member
  have begins := congrArg LargeObject.begin same
  rw [LargeObject.spanning_begin, LargeObject.spanning_begin] at begins
  subst begins
  obtain ⟨_, rfl, rfl⟩ := has.unique inFlight
  rcases other with free | heap
  · cases free
  · cases heap

/-- A live allocation that is freed is merged with its free neighbours and listed. -/
theorem LargeInvariant.deallocateLarge (invariant : LargeInvariant heap [] live scavenged)
    (member : address ∈ live.map Range.begin) :
    LargeInvariant (heap.deallocateLarge address) [] (live.filter fun range => range.begin ≠ address) scavenged := by
  obtain ⟨range, inside, rfl⟩ := List.mem_map.mp member
  obtain ⟨size, has, _⟩ := invariant.inUse range inside
  obtain ⟨freed, hasFreed⟩ :=
    invariant.setFree_true has (List.filter_sublist (p := fun other => other.begin ≠ range.begin))
    (List.Sublist.refl _) (by simp) (invariant.not_scavenged has (.inr rfl))
  obtain ⟨later, start, total, result, kept, hasMerged⟩ := freed.merge hasFreed
  simp only [LargeHeap.deallocateLarge, has.ofAddress, result]
  exact (kept.insert hasMerged).1

/-- What a scavenger takes is merged, and then in flight. -/
theorem LargeInvariant.scavengeBegin (invariant : LargeInvariant heap [] live scavenged) :
    LargeInvariant heap.scavengeBegin.2 [] live (heap.scavengeBegin.1.toList ++ scavenged) := by
  have takes (memory : Memory) (owner : Owner) (lists : SegregatedFreeList) :
      TakesFrom memory owner (fun _ => true) lists (takeGreedy memory owner lists).1
        (takeGreedy memory owner lists).2 :=
    takeFrom_takes (fun list => FreeList.takeGreedyLoop_takes list.vector) _ _
  unfold LargeHeap.scavengeBegin
  obtain ⟨taken, ⟨missed, kept, _⟩ | ⟨address, size, found, kept, has, _⟩⟩ := invariant.takeWith takes .heap
  · simp only [missed, Option.toList_none, List.nil_append]
    exact kept
  · obtain ⟨owned, hasOwned⟩ := kept.setOwner has .vmHeap
    obtain ⟨merged, start, total, result, keptMerged, hasMerged⟩ := owned.merge hasOwned
    obtain ⟨used, hasUsed⟩ := keptMerged.setFree_false hasMerged
    simp only [found, result, Option.toList_some, List.singleton_append]
    refine ⟨used.tiled, used.placed, used.listed, used.inUse, used.liveOnce, ?_,
      List.nodup_cons.mpr ⟨keptMerged.not_scavenged hasMerged (.inl rfl), used.scavengedOnce⟩⟩
    intro object member
    rcases List.mem_cons.mp member with rfl | old
    · exact ⟨start, total, rfl, hasUsed⟩
    · exact used.inFlight object old

theorem LargeInvariant.scavengeEnd (invariant : LargeInvariant heap [] live scavenged) {merged : LargeObject}
    (member : merged ∈ scavenged) :
    LargeInvariant (heap.scavengeEnd merged) [] live (scavenged.erase merged) := by
  obtain ⟨address, size, rfl, has⟩ := invariant.inFlight merged member
  have notLive : address ∉ live.map Range.begin := by
    intro begins
    obtain ⟨range, inside, rfl⟩ := List.mem_map.mp begins
    obtain ⟨_, inUse, _⟩ := invariant.inUse range inside
    cases (has.unique inUse).2.2
  obtain ⟨freed, hasFreed⟩ := invariant.setFree_true has (List.Sublist.refl _) (List.erase_sublist ..) notLive
    invariant.scavengedOnce.not_mem_erase
  exact (freed.insert hasFreed).1

end Release

/-- The invariant between critical sections. -/
def LargeState.Consistent (state : LargeState) : Prop := LargeInvariant state.heap [] state.live state.scavenged

theorem LargeState.Consistent.initial : LargeState.initial.Consistent := by
  have nothing {address : Nat} {block : Block} (holds : Holds [] LargeHeap.initial.memory address block) : False := by
    simpa using holds.known
  refine ⟨?_, ?_, ?_, ?_, List.nodup_nil, ?_, List.nodup_nil⟩
  · intro chunk member
    cases member
  · intro owner index entry member
    cases member
  · rintro address size owner ⟨_, holds⟩ _
    exact (nothing holds).elim
  · intro range member
    cases member
  · intro object member
    cases member

theorem LargeState.Consistent.step {state next : LargeState} {action : LargeAction} (consistent : state.Consistent)
    (stepped : state.step action = some next) : next.Consistent := by
  unfold Consistent at consistent
  cases action with
  | grow fresh =>
    simp only [LargeState.step, Option.ite_none_right_eq_some, Option.some.injEq] at stepped
    obtain ⟨isFresh, rfl⟩ := stepped
    exact (consistent.grow isFresh).1
  | allocateLarge size fresh =>
    simp only [LargeState.step, Option.ite_none_right_eq_some] at stepped
    obtain ⟨⟨large, isFresh⟩, stepped⟩ := stepped
    obtain ⟨address, later, result, kept⟩ := consistent.allocateLarge large isFresh
    rw [result, Option.map_some, Option.some.injEq] at stepped
    exact stepped ▸ kept
  | allocateLargeAligned alignment size fresh =>
    simp only [LargeState.step, Option.ite_none_right_eq_some] at stepped
    obtain ⟨⟨request, isFresh⟩, stepped⟩ := stepped
    obtain ⟨address, later, result, kept, _⟩ := consistent.allocateLargeAligned request isFresh
    rw [result, Option.map_some, Option.some.injEq] at stepped
    exact stepped ▸ kept
  | deallocateLarge address =>
    simp only [LargeState.step, Option.ite_none_right_eq_some, Option.some.injEq] at stepped
    obtain ⟨member, rfl⟩ := stepped
    exact consistent.deallocateLarge member
  | scavengeBegin =>
    simp only [LargeState.step, Option.some.injEq] at stepped
    exact stepped ▸ consistent.scavengeBegin
  | scavengeEnd merged =>
    simp only [LargeState.step, Option.ite_none_right_eq_some, Option.some.injEq] at stepped
    obtain ⟨member, rfl⟩ := stepped
    exact consistent.scavengeEnd member

theorem LargeReachable.consistent {state : LargeState} (reached : LargeReachable state) : state.Consistent := by
  induction reached with
  | initial => exact .initial
  | step _ stepped ih => exact ih.step stepped

end WebNode.Bmalloc
