import WebNode.Bmalloc.LargeAllocation
import WebNode.Lib.Alignment

/-!
# Aligned allocation of large objects

The large branch of `Allocator::allocate` of an alignment and a size. It rounds both up and adds them as
words of 64 bits before it compares with `largeMax`.
-/

namespace WebNode.Bmalloc

open Lib (alignUp alignUp_mod alignUp_of_fits alignUp_of_wraps)
open SegregatedFreeList

/-- The size, rounded up and at least `largeMin`. -/
def largeSizeOf (size : Nat) : Nat :=
  if largeMin < alignUp largeAlignment size then alignUp largeAlignment size else largeMin

def largeAlignmentOf (alignment : Nat) : Nat := alignUp largeAlignment alignment

def unalignedSizeOf (alignment size : Nat) : Nat := (largeMin + largeAlignmentOf alignment + largeSizeOf size) % 2 ^ 64

/-- The branch of `Allocator::allocate` that calls `Heap::allocateLarge` is taken. -/
def ReachesLarge (alignment size : Nat) : Prop :=
  unalignedSizeOf alignment size ≤ largeMax ∧ largeAlignmentOf alignment ≤ largeChunkSize / 2

def LargeHeap.allocateLargeRequest (heap : LargeHeap) (alignment size fresh : Nat) : Option (Nat × LargeHeap) :=
  heap.allocateLargeAligned (largeAlignmentOf alignment) (largeSizeOf size) (unalignedSizeOf alignment size) fresh

/-- The prefix that is split off an object with an unaligned address. -/
def prefixSize (alignment address : Nat) : Nat := LargeHeap.roundUpToMultipleOf alignment (address + largeMin) - address

/-- An aligned request is served: both pieces of every object that has to be split are objects, the address
is aligned, the object is large enough, and all that is left over is listed. -/
structure LargeHeap.Serves (heap : LargeHeap) (alignment size fresh : Nat) : Prop where
  pieces : ∀ (other : LargeHeap) (owner : Owner) (address span : Nat), other.Has address span true owner →
    FreeList.fitsAligned other.memory (largeAlignmentOf alignment) (largeSizeOf size) (unalignedSizeOf alignment size)
      (.spanning address span) = true →
    address &&& (largeAlignmentOf alignment - 1) ≠ 0 →
    largeMin ≤ prefixSize (largeAlignmentOf alignment) address ∧
      prefixSize (largeAlignmentOf alignment) address + largeMin ≤ span
  served : ∃ start later span, heap.allocateLargeRequest alignment size fresh = some (start, later) ∧
    start % alignment = 0 ∧
    later.Has start span false .heap ∧ size ≤ span ∧
    ∀ address rest owner, later.Has address rest true owner →
      ⟨address, rest⟩ ∈ (later.freeLists owner (select rest)).vector

variable {heap : LargeHeap} {exponent size fresh : Nat} {live : List Range} {scavenged : List LargeObject}

theorem largeAlignment_eq : largeAlignment = 2 ^ 6 := rfl

/-- A power of two is rounded up to one that is at least `largeAlignment`. -/
theorem largeAlignmentOf_pow (small : exponent < 64) :
    ∃ log < 64, largeAlignmentOf (2 ^ exponent) = 2 ^ log ∧ 6 ≤ log ∧ exponent ≤ log := by
  have top : 2 ^ exponent ≤ 2 ^ 63 := Nat.pow_le_pow_right (by decide) (by omega)
  obtain ⟨above, below⟩ := @alignUp_of_fits 6 (2 ^ exponent) (by decide) (by omega)
  have multiple := @alignUp_mod 6 (by decide) (2 ^ exponent)
  rw [largeAlignmentOf, largeAlignment_eq]
  rcases Nat.lt_or_ge exponent 6 with fine | coarse
  · have positive := Nat.two_pow_pos exponent
    have less : 2 ^ exponent ≤ 2 ^ 5 := Nat.pow_le_pow_right (by decide) (by omega)
    exact ⟨6, by decide, by omega, le_rfl, by omega⟩
  · have whole : 2 ^ exponent % 2 ^ 6 = 0 := Nat.mod_eq_zero_of_dvd (Nat.pow_dvd_pow 2 coarse)
    exact ⟨exponent, small, by omega, coarse, le_rfl⟩

theorem LargeHeap.Has.numbers {address span : Nat} {isFree : Bool} {owner : Owner}
    (has : heap.Has address span isFree owner) :
    1024 ≤ span ∧ span ≤ 16777216 := by
  obtain ⟨_, holds⟩ := has
  have fits : Fits _ span := holds.fits
  have numbers := fits.numbers
  omega

theorem largeSizeOf_spec (small : size ≤ largeMax) : size ≤ largeSizeOf size ∧ largeMin ≤ largeSizeOf size ∧
    largeSizeOf size % largeAlignment = 0 ∧ largeSizeOf size < largeMax + largeAlignment := by
  have most : largeMax = 16609443 := rfl
  have least : largeMin = 1024 := rfl
  obtain ⟨above, below⟩ := @alignUp_of_fits 6 size (by decide) (by omega)
  have multiple := @alignUp_mod 6 (by decide) size
  rw [largeSizeOf, largeAlignment_eq]
  split <;> omega

/-- Sizes up to `largeMax` that get here meet what the heap expects. -/
theorem isAlignedRequest {log : Nat} (logLt : log < 64) (coarse : 6 ≤ log) (small : size ≤ largeMax)
    (most : (largeMin + 2 ^ log + largeSizeOf size) % 2 ^ 64 ≤ largeMax) (half : 2 ^ log ≤ largeChunkSize / 2) :
    LargeState.IsAlignedRequest (2 ^ log) (largeSizeOf size) ∧
      (largeMin + 2 ^ log + largeSizeOf size) % 2 ^ 64 = largeMin + 2 ^ log + largeSizeOf size := by
  obtain ⟨_, least, aligned, below⟩ := largeSizeOf_spec small
  have fine : 2 ^ 6 ≤ 2 ^ log := Nat.pow_le_pow_right (by decide) coarse
  have fits : (largeMin + 2 ^ log + largeSizeOf size) % 2 ^ 64 = largeMin + 2 ^ log + largeSizeOf size := by
    rw [show largeMax = 16609443 from rfl, largeAlignment_eq] at below
    rw [show largeChunkSize = 16777216 from rfl] at half
    rw [show largeMin = 1024 from rfl]
    omega
  exact ⟨⟨⟨least, aligned, below⟩, fine, ⟨log, logLt, rfl⟩, half, fits ▸ most⟩, fits⟩

/-- The prefix has room, and leaves as much as is wanted. -/
theorem pieces_of_roomy {log wanted address span : Nat} (roomy : Roomy (2 ^ log) wanted address span)
    (unaligned : address &&& (2 ^ log - 1) ≠ 0) :
    largeMin ≤ prefixSize (2 ^ log) address ∧ prefixSize (2 ^ log) address + wanted ≤ span := by
  rw [and_mask_eq] at unaligned
  have room := roomy.2 unaligned
  obtain ⟨above, below, _⟩ := LargeHeap.roundUpToMultipleOf_spec log (address + largeMin)
  rw [prefixSize]
  omega

theorem LargeInvariant.serves (invariant : LargeInvariant heap [] live scavenged) (isFresh : fresh ∉ heap.superChunks)
    (exponentLt : exponent < 64) (reaches : ReachesLarge (2 ^ exponent) size) (small : size ≤ largeMax) :
    heap.Serves (2 ^ exponent) size fresh := by
  obtain ⟨log, logLt, same, coarse, finer⟩ := largeAlignmentOf_pow exponentLt
  obtain ⟨most, half⟩ := reaches
  rw [unalignedSizeOf, same] at most
  rw [same] at half
  obtain ⟨request, fits⟩ := isAlignedRequest logLt coarse small most half
  obtain ⟨enough, least, _⟩ := largeSizeOf_spec small
  refine ⟨fun other owner address span has fit unaligned => ?_, ?_⟩
  · rw [unalignedSizeOf, same, fits] at fit
    rw [same] at unaligned ⊢
    have room := pieces_of_roomy (has.fitsAligned fit) unaligned
    omega
  · obtain ⟨start, later, result, kept, multiple⟩ := invariant.allocateLargeAligned request isFresh
    obtain ⟨span, has, covers⟩ := kept.inUse ⟨start, largeSizeOf size⟩ List.mem_cons_self
    refine ⟨start, later, span, ?_, ?_, has, Nat.le_trans enough covers,
      fun address rest owner free => kept.listed free (by simp)⟩
    · rw [LargeHeap.allocateLargeRequest, unalignedSizeOf, same, fits]
      exact result
    · exact Nat.mod_eq_zero_of_dvd ((Nat.pow_dvd_pow 2 finer).trans (Nat.dvd_of_mod_eq_zero multiple))

/-- Nothing fits a size beyond that of a chunk. -/
theorem LargeInvariant.allocateLargeAligned_none (invariant : LargeInvariant heap [] live scavenged)
    (isFresh : fresh ∉ heap.superChunks) {alignment wanted unalignedSize : Nat} (huge : largeChunkSize < wanted) :
    heap.allocateLargeAligned alignment wanted unalignedSize fresh = none := by
  have takes (memory : Memory) (owner : Owner) (lists : SegregatedFreeList) :
      TakesFrom memory owner (FreeList.fitsAligned memory alignment wanted unalignedSize) lists
        (SegregatedFreeList.takeAligned memory owner alignment wanted unalignedSize lists).1
        (SegregatedFreeList.takeAligned memory owner alignment wanted unalignedSize lists).2 :=
    takeFrom_takes (fun list => (FreeList.takeFitting_spec list).1) _ _
  have none {heap : LargeHeap} (invariant : LargeInvariant heap [] live scavenged) (owner : Owner) :
      ∃ later, heap.takeWith owner
        (fun memory owner => SegregatedFreeList.takeAligned memory owner alignment wanted unalignedSize) =
        (none, later) ∧ LargeInvariant later [] live scavenged ∧ later.superChunks = heap.superChunks := by
    obtain ⟨later, missed | ⟨address, span, _, _, has, fits⟩⟩ := invariant.takeWith takes owner
    · exact ⟨later, missed⟩
    · have bound := has.numbers
      rw [FreeList.fitsAligned, Bool.and_eq_true, decide_eq_true_eq, has.size_eq] at fits
      rw [show largeChunkSize = 16777216 from rfl] at huge
      omega
  obtain ⟨missing, missed, kept, known⟩ := none invariant .heap
  obtain ⟨before, again, keptBefore, same⟩ := none kept .vmHeap
  obtain ⟨_, last, _⟩ := none (keptBefore.grow (same ▸ known ▸ isFresh)).1 .vmHeap
  simp only [LargeHeap.allocateLargeAligned, missed, LargeHeap.vmAllocateLargeObjectAligned, LargeHeap.vmTake, again,
    last, Option.map_none]

/-- A size above `largeMax` gets here only by wrapping around, and then the object is too small or the
free lists are left. -/
theorem LargeInvariant.small_of_serves (invariant : LargeInvariant heap [] live scavenged)
    (isFresh : fresh ∉ heap.superChunks) (exponentLt : exponent < 64) (word : size < 2 ^ 64)
    (reaches : ReachesLarge (2 ^ exponent) size) (serves : heap.Serves (2 ^ exponent) size fresh) :
    size ≤ largeMax := by
  obtain ⟨start, later, span, result, _, has, enough, _⟩ := serves.served
  have bound := has.numbers
  obtain ⟨log, logLt, same, coarse, finer⟩ := largeAlignmentOf_pow exponentLt
  obtain ⟨most, half⟩ := reaches
  by_contra large
  obtain ⟨above, _⟩ := @alignUp_of_fits 6 size (by decide) (by omega)
  have rounded : size ≤ largeSizeOf size := by
    rw [largeSizeOf, largeAlignment_eq]
    split <;> omega
  -- only the sum can be small, so the size itself is none of an object
  have huge : largeChunkSize < largeSizeOf size := by
    rw [unalignedSizeOf, same] at most
    rw [same, show largeChunkSize = 16777216 from rfl] at half
    rw [show largeMax = 16609443 from rfl] at most large
    rw [show largeMin = 1024 from rfl] at most
    rw [show largeChunkSize = 16777216 from rfl]
    omega
  rw [LargeHeap.allocateLargeRequest, invariant.allocateLargeAligned_none isFresh huge] at result
  cases result

/-- In every state that is reached, an aligned request that gets to the large branch is served exactly if
the size is one of a large object, and did not get there by wrapping around. -/
theorem alignedRequest_serves_iff (state : LargeState) (reached : LargeReachable state) (exponent size fresh : Nat)
    (exponentLt : exponent < 64) (word : size < 2 ^ 64) (reaches : ReachesLarge (2 ^ exponent) size)
    (isFresh : fresh ∉ state.heap.superChunks) :
    state.heap.Serves (2 ^ exponent) size fresh ↔ size ≤ largeMax :=
  ⟨reached.consistent.small_of_serves isFresh exponentLt word reaches,
    reached.consistent.serves isFresh exponentLt reaches⟩

theorem alignedRequest_serves_iff_example : LargeState.initial.heap.Serves 4096 2000 1 :=
  (alignedRequest_serves_iff LargeState.initial .initial 12 2000 1 (by decide) (by decide)
    ⟨by decide +kernel, by decide +kernel⟩ (by simp [LargeState.initial, LargeHeap.initial])).mpr (by decide)

/-- Almost the whole address space is asked for, and an object of `largeMin` bytes would be enough. -/
theorem wrapped_request_not_served :
    ReachesLarge 64 (2 ^ 64 - 1) ∧ largeSizeOf (2 ^ 64 - 1) = largeMin ∧
      ¬LargeState.initial.heap.Serves 64 (2 ^ 64 - 1) 1 := by
  have reaches : ReachesLarge (2 ^ 6) (2 ^ 64 - 1) := ⟨by decide +kernel, by decide +kernel⟩
  refine ⟨reaches, by decide +kernel, fun serves => ?_⟩
  have small : 2 ^ 64 - 1 ≤ largeMax := LargeState.Consistent.initial.small_of_serves
    (by simp [LargeState.initial, LargeHeap.initial]) (show 6 < 64 by decide) (by decide) reaches serves
  exact absurd small (by decide)

end WebNode.Bmalloc
