import WebNode.Bmalloc.LargeHeap
import WebNode.Bmalloc.FreeListSpec

/-! The invariant of large objects. Between critical sections every free object is
listed by its owner; inside one the objects at some addresses may be pending. -/
namespace WebNode.Bmalloc

open SegregatedFreeList

def LargeHeap.chunks (heap : LargeHeap) : List Nat := heap.superChunks.map LargeHeap.largeChunk

/-- An object with the given size and state, whatever its mark. -/
def LargeHeap.Has (heap : LargeHeap) (address size : Nat) (isFree : Bool) (owner : Owner) : Prop :=
  ∃ isMarked, Holds heap.chunks heap.memory address ⟨size, isFree, owner, isMarked⟩

structure LargeInvariant (heap : LargeHeap) (pending : List Nat) (live : List Range)
    (scavenged : List LargeObject) : Prop where
  tiled : Tiled heap.chunks heap.memory
  placed : ∀ owner index, ∀ entry ∈ (heap.freeLists owner index).vector,
    Placed heap.chunks entry ∧ select entry.size = index
  listed : ∀ {address size owner}, heap.Has address size true owner → address ∉ pending →
    ⟨address, size⟩ ∈ (heap.freeLists owner (select size)).vector
  inUse : ∀ range ∈ live, ∃ size, heap.Has range.begin size false .heap ∧ range.size ≤ size
  liveOnce : (live.map Range.begin).Nodup
  inFlight : ∀ object ∈ scavenged, ∃ address size, object = .spanning address size ∧
    heap.Has address size false .vmHeap
  scavengedOnce : scavenged.Nodup

section Has

variable {heap : LargeHeap} {address otherAddress size otherSize : Nat} {isFree otherFree : Bool}
  {owner otherOwner : Owner}

theorem LargeHeap.Has.unique (has : heap.Has address size isFree owner)
    (other : heap.Has address otherSize otherFree otherOwner) :
    size = otherSize ∧ isFree = otherFree ∧ owner = otherOwner := by
  obtain ⟨_, holds⟩ := has
  obtain ⟨_, otherHolds⟩ := other
  have same := holds.unique otherHolds
  simp only [Block.mk.injEq] at same
  exact ⟨same.1, same.2.1, same.2.2.1⟩

theorem LargeHeap.Has.ofAddress (has : heap.Has address size isFree owner) :
    LargeObject.ofAddress heap.memory address = .spanning address size := by
  obtain ⟨_, holds⟩ := has
  exact holds.ofAddress

theorem LargeHeap.Has.size_eq (has : heap.Has address size isFree owner) (span : Nat) :
    (LargeObject.spanning address span).size heap.memory = size := by
  obtain ⟨_, holds⟩ := has
  exact holds.size_eq span

end Has

section Change

variable {heap : LargeHeap} {pending : List Nat} {live : List Range} {scavenged : List LargeObject}

/-- A change of memory keeps the invariant if new free objects become pending, pending
ones stay so or go, and no object in use goes. -/
theorem LargeInvariant.change (invariant : LargeInvariant heap pending live scavenged) {memory : Memory}
    {gone new : List (Nat × Block)} (change : MemoryChange heap.chunks heap.memory memory gone new)
    {nextPending : List Nat} {nextLive : List Range} {nextScavenged : List LargeObject}
    (lives : nextLive.Sublist live) (scavenges : nextScavenged.Sublist scavenged)
    (fresh : ∀ {address block}, (address, block) ∈ new → block.isFree = true → address ∈ nextPending)
    (waits : ∀ {address block}, address ∈ pending → Holds heap.chunks heap.memory address block →
      (address, block) ∈ gone ∨ address ∈ nextPending)
    (used : ∀ {address block}, (address, block) ∈ gone → block.isFree = true ∨
      (address ∉ nextLive.map Range.begin ∧ .spanning address block.size ∉ nextScavenged)) :
    LargeInvariant { heap with memory := memory } nextPending nextLive nextScavenged := by
  refine ⟨change.tiled, invariant.placed, ?_, ?_, invariant.liveOnce.sublist (lives.map _), ?_,
    invariant.scavengedOnce.sublist scavenges⟩
  · rintro address size owner ⟨isMarked, holds⟩ notPending
    rcases change.back holds with ⟨before, notGone⟩ | isNew
    · refine invariant.listed ⟨isMarked, before⟩ fun wasPending => ?_
      exact (waits wasPending before).elim notGone notPending
    · exact absurd (fresh isNew rfl) notPending
  · intro range member
    obtain ⟨size, ⟨isMarked, holds⟩, fits⟩ := invariant.inUse range (lives.mem member)
    rcases change.forth holds with after | isGone
    · exact ⟨size, ⟨isMarked, after⟩, fits⟩
    · rcases used isGone with free | ⟨notLive, _⟩
      · cases free
      · exact absurd (List.mem_map_of_mem member) notLive
  · intro object member
    obtain ⟨address, size, rfl, isMarked, holds⟩ := invariant.inFlight object (scavenges.mem member)
    rcases change.forth holds with after | isGone
    · exact ⟨address, size, rfl, isMarked, after⟩
    · rcases used isGone with free | ⟨_, notScavenged⟩
      · cases free
      · exact absurd member notScavenged

/-- Marks do not matter. -/
theorem LargeInvariant.sameBlocks (invariant : LargeInvariant heap pending live scavenged) {memory : Memory}
    (same : SameBlocks heap.chunks heap.memory memory) :
    LargeInvariant { heap with memory := memory } pending live scavenged := by
  have forth {address size : Nat} {isFree : Bool} {owner : Owner} (has : heap.Has address size isFree owner) :
      LargeHeap.Has { heap with memory := memory } address size isFree owner := by
    obtain ⟨_, holds⟩ := has
    obtain ⟨isMarked, after⟩ := same.forth holds
    exact ⟨isMarked, after⟩
  refine ⟨same.tiled, invariant.placed, ?_, ?_, invariant.liveOnce, ?_, invariant.scavengedOnce⟩
  · rintro address size owner ⟨_, holds⟩ notPending
    obtain ⟨isMarked, before⟩ := same.back holds
    exact invariant.listed ⟨isMarked, before⟩ notPending
  · intro range member
    obtain ⟨size, has, fits⟩ := invariant.inUse range member
    exact ⟨size, forth has, fits⟩
  · intro object member
    obtain ⟨address, size, rfl, has⟩ := invariant.inFlight object member
    exact ⟨address, size, rfl, forth has⟩

end Change

section Lists

variable {heap : LargeHeap} {pending : List Nat} {live : List Range} {scavenged : List LargeObject}

/-- Dropping entries from the lists of an owner that are stale, or stand for an object
that becomes pending. -/
theorem LargeInvariant.setFreeLists (invariant : LargeInvariant heap pending live scavenged) {owner : Owner}
    {lists : SegregatedFreeList} {nextPending : List Nat}
    (sub : ∀ index, ∀ entry ∈ (lists index).vector, entry ∈ (heap.freeLists owner index).vector)
    (waits : ∀ address ∈ pending, address ∈ nextPending)
    (kept : ∀ index, ∀ entry ∈ (heap.freeLists owner index).vector, isValidEntry heap.memory owner entry = true →
      entry.begin ∉ nextPending → entry ∈ (lists index).vector) :
    LargeInvariant (heap.setFreeLists owner lists) nextPending live scavenged := by
  refine ⟨invariant.tiled, ?_, ?_, invariant.inUse, invariant.liveOnce, invariant.inFlight, invariant.scavengedOnce⟩
  · intro other index entry member
    by_cases same : other = owner
    · subst same
      exact invariant.placed _ _ _ (sub index entry (by simpa [LargeHeap.setFreeLists] using member))
    · exact invariant.placed other index entry (by simpa [LargeHeap.setFreeLists, same] using member)
  · intro address size other has notPending
    have listed := invariant.listed has fun wasPending => notPending (waits address wasPending)
    by_cases same : other = owner
    · subst same
      obtain ⟨isMarked, holds⟩ := has
      have valid : isValidEntry heap.memory other ⟨address, size⟩ = true :=
        (invariant.tiled.isValidEntry_iff holds.placed).mpr ⟨_, holds, rfl, rfl, rfl⟩
      simpa [LargeHeap.setFreeLists] using kept _ _ listed valid notPending
    · simpa [LargeHeap.setFreeLists, same] using listed

/-- What taking from the lists of an owner finds is a free object of the owner that
fits; it is pending then. -/
theorem LargeInvariant.take (invariant : LargeInvariant heap pending live scavenged) {owner : Owner}
    {fits : LargeObject → Bool} {taken : Option LargeObject} {lists : SegregatedFreeList}
    (takes : TakesFrom heap.memory owner fits (heap.freeLists owner) taken lists) :
    (taken = none ∧ LargeInvariant (heap.setFreeLists owner lists) pending live scavenged) ∨
      ∃ address size, taken = some (.spanning address size) ∧ heap.Has address size true owner ∧
        fits (.spanning address size) = true ∧
        LargeInvariant (heap.setFreeLists owner lists) (address :: pending) live scavenged := by
  cases taken with
  | none =>
    refine .inl ⟨rfl, invariant.setFreeLists takes.sub (fun _ member => member) ?_⟩
    exact fun index entry member valid _ => takes.kept rfl index entry member valid
  | some object =>
    obtain ⟨index, entry, member, valid, rfl, fit, others⟩ := takes.found object rfl
    obtain ⟨placed, _⟩ := invariant.placed owner index entry member
    obtain ⟨⟨size, isFree, _, isMarked⟩, holds, rfl, rfl, _⟩ := (invariant.tiled.isValidEntry_iff placed).mp valid
    rw [holds.ofAddress] at fit ⊢
    refine .inr ⟨entry.begin, size, rfl, ⟨isMarked, holds⟩, fit,
      invariant.setFreeLists takes.sub (fun _ => List.mem_cons_of_mem _) ?_⟩
    intro index other inside otherValid notPending
    refine others index other inside otherValid ?_
    rintro rfl
    exact notPending (List.mem_cons_self ..)

/-- A list with a new entry for a pending free object, which may have lost stale ones. -/
theorem LargeInvariant.addEntry {address size : Nat} {owner : Owner} {list : FreeList} {front : List Range}
    (invariant : LargeInvariant heap (address :: pending) live scavenged) (has : heap.Has address size true owner)
    (vector : list.vector = front ++ [⟨address, size⟩])
    (sub : ∀ entry ∈ front, entry ∈ (heap.freeLists owner (select size)).vector)
    (kept : ∀ entry ∈ (heap.freeLists owner (select size)).vector, isValidEntry heap.memory owner entry = true →
      entry ∈ front) :
    LargeInvariant (heap.setFreeLists owner (Function.update (heap.freeLists owner) (select size) list))
      pending live scavenged := by
  have lists (other : Owner) (index : Nat) : (heap.setFreeLists owner
      (Function.update (heap.freeLists owner) (select size) list)).freeLists other index =
        if other = owner ∧ index = select size then list else heap.freeLists other index := by
    by_cases sameOwner : other = owner
    · subst sameOwner
      simp [LargeHeap.setFreeLists, Function.update_apply]
    · simp [LargeHeap.setFreeLists, sameOwner]
  refine ⟨invariant.tiled, fun other index entry member => ?_, fun {other span who} hasOther notPending => ?_,
    invariant.inUse, invariant.liveOnce, invariant.inFlight, invariant.scavengedOnce⟩
  · rw [lists] at member
    split at member
    · rename_i same
      obtain ⟨rfl, rfl⟩ := same
      rw [vector] at member
      rcases List.mem_append.mp member with old | new
      · exact invariant.placed _ _ entry (sub entry old)
      · obtain rfl := List.mem_singleton.mp new
        obtain ⟨_, holds⟩ := has
        exact ⟨holds.placed, rfl⟩
    · exact invariant.placed other index entry member
  · rw [lists]
    by_cases here : other = address
    · subst here
      obtain ⟨rfl, _, rfl⟩ := has.unique hasOther
      simp [vector]
    · have old := invariant.listed hasOther (by simp [here, notPending])
      split
      · rename_i same
        obtain ⟨rfl, index⟩ := same
        rw [index] at old
        obtain ⟨_, holds⟩ := hasOther
        have valid : isValidEntry heap.memory who ⟨other, span⟩ = true :=
          (invariant.tiled.isValidEntry_iff holds.placed).mpr ⟨_, holds, rfl, rfl, rfl⟩
        rw [vector]
        exact List.mem_append_left _ (kept _ old valid)
      · exact old

/-- Inserting a pending free object lists it, last in its list. -/
theorem LargeInvariant.insert {address size : Nat} {owner : Owner}
    (invariant : LargeInvariant heap (address :: pending) live scavenged)
    (has : heap.Has address size true owner) :
    LargeInvariant (heap.insert owner (.spanning address size)) pending live scavenged ∧
      SameBlocks heap.chunks heap.memory (heap.insert owner (.spanning address size)).memory ∧
      ∃ front, ((heap.insert owner (.spanning address size)).freeLists owner (select size)).vector =
        front ++ [⟨address, size⟩] := by
  have sizeEq := has.size_eq size
  obtain ⟨isMarked, holds⟩ := has
  have placed : ∀ entry ∈ (heap.freeLists owner (select size)).vector, Placed heap.chunks entry :=
    fun entry member => (invariant.placed owner (select size) entry member).1
  obtain ⟨same, front, vector, sub, kept⟩ := FreeList.push_spec owner invariant.tiled placed holds
  obtain ⟨_, after⟩ := same.forth holds
  have added :=
    (invariant.sameBlocks same).addEntry ⟨_, after⟩ vector sub fun entry member valid => kept entry member (by
    rwa [same.isValidEntry_eq invariant.tiled (placed entry member)] at valid)
  have inserted : heap.insert owner (.spanning address size) =
      { heap with memory := ((heap.freeLists owner (select size)).push heap.memory owner (.spanning address size)).1
      }.setFreeLists owner (Function.update (heap.freeLists owner) (select size)
        ((heap.freeLists owner (select size)).push heap.memory owner (.spanning address size)).2) := by
    simp only [LargeHeap.insert, SegregatedFreeList.insert, sizeEq]
  rw [inserted]
  exact ⟨added, same, front, by simpa [LargeHeap.setFreeLists] using vector⟩

end Lists

end WebNode.Bmalloc
