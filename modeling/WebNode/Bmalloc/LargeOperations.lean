import WebNode.Bmalloc.LargeInvariant

/-! What the operations of the heap and the VM heap do to the invariant of large objects. -/
namespace WebNode.Bmalloc

open SegregatedFreeList

section Objects

variable {heap : LargeHeap} {pending : List Nat} {live : List Range} {scavenged : List LargeObject}
  {address size : Nat} {owner : Owner}

/-- An object that goes out of use is pending until it is listed. -/
theorem LargeInvariant.setFree_true (invariant : LargeInvariant heap pending live scavenged)
    (has : heap.Has address size false owner) {nextLive : List Range} {nextScavenged : List LargeObject}
    (lives : nextLive.Sublist live) (scavenges : nextScavenged.Sublist scavenged)
    (notLive : address ∉ nextLive.map Range.begin) (notScavenged : .spanning address size ∉ nextScavenged) :
    LargeInvariant (heap.setFree (.spanning address size) true) (address :: pending) nextLive nextScavenged ∧
      (heap.setFree (.spanning address size) true).Has address size true owner := by
  obtain ⟨isMarked, holds⟩ := has
  have change := holds.setFree invariant.tiled true
  refine ⟨invariant.change change lives scavenges ?_ ?_ ?_, isMarked, change.added (List.mem_singleton_self _)⟩
  · intro _ block new _
    obtain ⟨rfl, rfl⟩ := Prod.mk.inj (List.mem_singleton.mp new)
    exact List.mem_cons_self ..
  · exact fun wasPending _ => .inr (List.mem_cons_of_mem _ wasPending)
  · intro _ block gone
    obtain ⟨rfl, rfl⟩ := Prod.mk.inj (List.mem_singleton.mp gone)
    exact .inr ⟨notLive, notScavenged⟩

/-- The insertion of an object leaves the others as they are. -/
theorem LargeHeap.Has.insert {other span : Nat} {isFree : Bool} {who : Owner} {object : LargeObject}
    (has : heap.Has other span isFree who)
    (same : SameBlocks heap.chunks heap.memory (heap.insert owner object).memory) :
    (heap.insert owner object).Has other span isFree who := by
  obtain ⟨_, holds⟩ := has
  obtain ⟨isMarked, after⟩ := same.forth holds
  exact ⟨isMarked, after⟩

variable (invariant : LargeInvariant heap (address :: pending) live scavenged) (has : heap.Has address size true owner)

include invariant has

theorem LargeInvariant.setFree_false :
    LargeInvariant (heap.setFree (.spanning address size) false) pending live scavenged ∧
      (heap.setFree (.spanning address size) false).Has address size false owner := by
  obtain ⟨isMarked, holds⟩ := has
  have change := holds.setFree invariant.tiled false
  refine ⟨invariant.change change (List.Sublist.refl _) (List.Sublist.refl _) ?_ ?_ ?_,
    isMarked, change.added (List.mem_singleton_self _)⟩
  · intro _ block new free
    obtain ⟨_, rfl⟩ := Prod.mk.inj (List.mem_singleton.mp new)
    cases free
  · intro other block wasPending found
    rcases List.mem_cons.mp wasPending with rfl | later
    · exact .inl (List.mem_singleton.mpr (by rw [found.unique holds]))
    · exact .inr later
  · intro _ block gone
    obtain ⟨_, rfl⟩ := Prod.mk.inj (List.mem_singleton.mp gone)
    exact .inl rfl

theorem LargeInvariant.setOwner (next : Owner) :
    LargeInvariant (heap.setOwner (.spanning address size) next) (address :: pending) live scavenged ∧
      (heap.setOwner (.spanning address size) next).Has address size true next := by
  obtain ⟨isMarked, holds⟩ := has
  have change := holds.setOwner invariant.tiled next
  refine ⟨invariant.change change (List.Sublist.refl _) (List.Sublist.refl _) ?_
    (fun wasPending _ => .inr wasPending) ?_, isMarked, change.added (List.mem_singleton_self _)⟩
  · intro _ block new _
    obtain ⟨rfl, rfl⟩ := Prod.mk.inj (List.mem_singleton.mp new)
    exact List.mem_cons_self ..
  · intro _ block gone
    obtain ⟨rfl, rfl⟩ := Prod.mk.inj (List.mem_singleton.mp gone)
    exact .inl rfl

theorem LargeInvariant.split {first : Nat} (least : largeMin ≤ first) (aligned : first % largeAlignment = 0)
    (leftover : first + largeMin ≤ size) :
    ∃ later, heap.split (.spanning address size) first =
        (later, .spanning address first, .spanning (address + first) (size - first)) ∧
      LargeInvariant later (address :: (address + first) :: pending) live scavenged ∧
      later.Has address first true owner ∧ later.Has (address + first) (size - first) true owner := by
  obtain ⟨isMarked, holds⟩ := has
  obtain ⟨tags, result, change⟩ := holds.split invariant.tiled least aligned leftover
  refine ⟨heap.store (.spanning address size) tags, ?_, invariant.change change (List.Sublist.refl _)
    (List.Sublist.refl _) ?_ ?_ ?_, ⟨isMarked, change.added (by simp)⟩, isMarked, change.added (by simp)⟩
  · simp only [LargeHeap.split, LargeObject.spanning_chunk, result]
  · intro other block new _
    simp only [List.mem_cons, Prod.mk.injEq, List.not_mem_nil, or_false] at new
    rcases new with ⟨rfl, _⟩ | ⟨rfl, _⟩ <;> simp
  · intro other block wasPending _
    rcases List.mem_cons.mp wasPending with rfl | later
    · exact .inr (List.mem_cons_self ..)
    · exact .inr (by simp [later])
  · intro _ block gone
    obtain ⟨rfl, rfl⟩ := Prod.mk.inj (List.mem_singleton.mp gone)
    exact .inl rfl

theorem LargeInvariant.merge :
    ∃ later start total, heap.merge (.spanning address size) = (later, .spanning start total) ∧
      LargeInvariant later (start :: pending) live scavenged ∧ later.Has start total true owner := by
  obtain ⟨isMarked, holds⟩ := has
  obtain ⟨tags, start, ⟨total, isFree, _, mark⟩, gone, result, rfl, rfl, own, free, change⟩ :=
    holds.merge invariant.tiled rfl
  refine ⟨heap.store (.spanning address size) tags, start, total, ?_, invariant.change change (List.Sublist.refl _)
    (List.Sublist.refl _) ?_ ?_ ?_, mark, change.added (List.mem_singleton_self _)⟩
  · simp only [LargeHeap.merge, LargeObject.spanning_chunk, result]
  · intro _ block new _
    obtain ⟨rfl, _⟩ := Prod.mk.inj (List.mem_singleton.mp new)
    exact List.mem_cons_self ..
  · intro other block wasPending found
    rcases List.mem_cons.mp wasPending with rfl | later
    · exact .inl (found.unique holds ▸ own)
    · exact .inr (List.mem_cons_of_mem _ later)
  · exact fun inGone => .inl (free _ inGone).1

/-- A trimmed object is still large enough, and the rest of it is listed. -/
theorem LargeInvariant.trim {wanted : Nat} (least : largeMin ≤ wanted) (aligned : wanted % largeAlignment = 0)
    (enough : wanted ≤ size) :
    ∃ later span, heap.trim owner (.spanning address size) wanted = (later, .spanning address span) ∧
      LargeInvariant later (address :: pending) live scavenged ∧ later.Has address span true owner ∧ wanted ≤ span := by
  unfold LargeHeap.trim
  rw [has.size_eq]
  split
  · rename_i large
    obtain ⟨later, result, kept, first, second⟩ := invariant.split has least aligned (by omega)
    have swapped : LargeInvariant later ((address + wanted) :: address :: pending) live scavenged := by
      refine ⟨kept.tiled, kept.placed, fun hasOther notPending => kept.listed hasOther ?_, kept.inUse, kept.liveOnce,
        kept.inFlight, kept.scavengedOnce⟩
      simp only [List.mem_cons, not_or] at notPending ⊢
      tauto
    obtain ⟨inserted, same, _⟩ := swapped.insert second
    exact ⟨later.insert owner (.spanning (address + wanted) (size - wanted)), wanted, by rw [result], inserted,
      first.insert same, Nat.le_refl _⟩
  · exact ⟨heap, size, rfl, invariant, has, enough⟩

end Objects

section Grow

variable {heap : LargeHeap} {pending : List Nat} {live : List Range} {scavenged : List LargeObject} {fresh : Nat}

/-- Where the one object of a fresh super chunk starts. -/
def freshAddress (superChunk : Nat) : Nat := LargeHeap.largeChunk superChunk * largeChunkSize + LargeChunk.begin

theorem freshAddress_split (superChunk : Nat) :
    freshAddress superChunk / largeChunkSize = LargeHeap.largeChunk superChunk ∧
      freshAddress superChunk % largeChunkSize = LargeChunk.begin := by
  simp only [freshAddress, LargeChunk.begin_eq, largeChunkSize_eq]
  omega

theorem LargeHeap.largeChunk_injective : Function.Injective LargeHeap.largeChunk := by
  intro first second same
  simp only [largeChunk, superChunkSize, largeChunkSize_eq] at same
  omega

/-- The heap with the tags of a fresh chunk, before its object is listed. -/
def LargeHeap.addChunk (heap : LargeHeap) (superChunk : Nat) : LargeHeap :=
  { heap with
    memory := Function.update heap.memory (largeChunk superChunk) LargeObject.init
    superChunks := superChunk :: heap.superChunks }

theorem LargeHeap.addChunk_holds (isFresh : fresh ∉ heap.superChunks) {address : Nat} {block : Block} :
    Holds (heap.addChunk fresh).chunks (heap.addChunk fresh).memory address block ↔
      Holds heap.chunks heap.memory address block ∨ (address = freshAddress fresh ∧ block = freshBlock) := by
  have notChunk : largeChunk fresh ∉ heap.chunks := by
    intro member
    obtain ⟨other, inside, same⟩ := List.mem_map.mp member
    exact isFresh (largeChunk_injective same ▸ inside)
  have whole := Nat.div_add_mod' address largeChunkSize
  have chunks : (heap.addChunk fresh).chunks = largeChunk fresh :: heap.chunks := rfl
  have start := freshAddress_split fresh
  by_cases inside : address / largeChunkSize = largeChunk fresh
  · have notBefore : ¬ Holds heap.chunks heap.memory address block := fun holds => notChunk (inside ▸ holds.known)
    have same : address = freshAddress fresh ↔ address % largeChunkSize = LargeChunk.begin := by
      refine ⟨fun equal => equal ▸ start.2, fun equal => ?_⟩
      rw [← whole, inside, equal, freshAddress]
    rw [same, ← init_blocks.2]
    constructor
    · intro holds
      exact .inr (by simpa [addChunk, inside] using holds.block)
    · rintro (holds | has)
      · exact absurd holds notBefore
      · refine ⟨by simp [chunks, inside], ?_⟩
        simpa [addChunk, inside] using has
  · have notFresh : address ≠ freshAddress fresh := fun equal => inside (equal ▸ start.1)
    constructor
    · intro holds
      have known := holds.known
      rw [chunks, List.mem_cons] at known
      exact .inl ⟨known.resolve_left inside, by simpa [addChunk, inside] using holds.block⟩
    · rintro (holds | ⟨equal, _⟩)
      · refine ⟨by simp [chunks, holds.known], ?_⟩
        simpa [addChunk, inside] using holds.block
      · exact absurd equal notFresh

theorem LargeInvariant.addChunk (invariant : LargeInvariant heap pending live scavenged)
    (isFresh : fresh ∉ heap.superChunks) :
    LargeInvariant (heap.addChunk fresh) (freshAddress fresh :: pending) live scavenged := by
  have grows {address size : Nat} {isFree : Bool} {owner : Owner} (has : heap.Has address size isFree owner) :
      (heap.addChunk fresh).Has address size isFree owner := by
    obtain ⟨isMarked, holds⟩ := has
    exact ⟨isMarked, (LargeHeap.addChunk_holds isFresh).mpr (.inl holds)⟩
  refine ⟨?_, ?_, ?_, ?_, invariant.liveOnce, ?_, invariant.scavengedOnce⟩
  · intro chunk member
    by_cases same : chunk = LargeHeap.largeChunk fresh
    · subst same
      simpa [LargeHeap.addChunk] using init_blocks.1
    · have known : chunk ∈ heap.chunks := (List.mem_cons.mp member).resolve_left same
      simpa [LargeHeap.addChunk, same] using invariant.tiled chunk known
  · intro owner index entry member
    obtain ⟨placed, selected⟩ := invariant.placed owner index entry member
    exact ⟨⟨List.mem_cons_of_mem _ placed.known, placed.above, placed.aligned⟩, selected⟩
  · rintro address size owner ⟨isMarked, holds⟩ notPending
    rcases (LargeHeap.addChunk_holds isFresh).mp holds with before | ⟨rfl, _⟩
    · exact invariant.listed ⟨isMarked, before⟩ fun wasPending => notPending (List.mem_cons_of_mem _ wasPending)
    · exact absurd (List.mem_cons_self ..) notPending
  · intro range member
    obtain ⟨size, has, fits⟩ := invariant.inUse range member
    exact ⟨size, grows has, fits⟩
  · intro object member
    obtain ⟨address, size, rfl, has⟩ := invariant.inFlight object member
    exact ⟨address, size, rfl, grows has⟩

/-- Growing lists the object of a fresh chunk last in the last list of the VM heap. -/
theorem LargeInvariant.grow (invariant : LargeInvariant heap pending live scavenged)
    (isFresh : fresh ∉ heap.superChunks) :
    LargeInvariant (heap.grow fresh) pending live scavenged ∧
      (heap.grow fresh).Has (freshAddress fresh) freshBlock.size true .vmHeap ∧
      ∃ front, ((heap.grow fresh).freeLists .vmHeap (select freshBlock.size)).vector =
        front ++ [⟨freshAddress fresh, freshBlock.size⟩] := by
  have holds : Holds (heap.addChunk fresh).chunks (heap.addChunk fresh).memory (freshAddress fresh) freshBlock :=
    (LargeHeap.addChunk_holds isFresh).mpr (.inr ⟨rfl, rfl⟩)
  have has : (heap.addChunk fresh).Has (freshAddress fresh) freshBlock.size true .vmHeap := ⟨false, holds⟩
  have object : LargeObject.ofPosition ((heap.addChunk fresh).memory (LargeHeap.largeChunk fresh))
      (LargeHeap.largeChunk fresh) LargeChunk.begin = .spanning (freshAddress fresh) freshBlock.size := by
    rw [← holds.ofAddress, LargeObject.ofAddress, (freshAddress_split fresh).1, (freshAddress_split fresh).2]
  have grown :
      heap.grow fresh = (heap.addChunk fresh).insert .vmHeap (.spanning (freshAddress fresh) freshBlock.size) := by
    rw [← object]
    rfl
  obtain ⟨inserted, same, front, vector⟩ := (invariant.addChunk isFresh).insert has
  rw [grown]
  exact ⟨inserted, has.insert same, front, vector⟩

end Grow

end WebNode.Bmalloc
