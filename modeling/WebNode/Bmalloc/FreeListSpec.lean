import WebNode.Bmalloc.LargeMemory

/-! What taking from a free list, cleaning it up and pushing to it do to its entries. -/
namespace WebNode.Bmalloc

open Sweep

/-- A list from which an object was taken, or in which none was found: no valid entry
is lost but the one of the object, and the object fits. -/
structure Takes (memory : Memory) (owner : Owner) (fits : LargeObject → Bool) (vector : List Range)
    (taken : Option LargeObject) (rest : List Range) : Prop where
  sub : ∀ entry ∈ rest, entry ∈ vector
  found : ∀ object, taken = some object → ∃ entry ∈ vector, isValidEntry memory owner entry = true ∧
    object = LargeObject.ofAddress memory entry.begin ∧ fits object = true ∧
    ∀ other ∈ vector, isValidEntry memory owner other = true → other ≠ entry → other ∈ rest
  kept : taken = none → ∀ entry ∈ vector, isValidEntry memory owner entry = true → entry ∈ rest

section Take

variable {memory : Memory} {owner : Owner} {fits : LargeObject → Bool}

theorem FreeList.takeGreedyLoop_takes (vector : List Range) :
    Takes memory owner (fun _ => true) vector (takeGreedyLoop memory owner vector).1
      (takeGreedyLoop memory owner vector).2 := by
  fun_induction takeGreedyLoop memory owner vector with
  | case1 => exact ⟨by simp, by simp, by simp⟩
  | case2 entry rest valid =>
    have perm := popHead_perm entry rest
    refine ⟨fun other member => List.mem_cons_of_mem _ (perm.mem_iff.mp member), fun object same => ?_, by simp⟩
    refine ⟨entry, List.mem_cons_self .., valid, (Option.some.inj same).symm, rfl, fun other member _ different => ?_⟩
    exact perm.mem_iff.mpr ((List.mem_cons.mp member).resolve_left different)
  | case3 entry rest invalid ih =>
    have perm := popHead_perm entry rest
    have stale {other : Range} (member : other ∈ entry :: rest)
        (valid : isValidEntry memory owner other = true) : other ∈ popHead (entry :: rest) := by
      rcases List.mem_cons.mp member with rfl | later
      · exact absurd valid invalid
      · exact perm.mem_iff.mpr later
    refine ⟨fun other member => List.mem_cons_of_mem _ (perm.mem_iff.mp (ih.sub other member)),
      fun object same => ?_, fun none other member valid => ih.kept none other (stale member valid) valid⟩
    obtain ⟨found, inRest, valid, objectEq, fits, others⟩ := ih.found object same
    exact ⟨found, List.mem_cons_of_mem _ (perm.mem_iff.mp inRest), valid, objectEq, fits,
      fun other member otherValid => others other (stale member otherValid) otherValid⟩

/-- What the search for the best fit keeps: the entries, and a candidate that fits and
whose entry stands at its index. -/
structure Searching (memory : Memory) (owner : Owner) (fits : LargeObject → Bool) (vector window : List Range)
    (candidate : Option (LargeObject × Nat)) (kept queue : List Range) : Prop where
  sub : ∀ entry, entry ∈ kept ∨ entry ∈ queue → entry ∈ vector
  complete : ∀ entry ∈ vector, isValidEntry memory owner entry = true → entry ∈ kept ∨ entry ∈ queue
  stands : ∀ object index, candidate = some (object, index) → ∃ entry, kept[index]? = some entry ∧
    isValidEntry memory owner entry = true ∧ object = LargeObject.ofAddress memory entry.begin ∧ fits object = true
  missed : candidate = none → ∀ entry ∈ window, isValidEntry memory owner entry = true →
    fits (LargeObject.ofAddress memory entry.begin) = true → entry ∈ queue

theorem better_cases (candidate : Option (LargeObject × Nat)) (object : LargeObject) (index : Nat) :
    FreeList.better candidate object index = some (object, index) ∨
      (candidate ≠ none ∧ FreeList.better candidate object index = candidate) := by
  unfold FreeList.better
  split
  · exact .inl rfl
  · split
    · exact .inr ⟨by simp, rfl⟩
    · exact .inl rfl

theorem Searching.keep {vector window : List Range} {candidate next : Option (LargeObject × Nat)}
    {kept rest : List Range} {entry : Range}
    (considered : FreeList.consider memory owner fits candidate kept.length entry = some next)
    (searching : Searching memory owner fits vector window candidate kept (entry :: rest)) :
    Searching memory owner fits vector window next (kept ++ [entry]) rest := by
  unfold FreeList.consider at considered
  split at considered
  · rename_i valid
    have stays : ∀ object index, candidate = some (object, index) → ∃ found, (kept ++ [entry])[index]? = some found ∧
        isValidEntry memory owner found = true ∧ object = LargeObject.ofAddress memory found.begin ∧
        fits object = true := by
      intro object index same
      obtain ⟨found, atIndex, state⟩ := searching.stands object index same
      obtain ⟨inside, _⟩ := List.getElem?_eq_some_iff.mp atIndex
      exact ⟨found, by rw [List.getElem?_append_left inside, atIndex], state⟩
    refine ⟨fun other => ?_, fun other member otherValid => ?_, ?_, ?_⟩
    · have old := searching.sub other
      simp only [List.mem_cons, List.mem_append] at old ⊢
      tauto
    · have old := searching.complete other member otherValid
      simp only [List.mem_cons, List.mem_append] at old ⊢
      tauto
    · intro object index same
      rw [← Option.some.inj considered] at same
      split at same
      · rename_i fitting
        rcases better_cases candidate (LargeObject.ofAddress memory entry.begin) kept.length with new | ⟨_, old⟩
        · obtain ⟨rfl, rfl⟩ := Prod.mk.inj (Option.some.inj (new.symm.trans same))
          exact ⟨entry, by simp, valid, rfl, fitting⟩
        · exact stays object index (old.symm.trans same)
      · exact stays object index same
    · intro none other member otherValid otherFits
      rw [← Option.some.inj considered] at none
      split at none
      · rcases better_cases candidate (LargeObject.ofAddress memory entry.begin) kept.length with new | ⟨some, old⟩
        · simp [new] at none
        · exact absurd (old.symm.trans none) some
      · rename_i unfit
        rcases List.mem_cons.mp (searching.missed none other member otherValid otherFits) with rfl | later
        · exact absurd otherFits unfit
        · exact later
  · cases considered

theorem Searching.drop {vector window : List Range} {candidate : Option (LargeObject × Nat)}
    {kept rest : List Range} {entry : Range}
    (considered : FreeList.consider memory owner fits candidate kept.length entry = none)
    (searching : Searching memory owner fits vector window candidate kept (entry :: rest)) :
    Searching memory owner fits vector window candidate kept rest := by
  unfold FreeList.consider at considered
  split at considered
  · cases considered
  · rename_i invalid
    refine ⟨fun other member => searching.sub other (member.imp_right (List.mem_cons_of_mem _)),
      fun other member valid => ?_, searching.stands, fun none other member valid otherFits => ?_⟩
    · have old := searching.complete other member valid
      have different : other ≠ entry := fun same => invalid (same ▸ valid)
      simpa [different] using old
    · have old := searching.missed none other member valid otherFits
      have different : other ≠ entry := fun same => invalid (same ▸ valid)
      simpa [different] using old

theorem FreeList.takeFitting_spec (list : FreeList) :
    Takes memory owner fits list.vector (list.takeFitting memory owner fits).1
        (list.takeFitting memory owner fits).2.vector ∧
      ((list.takeFitting memory owner fits).1 = none →
        ∀ entry ∈ list.vector.drop (list.vector.length - freeListSearchDepth),
          isValidEntry memory owner entry = true → fits (LargeObject.ofAddress memory entry.begin) = false) := by
  obtain ⟨begin, beginEq⟩ : ∃ begin, list.vector.length - freeListSearchDepth = begin := ⟨_, rfl⟩
  have split {entry : Range} : entry ∈ list.vector ↔
      entry ∈ list.vector.take begin ∨ entry ∈ list.vector.drop begin := by
    rw [← List.mem_append, List.take_append_drop]
  have start : Searching memory owner fits list.vector (list.vector.drop begin) none (list.vector.take begin)
      (list.vector.drop begin) :=
    ⟨fun entry => split.mpr, fun entry member _ => split.mp member, by simp, fun _ entry member _ _ => member⟩
  have searched := sweep_induction (consider memory owner fits)
    (motive := Searching memory owner fits list.vector (list.vector.drop begin))
    (fun perm searching => ⟨fun entry member => searching.sub entry (member.imp_right perm.mem_iff.mpr),
      fun entry member valid => (searching.complete entry member valid).imp_right perm.mem_iff.mp,
      searching.stands, fun none entry member valid fit =>
        perm.mem_iff.mp (searching.missed none entry member valid fit)⟩)
    Searching.drop Searching.keep start
  obtain ⟨candidate, vector, swept⟩ : ∃ candidate vector,
      sweep (consider memory owner fits) none (list.vector.take begin) (list.vector.drop begin) =
        (candidate, vector) := ⟨_, _, rfl⟩
  have result : list.takeFitting memory owner fits = list.popCandidate vector candidate := by
    simp only [takeFitting, beginEq, swept]
  rw [result, beginEq]
  rw [swept] at searched
  have all {entry : Range} (member : entry ∈ list.vector) (valid : isValidEntry memory owner entry = true) :
      entry ∈ vector := by
    simpa using searched.complete entry member valid
  cases candidate with
  | none =>
    refine ⟨⟨fun entry member => searched.sub entry (.inl member), by simp [popCandidate], fun _ entry => all⟩,
      fun _ entry member valid => ?_⟩
    rw [← Bool.not_eq_true]
    intro fit
    simpa using searched.missed rfl entry member valid fit
  | some found =>
    obtain ⟨object, index⟩ := found
    obtain ⟨entry, atIndex, valid, objectEq, fit⟩ := searched.stands object index rfl
    have perm := popAt_perm atIndex
    have member : entry ∈ list.vector := searched.sub entry (.inl (List.mem_of_getElem? atIndex))
    refine ⟨⟨fun other inside => ?_, fun taken same => ?_, by simp [popCandidate]⟩, by simp [popCandidate]⟩
    · exact searched.sub other (.inl (perm.mem_iff.mpr (List.mem_cons_of_mem _ inside)))
    · obtain rfl := Option.some.inj same
      refine ⟨entry, member, valid, objectEq, fit, fun other inside otherValid different => ?_⟩
      exact (List.mem_cons.mp (perm.mem_iff.mp (all inside otherValid))).resolve_left different

end Take

section Segregated

variable {memory : Memory} {owner : Owner} {fits : LargeObject → Bool}
  {takeOne : FreeList → Option LargeObject × FreeList}

/-- `Takes` for all lists together. -/
structure TakesFrom (memory : Memory) (owner : Owner) (fits : LargeObject → Bool) (lists : SegregatedFreeList)
    (taken : Option LargeObject) (rest : SegregatedFreeList) : Prop where
  sub : ∀ index, ∀ entry ∈ (rest index).vector, entry ∈ (lists index).vector
  found : ∀ object, taken = some object → ∃ index, ∃ entry ∈ (lists index).vector,
    isValidEntry memory owner entry = true ∧ object = LargeObject.ofAddress memory entry.begin ∧
    fits object = true ∧ ∀ index, ∀ other ∈ (lists index).vector, isValidEntry memory owner other = true →
      other ≠ entry → other ∈ (rest index).vector
  kept : taken = none → ∀ index, ∀ entry ∈ (lists index).vector, isValidEntry memory owner entry = true →
    entry ∈ (rest index).vector

theorem SegregatedFreeList.takeFrom_takes
    (takes : ∀ list, Takes memory owner fits list.vector (takeOne list).1 (takeOne list).2.vector)
    (indices : List Nat) (lists : SegregatedFreeList) :
    TakesFrom memory owner fits lists (takeFrom takeOne indices lists).1 (takeFrom takeOne indices lists).2 := by
  induction indices generalizing lists with
  | nil => exact ⟨fun _ _ member => member, by simp [takeFrom], fun _ _ _ member _ => member⟩
  | cons first rest ih =>
    have here := takes (lists first)
    rw [takeFrom]
    cases one : takeOne (lists first) with
    | mk taken list =>
      rw [one] at here
      -- an entry of the lists with the first one replaced
      have updated {index : Nat} {entry : Range}
          (member : entry ∈ (Function.update lists first list index).vector) : entry ∈ (lists index).vector := by
        by_cases same : index = first
        · subst same
          exact here.sub entry (by simpa using member)
        · simpa [same] using member
      cases taken with
      | some object =>
        refine ⟨fun index entry member => updated member, fun other same => ?_, by simp⟩
        obtain rfl := Option.some.inj same
        obtain ⟨entry, member, valid, objectEq, fit, others⟩ := here.found object rfl
        refine ⟨first, entry, member, valid, objectEq, fit, fun index other inside otherValid different => ?_⟩
        by_cases atFirst : index = first
        · subst atFirst
          simpa using others other inside otherValid different
        · simpa [atFirst] using inside
      | none =>
        have later := ih (Function.update lists first list)
        have stays {index : Nat} {entry : Range} (member : entry ∈ (lists index).vector)
            (valid : isValidEntry memory owner entry = true) :
            entry ∈ (Function.update lists first list index).vector := by
          by_cases same : index = first
          · subst same
            simpa using here.kept rfl entry member valid
          · simpa [same] using member
        refine ⟨fun index entry member => updated (later.sub index entry member), fun object same => ?_,
          fun none index entry member valid => later.kept none index entry (stays member valid) valid⟩
        obtain ⟨index, entry, member, valid, objectEq, fit, others⟩ := later.found object same
        exact ⟨index, entry, updated member, valid, objectEq, fit, fun index other inside otherValid =>
          others index other (stays inside otherValid) otherValid⟩

/-- A search over several lists fails only if it fails in each. -/
theorem SegregatedFreeList.takeFrom_none {indices : List Nat} (distinct : indices.Nodup)
    {lists : SegregatedFreeList} (none : (takeFrom takeOne indices lists).1 = none) {index : Nat}
    (member : index ∈ indices) : (takeOne (lists index)).1 = .none := by
  induction indices generalizing lists with
  | nil => simp at member
  | cons first rest ih =>
    obtain ⟨absent, distinct⟩ := List.nodup_cons.mp distinct
    rw [takeFrom] at none
    cases one : takeOne (lists first) with
    | mk taken list =>
      rw [one] at none
      cases taken with
      | some object => simp at none
      | none =>
        rcases List.mem_cons.mp member with rfl | later
        · rw [one]
        · have different : index ≠ first := fun same => absent (same ▸ later)
          simpa [different] using ih distinct none later

end Segregated

section Cleanup

variable {chunks : List Nat} {memory : Memory} {owner : Owner}

/-- What the first loop of the cleanup keeps. -/
structure Unmarked (chunks : List Nat) (memory : Memory) (owner : Owner) (vector : List Range)
    (current : Memory) (kept queue : List Range) : Prop where
  same : SameBlocks chunks memory current
  sub : ∀ entry, entry ∈ kept ∨ entry ∈ queue → entry ∈ vector
  complete : ∀ entry ∈ vector, isValidEntry memory owner entry = true → entry ∈ kept ∨ entry ∈ queue
  valid : ∀ entry ∈ kept, isValidEntry memory owner entry = true
  unmarked : ∀ entry ∈ kept, ∀ block, Holds chunks current entry.begin block → block.isMarked = false

theorem Unmarked.keep {vector kept rest : List Range} {current next : Memory} {entry : Range}
    (tiled : Tiled chunks memory) (placed : ∀ entry ∈ vector, Placed chunks entry)
    (visited : FreeList.unmark owner current kept.length entry = some next)
    (unmarked : Unmarked chunks memory owner vector current kept (entry :: rest)) :
    Unmarked chunks memory owner vector next (kept ++ [entry]) rest := by
  unfold FreeList.unmark at visited
  split at visited
  · rename_i valid
    have inVector := unmarked.sub entry (.inr (List.mem_cons_self ..))
    obtain ⟨block, holds, _⟩ := (unmarked.same.tiled.isValidEntry_iff (placed _ inVector)).mp valid
    have change := holds.setMarked unmarked.same.tiled false
    have sameNow := holds.sameBlocks_setMarked unmarked.same.tiled false
    rw [unmarked.same.isValidEntry_eq tiled (placed _ inVector)] at valid
    rw [holds.ofAddress] at visited
    obtain rfl := Option.some.inj visited
    refine ⟨unmarked.same.trans sameNow, fun other => ?_, fun other member otherValid => ?_,
      fun other member => ?_, fun other member found after => ?_⟩
    · have old := unmarked.sub other
      simp only [List.mem_cons, List.mem_append] at old ⊢
      tauto
    · have old := unmarked.complete other member otherValid
      simp only [List.mem_cons, List.mem_append] at old ⊢
      tauto
    · rcases List.mem_append.mp member with old | new
      · exact unmarked.valid other old
      · exact List.mem_singleton.mp new ▸ valid
    · rcases change.back after with ⟨before, notGone⟩ | new
      · rcases List.mem_append.mp member with old | new
        · exact unmarked.unmarked other old found before
        · obtain rfl := List.mem_singleton.mp new
          exact absurd (List.mem_singleton.mpr (by rw [before.unique holds])) notGone
      · obtain ⟨_, rfl⟩ := Prod.mk.inj (List.mem_singleton.mp new)
        rfl
  · cases visited

theorem Unmarked.drop {vector kept rest : List Range} {current : Memory} {entry : Range}
    (tiled : Tiled chunks memory) (placed : ∀ entry ∈ vector, Placed chunks entry)
    (visited : FreeList.unmark owner current kept.length entry = none)
    (unmarked : Unmarked chunks memory owner vector current kept (entry :: rest)) :
    Unmarked chunks memory owner vector current kept rest := by
  unfold FreeList.unmark at visited
  split at visited
  · cases visited
  · rename_i invalid
    have inVector := unmarked.sub entry (.inr (List.mem_cons_self ..))
    rw [unmarked.same.isValidEntry_eq tiled (placed _ inVector)] at invalid
    refine ⟨unmarked.same, fun other member => unmarked.sub other (member.imp_right (List.mem_cons_of_mem _)),
      fun other member valid => ?_, unmarked.valid, unmarked.unmarked⟩
    have old := unmarked.complete other member valid
    have different : other ≠ entry := fun same => invalid (same ▸ valid)
    simpa [different] using old

/-- What the second loop of the cleanup keeps: a mark says that an entry is there. -/
structure Marked (chunks : List Nat) (memory : Memory) (vector : List Range)
    (current : Memory) (kept queue : List Range) : Prop where
  same : SameBlocks chunks memory current
  mem_iff : ∀ entry, entry ∈ kept ∨ entry ∈ queue ↔ entry ∈ vector
  distinct : kept.Nodup
  marked : ∀ entry ∈ vector, ∀ block, Holds chunks current entry.begin block →
    (block.isMarked = true ↔ entry ∈ kept)

/-- Entries that stand for free objects are told apart by where they begin. -/
theorem entry_eq_of_begin (tiled : Tiled chunks memory) {entry other : Range} (placed : Placed chunks entry)
    (otherPlaced : Placed chunks other) (valid : isValidEntry memory owner entry = true)
    (otherValid : isValidEntry memory owner other = true) (same : entry.begin = other.begin) : entry = other := by
  obtain ⟨block, holds, _, _, size⟩ := (tiled.isValidEntry_iff placed).mp valid
  obtain ⟨otherBlock, otherHolds, _, _, otherSize⟩ := (tiled.isValidEntry_iff otherPlaced).mp otherValid
  rw [← same] at otherHolds
  cases entry
  cases other
  simp only at same size otherSize
  rw [same, ← size, ← otherSize, holds.unique otherHolds]

theorem Marked.keep {vector kept rest : List Range} {current next : Memory} {entry : Range}
    (tiled : Tiled chunks memory) (placed : ∀ entry ∈ vector, Placed chunks entry)
    (valid : ∀ entry ∈ vector, isValidEntry memory owner entry = true)
    (visited : FreeList.mark current kept.length entry = some next)
    (marked : Marked chunks memory vector current kept (entry :: rest)) :
    Marked chunks memory vector next (kept ++ [entry]) rest := by
  have inVector := (marked.mem_iff entry).mp (.inr (List.mem_cons_self ..))
  have validNow := valid entry inVector
  rw [← marked.same.isValidEntry_eq tiled (placed _ inVector)] at validNow
  obtain ⟨block, holds, _⟩ := (marked.same.tiled.isValidEntry_iff (placed _ inVector)).mp validNow
  have change := holds.setMarked marked.same.tiled true
  have sameNow := holds.sameBlocks_setMarked marked.same.tiled true
  simp only [FreeList.mark, holds.ofAddress, holds.tag] at visited
  split at visited
  · cases visited
  · rename_i unmarked
    have absent : entry ∉ kept := fun member => unmarked ((marked.marked entry inVector block holds).mpr member)
    obtain rfl := Option.some.inj visited
    refine ⟨marked.same.trans sameNow, fun other => ?_, ?_, fun other member found after => ?_⟩
    · rw [← marked.mem_iff other]
      simp only [List.mem_cons, List.mem_append]
      tauto
    · exact List.nodup_append.mpr ⟨marked.distinct, by simp, by
        rintro other inKept _ inNew rfl
        exact absent (List.mem_singleton.mp inNew ▸ inKept)⟩
    · rcases change.back after with ⟨before, notGone⟩ | new
      · have different : other ≠ entry := by
          rintro rfl
          exact notGone (List.mem_singleton.mpr (by rw [before.unique holds]))
        simp [marked.marked other member found before, different]
      · obtain ⟨begins, rfl⟩ := Prod.mk.inj (List.mem_singleton.mp new)
        obtain rfl := entry_eq_of_begin tiled (placed _ member) (placed _ inVector) (valid _ member)
          (valid _ inVector) begins
        simp

theorem Marked.drop {vector kept rest : List Range} {current : Memory} {entry : Range}
    (tiled : Tiled chunks memory) (placed : ∀ entry ∈ vector, Placed chunks entry)
    (valid : ∀ entry ∈ vector, isValidEntry memory owner entry = true)
    (visited : FreeList.mark current kept.length entry = none)
    (marked : Marked chunks memory vector current kept (entry :: rest)) :
    Marked chunks memory vector current kept rest := by
  have inVector := (marked.mem_iff entry).mp (.inr (List.mem_cons_self ..))
  have validNow := valid entry inVector
  rw [← marked.same.isValidEntry_eq tiled (placed _ inVector)] at validNow
  obtain ⟨block, holds, _⟩ := (marked.same.tiled.isValidEntry_iff (placed _ inVector)).mp validNow
  simp only [FreeList.mark, holds.ofAddress, holds.tag] at visited
  split at visited
  · rename_i isMarked
    have present := (marked.marked entry inVector block holds).mp isMarked
    refine ⟨marked.same, fun other => ?_, marked.distinct, marked.marked⟩
    rw [← marked.mem_iff other, List.mem_cons]
    constructor
    · tauto
    · rintro (inKept | rfl | later)
      · exact .inl inKept
      · exact .inl present
      · exact .inr later
  · cases visited

/-- The cleanup leaves every valid entry once and no other. -/
theorem FreeList.removeInvalidAndDuplicateEntries_spec (owner : Owner) (tiled : Tiled chunks memory)
    {vector : List Range} (placed : ∀ entry ∈ vector, Placed chunks entry) :
    SameBlocks chunks memory (removeInvalidAndDuplicateEntries memory owner vector).1 ∧
      (removeInvalidAndDuplicateEntries memory owner vector).2.Nodup ∧
      ∀ entry, entry ∈ (removeInvalidAndDuplicateEntries memory owner vector).2 ↔
        entry ∈ vector ∧ isValidEntry memory owner entry = true := by
  have first := sweep_induction (unmark owner) (motive := Unmarked chunks memory owner vector)
    (fun perm unmarked => ⟨unmarked.same, fun entry member => unmarked.sub entry (member.imp_right perm.mem_iff.mpr),
      fun entry member valid => (unmarked.complete entry member valid).imp_right perm.mem_iff.mp, unmarked.valid,
      unmarked.unmarked⟩)
    (Unmarked.drop tiled placed) (Unmarked.keep tiled placed)
    (show Unmarked chunks memory owner vector memory [] vector from
      ⟨SameBlocks.refl tiled, by simp, by simp +contextual, by simp, by simp⟩)
  obtain ⟨middle, cleaned, swept⟩ : ∃ middle cleaned, sweep (unmark owner) memory [] vector = (middle, cleaned) :=
    ⟨_, _, rfl⟩
  rw [swept] at first
  have cleanedIff (entry : Range) : entry ∈ cleaned ↔ entry ∈ vector ∧ isValidEntry memory owner entry = true :=
    ⟨fun member => ⟨first.sub entry (.inl member), first.valid entry member⟩, fun both => by
      simpa using first.complete entry both.1 both.2⟩
  have cleanedPlaced : ∀ entry ∈ cleaned, Placed chunks entry := fun entry member =>
    placed entry ((cleanedIff entry).mp member).1
  have cleanedValid : ∀ entry ∈ cleaned, isValidEntry middle owner entry = true := fun entry member => by
    rw [first.same.isValidEntry_eq tiled (cleanedPlaced entry member)]
    exact first.valid entry member
  have second := sweep_induction mark (motive := Marked chunks middle cleaned)
    (fun perm marked => ⟨marked.same, fun entry => by rw [← perm.mem_iff]; exact marked.mem_iff entry,
      marked.distinct, marked.marked⟩)
    (Marked.drop first.same.tiled cleanedPlaced cleanedValid) (Marked.keep first.same.tiled cleanedPlaced cleanedValid)
    (show Marked chunks middle cleaned middle [] cleaned from
      ⟨SameBlocks.refl first.same.tiled, by simp, by simp, fun entry member block holds => by
        simp [first.unmarked entry member block holds]⟩)
  have result : removeInvalidAndDuplicateEntries memory owner vector = sweep mark middle [] cleaned := by
    simp only [removeInvalidAndDuplicateEntries, swept]
  rw [result]
  refine ⟨first.same.trans second.same, second.distinct, fun entry => ?_⟩
  rw [← cleanedIff entry, ← second.mem_iff entry]
  simp

/-- Pushing keeps the valid entries and puts the new one last. -/
theorem FreeList.push_spec (owner : Owner) (tiled : Tiled chunks memory) {list : FreeList}
    (placed : ∀ entry ∈ list.vector, Placed chunks entry) {address : Nat} {block : Block}
    (holds : Holds chunks memory address block) :
    SameBlocks chunks memory (list.push memory owner (.spanning address block.size)).1 ∧
      ∃ front, (list.push memory owner (.spanning address block.size)).2.vector = front ++ [⟨address, block.size⟩] ∧
        (∀ entry ∈ front, entry ∈ list.vector) ∧
        ∀ entry ∈ list.vector, isValidEntry memory owner entry = true → entry ∈ front := by
  unfold push
  split
  · obtain ⟨same, _, members⟩ := removeInvalidAndDuplicateEntries_spec owner tiled placed
    refine ⟨same, _, ?_, fun entry member => ((members entry).mp member).1, fun entry member valid =>
      (members entry).mpr ⟨member, valid⟩⟩
    obtain ⟨_, after⟩ := same.forth holds
    simp only [LargeObject.spanning_begin, after.size_eq]
  · refine ⟨SameBlocks.refl tiled, list.vector, ?_, fun _ member => member, fun _ member _ => member⟩
    simp only [LargeObject.spanning_begin, holds.size_eq]

end Cleanup

end WebNode.Bmalloc
