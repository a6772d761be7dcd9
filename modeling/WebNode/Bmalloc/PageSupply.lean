import WebNode.Bmalloc.PageInvariant

/-! Where pages come from: the lists, the VM heap and fresh super chunks. Whatever
page an allocation gets has a usable free line, and a refill uses all of them. -/
namespace WebNode.Bmalloc

open PageHeap

section Grow

variable {kind : Kind} {heap : PageHeap} {objects : List Object} {superChunks : List Nat} {fresh : Nat}

theorem mem_chunkPages {page : Nat} (member : page ∈ chunkPages kind fresh) :
    page * vmPageSize / superChunkSize = fresh ∧
      page * vmPageSize / Kind.chunkSize % 4 = kind.chunkOffset / Kind.chunkSize := by
  obtain ⟨offset, inChunk, rfl⟩ := List.mem_map.mp member
  rw [List.mem_range'_1] at inChunk
  have bounded : offset < Kind.chunkSize / vmPageSize := by omega
  cases kind <;>
    simp only [Kind.chunkSize, Kind.chunkOffset, superChunkSize, vmPageSize, smallChunkOffset,
      mediumChunkOffset] at bounded ⊢ <;> omega

theorem nodup_chunkPages : (chunkPages kind fresh).Nodup :=
  List.Nodup.map (fun _ _ same => Nat.add_left_cancel same) List.nodup_range'

/-- A line lies in the super chunk of every object that starts in it. -/
theorem superChunk_of_line (kind : Kind) (address : Nat) :
    Line.get kind address * kind.lineSize / superChunkSize = address / superChunkSize := by
  cases kind <;>
    simp only [Line.get, Kind.lineSize, smallLineSize, mediumLineSize, superChunkSize] <;> omega

theorem superChunk_of_page (address : Nat) :
    address / vmPageSize * vmPageSize / superChunkSize = address / superChunkSize := by
  simp only [vmPageSize, superChunkSize]
  omega

theorem InRegion.mono {page : Nat} (region : InRegion kind superChunks page) :
    InRegion kind (fresh :: superChunks) page :=
  ⟨List.mem_cons_of_mem _ region.superChunk, region.quarter⟩

theorem InRegion.not_fresh {page : Nat} (region : InRegion kind superChunks page) (isFresh : fresh ∉ superChunks) :
    page * vmPageSize / superChunkSize ≠ fresh := by
  intro same
  exact isFresh (same ▸ region.superChunk)

/-- A page in use has an object. -/
theorem Counted.exists_object (counted : Counted kind heap objects) {page : Nat} (inUse : heap.pageRefs page ≠ 0) :
    ∃ object ∈ objects, object.address / vmPageSize = page := by
  rw [counted.pages, ← Nat.pos_iff_ne_zero, usedLines, List.countP_pos_iff] at inUse
  obtain ⟨lineNumber, inRange, used⟩ := inUse
  have positive := Nat.pos_of_ne_zero (of_decide_eq_true used)
  rw [counted.lines, List.countP_pos_iff] at positive
  obtain ⟨object, member, atLine⟩ := positive
  obtain ⟨valid, otherLine, inPage, inLine⟩ := counted.onGrid object member
  have line := (valid.line_get inPage inLine).symm.trans (of_decide_eq_true atLine)
  exact ⟨object, member, (Page.begin_add_inj inPage (List.mem_range.mp inRange) line).1⟩

/-- The counts of a fresh super chunk were zero before, having no objects. -/
theorem Counted.lineRefs_grow (counted : Counted kind heap objects) (isFresh : fresh ∉ superChunks)
    (region : ∀ object ∈ objects, InRegion kind superChunks (object.address / vmPageSize)) :
    (heap.grow kind fresh).lineRefs = heap.lineRefs := by
  funext line
  simp only [PageHeap.grow]
  split
  · rename_i here
    rw [counted.lines, eq_comm, List.countP_eq_zero]
    intro object member same
    have outside := (region object member).not_fresh isFresh
    rw [superChunk_of_page, ← superChunk_of_line kind, of_decide_eq_true same] at outside
    exact outside here
  · rfl

variable (invariant : PagesInvariant kind heap objects superChunks)

include invariant

theorem PagesInvariant.in_region {page : Nat} (inUse : heap.pageRefs page ≠ 0) :
    InRegion kind superChunks page := by
  obtain ⟨object, member, rfl⟩ := invariant.counted.exists_object inUse
  exact invariant.region object member

theorem PagesInvariant.pageRefs_grow (isFresh : fresh ∉ superChunks) :
    (heap.grow kind fresh).pageRefs = heap.pageRefs := by
  funext page
  simp only [PageHeap.grow]
  split
  · rename_i here
    by_contra inUse
    exact (invariant.in_region (Ne.symm inUse)).not_fresh isFresh here
  · rfl

/-- A fresh super chunk adds idle pages. -/
theorem PagesInvariant.grow (isFresh : fresh ∉ superChunks) :
    PagesInvariant kind (heap.grow kind fresh) objects (fresh :: superChunks) := by
  have lineRefs := invariant.counted.lineRefs_grow isFresh invariant.region
  have pageRefs := invariant.pageRefs_grow isFresh
  have pageClass {page : Nat} (region : InRegion kind superChunks page) :
      (heap.grow kind fresh).pageClass page = heap.pageClass page := by
    simp only [PageHeap.grow, if_neg (region.not_fresh isFresh)]
  refine ⟨⟨?_, invariant.counted.distinct, ?_, ?_⟩, ?_, ?_,
    fun object member => (invariant.region object member).mono⟩
  · intro object member
    rw [pageClass (invariant.region object member)]
    exact invariant.counted.onGrid object member
  · rw [lineRefs]
    exact invariant.counted.lines
  · rw [lineRefs, pageRefs]
    exact invariant.counted.pages
  · refine invariant.listed.congr (fun page inUse => pageClass (invariant.in_region inUse))
      (fun page => by rw [pageRefs]) rfl ?_
    intro page inUse _
    exact hasFreeLine_congr (pageClass (invariant.in_region inUse)) fun _ _ => by rw [lineRefs]
  · have idlePages : (heap.grow kind fresh).idlePages.Perm (chunkPages kind fresh ++ heap.idlePages) := by
      have swap : (heap.pages ++ ((chunkPages kind fresh).reverse ++ heap.vmPages)).Perm
          (chunkPages kind fresh ++ (heap.pages ++ heap.vmPages)) := by
        rw [← List.append_assoc, ← List.append_assoc]
        exact ((List.Perm.append_left _ (List.reverse_perm _)).trans List.perm_append_comm).append_right _
      simpa [PageHeap.idlePages, PageHeap.grow, List.append_assoc] using swap.append_right heap.scavenged
    have new {page : Nat} (member : page ∈ chunkPages kind fresh) : page ∉ heap.idlePages := fun old =>
      (invariant.idle.region page old).not_fresh isFresh (mem_chunkPages member).1
    refine ⟨?_, ?_, ?_⟩
    · intro page member
      rw [pageRefs]
      rcases List.mem_append.mp (idlePages.mem_iff.mp member) with added | old
      · by_contra inUse
        exact (invariant.in_region inUse).not_fresh isFresh (mem_chunkPages added).1
      · exact invariant.idle.unused page old
    · rw [idlePages.nodup_iff]
      exact List.Nodup.append nodup_chunkPages invariant.idle.distinct fun page => new
    · intro page member
      rcases List.mem_append.mp (idlePages.mem_iff.mp member) with added | old
      · obtain ⟨superChunk, quarter⟩ := mem_chunkPages added
        exact ⟨by simp [superChunk], quarter⟩
      · exact (invariant.idle.region page old).mono

end Grow

/-- A page that an allocation has taken out of the lists: it has a usable free line,
and the invariant holds but for its not being listed. -/
structure Prepared (kind : Kind) (heap : PageHeap) (objects : List Object) (superChunks : List Nat)
    (c page : Nat) : Prop where
  counted : Counted kind heap objects
  idle : Idle kind heap superChunks
  region : ∀ object ∈ objects, InRegion kind superChunks (object.address / vmPageSize)
  valid : ValidClass kind c
  assigned : heap.pageClass page = c
  pageRegion : InRegion kind superChunks page
  notIdle : page ∉ heap.idlePages
  free : HasFreeLine kind heap page
  unlisted : page ∉ heap.pagesWithFreeLines c
  unique : ∀ c, ((heap.pagesWithFreeLines c).filter fun page => Active heap c page).Nodup
  useful : ∀ c, ∀ page ∈ heap.pagesWithFreeLines c, Active heap c page → HasFreeLine kind heap page
  complete : ∀ other, other ≠ page → heap.pageRefs other ≠ 0 → HasFreeLine kind heap other →
    FitsLastLine kind (heap.pageClass other) → other ∈ heap.pagesWithFreeLines (heap.pageClass other)
  silent : ∀ c, ¬ FitsLastLine kind c → heap.pagesWithFreeLines c = []

section Refill

variable {kind : Kind} {heap : PageHeap} {objects : List Object} {superChunks : List Nat} {c page : Nat}

theorem Prepared.refill_listed (prepared : Prepared kind heap objects superChunks c page) {later : PageHeap}
    (lists : SameLists heap later)
    (sameRefs : ∀ other, other ≠ page → later.pageRefs other = heap.pageRefs other)
    (sameFree : ∀ other, other ≠ page → (HasFreeLine kind later other ↔ HasFreeLine kind heap other))
    (filled : ¬ HasFreeLine kind later page) : Listed kind later := by
  have active {c' other : Nat} (inList : other ∈ heap.pagesWithFreeLines c')
      (isActive : Active later c' other) : other ≠ page ∧ Active heap c' other := by
    rw [Active, lists.pageClass] at isActive
    have different : other ≠ page := by
      rintro rfl
      exact prepared.unlisted (prepared.assigned ▸ isActive.2 ▸ inList)
    exact ⟨different, sameRefs other different ▸ isActive.1, isActive.2⟩
  constructor
  · intro c'
    rw [lists.pagesWithFreeLines]
    exact unique_of_imp (fun _ inList isActive => (active inList isActive).2) (prepared.unique c')
  · intro c' other inList isActive
    rw [lists.pagesWithFreeLines] at inList
    obtain ⟨different, before⟩ := active inList isActive
    exact (sameFree other different).mpr (prepared.useful c' other inList before)
  · intro other inUse free fits
    have different : other ≠ page := fun same => filled (same ▸ free)
    rw [lists.pageClass] at fits ⊢
    rw [lists.pagesWithFreeLines]
    exact prepared.complete other different (sameRefs other different ▸ inUse)
      ((sameFree other different).mp free) fits
  · intro c' none
    rw [lists.pagesWithFreeLines]
    exact prepared.silent c' none

/-- The refill of a prepared page: the invariant holds again, and there are ranges,
but no more than the cache can hold. -/
theorem Prepared.refill (prepared : Prepared kind heap objects superChunks c page) :
    PagesInvariant kind
        (refillLines kind c page (List.range (usableLines kind c)) heap none []).1
        (cacheObjects c (refillLines kind c page (List.range (usableLines kind c)) heap none []).2 ++ objects)
        superChunks ∧
      (refillLines kind c page (List.range (usableLines kind c)) heap none []).2 ≠ [] ∧
      (refillLines kind c page (List.range (usableLines kind c)) heap none []).2.length ≤
        bumpRangeCacheCapacity := by
  have lists : SameLists heap (refillLines kind c page (List.range (usableLines kind c)) heap none []).1 :=
    refillLines_lists
  have bounded := usableLines_le kind c
  have inPage : ∀ lineNumber ∈ List.range (usableLines kind c), lineNumber < kind.lineCount :=
    fun lineNumber member => Nat.lt_of_lt_of_le (List.mem_range.mp member) bounded
  have holds : ∀ lineNumber ∈ List.range (usableLines kind c), 0 < lineObjectCount kind c lineNumber :=
    fun lineNumber member => prepared.valid.usable_count (List.mem_range.mp member)
  have counted : Counted kind (refillLines kind c page (List.range (usableLines kind c)) heap none []).1
      (cacheObjects c (refillLines kind c page (List.range (usableLines kind c)) heap none []).2 ++ objects) := by
    rw [List.range_eq_range']
    exact prepared.valid.refillLines_counted (by omega) prepared.assigned (by simp) prepared.counted
  have elsewhere : ∀ other, other ≠ page → (HasFreeLine kind
      (refillLines kind c page (List.range (usableLines kind c)) heap none []).1 other ↔
        HasFreeLine kind heap other) := by
    intro other different
    refine hasFreeLine_congr (by rw [lists.pageClass]) fun lineNumber lineInPage => ?_
    rw [refillLines_lineRefs inPage (by rwa [Page.get_begin lineInPage])]
  refine ⟨⟨counted, ?_, ?_, ?_⟩, ?_, ?_⟩
  · refine prepared.refill_listed lists (fun other different => refillLines_pageRefs different) elsewhere ?_
    rintro ⟨lineNumber, lineInPage, unused, fits⟩
    rw [lists.pageClass, prepared.assigned] at fits
    exact refillLines_fills holds (List.mem_range.mpr (usable_of_count lineInPage fits)) unused
  · have idlePages : (refillLines kind c page (List.range (usableLines kind c)) heap none []).1.idlePages =
        heap.idlePages := by
      rw [PageHeap.idlePages, lists.pages, lists.vmPages, lists.scavenged, PageHeap.idlePages]
    refine ⟨?_, idlePages ▸ prepared.idle.distinct, idlePages ▸ prepared.idle.region⟩
    intro other member
    rw [idlePages] at member
    have different : other ≠ page := fun same => prepared.notIdle (same ▸ member)
    rw [refillLines_pageRefs different]
    exact prepared.idle.unused other member
  · intro object member
    rcases List.mem_append.mp member with new | old
    · rw [List.range_eq_range'] at new
      rcases prepared.valid.refillLines_mem (by omega) (by simp) new with held | inLine
      · simp [cacheObjects] at held
      · have onGrid : OnGrid kind c page object := ⟨prepared.valid, inLine⟩
        rw [onGrid.in_page.2.2]
        exact prepared.pageRegion
    · exact prepared.region object old
  · apply refillLines_ne_nil
    obtain ⟨lineNumber, lineInPage, unused, fits⟩ := prepared.free
    rw [prepared.assigned] at fits
    exact .inr (.inr ⟨lineNumber, List.mem_range.mpr (usable_of_count lineInPage fits), unused⟩)
  · refine Nat.le_trans refillLines_length ?_
    have lines : kind.lineCount ≤ 16 := by cases kind <;> decide
    simp only [List.length_nil, List.length_range, Option.toList_none]
    simp only [bumpRangeCacheCapacity, vmPageSize, smallLineSize]
    omega

end Refill

section Allocate

variable {kind : Kind} {heap : PageHeap} {objects : List Object} {superChunks : List Nat} {c page : Nat}

/-- Popping skips stale entries up to the first that is not. -/
theorem popPage_spec (heap : PageHeap) (c : Nat) (list : List Nat) :
    (∃ skipped page rest, heap.popPage c list = (some page, rest) ∧ list = skipped ++ page :: rest ∧
        Active heap c page ∧ ∀ other ∈ skipped, ¬ Active heap c other) ∨
      (heap.popPage c list = (none, []) ∧ ∀ other ∈ list, ¬ Active heap c other) := by
  induction list with
  | nil => exact .inr ⟨rfl, by simp⟩
  | cons first rest ih =>
    rw [popPage]
    split
    · rename_i stale
      have inactive : ¬ Active heap c first := fun active =>
        stale.elim active.1 fun different => different active.2
      rcases ih with ⟨skipped, page, later, popped, split, active, before⟩ | ⟨popped, none⟩
      · refine .inl ⟨first :: skipped, page, later, popped, by simp [split], active, ?_⟩
        simpa using ⟨inactive, before⟩
      · exact .inr ⟨popped, by simpa using ⟨inactive, none⟩⟩
    · rename_i kept
      push Not at kept
      exact .inl ⟨[], first, rest, rfl, rfl, kept, by simp⟩

variable (invariant : PagesInvariant kind heap objects superChunks)

include invariant

/-- A page taken from the list of its size class. -/
theorem PagesInvariant.prepare_listed (valid : ValidClass kind c) {skipped rest : List Nat}
    (split : heap.pagesWithFreeLines c = skipped ++ page :: rest) (active : Active heap c page)
    (stale : ∀ other ∈ skipped, ¬ Active heap c other) :
    Prepared kind (heap.setPagesWithFreeLines c rest) objects superChunks c page := by
  have inList : page ∈ heap.pagesWithFreeLines c := by simp [split]
  have unique : ((page :: rest).filter fun other => Active heap c other).Nodup := by
    have whole := invariant.listed.unique c
    rw [split, List.filter_append] at whole
    exact (List.nodup_append.mp whole).2.1
  rw [List.filter_cons_of_pos (by simpa using active), List.nodup_cons] at unique
  have absent : page ∉ rest := fun present =>
    unique.1 (List.mem_filter.mpr ⟨present, by simpa using active⟩)
  have lists (c' : Nat) : (heap.setPagesWithFreeLines c rest).pagesWithFreeLines c' =
      if c' = c then rest else heap.pagesWithFreeLines c' := by
    simp [setPagesWithFreeLines, Function.update_apply]
  have kept {c' other : Nat} (member : other ∈ (heap.setPagesWithFreeLines c rest).pagesWithFreeLines c') :
      other ∈ heap.pagesWithFreeLines c' := by
    rw [lists] at member
    split at member
    · rename_i same
      simp [same, split, member]
    · exact member
  refine ⟨⟨invariant.counted.onGrid, invariant.counted.distinct, invariant.counted.lines,
      invariant.counted.pages⟩, ⟨invariant.idle.unused, invariant.idle.distinct, invariant.idle.region⟩,
    invariant.region, valid, active.2, invariant.in_region active.1, ?_, ?_, ?_, ?_, ?_, ?_, ?_⟩
  · exact fun member => active.1 (invariant.idle.unused page member)
  · exact invariant.listed.useful c page inList active
  · rwa [lists, if_pos rfl]
  · intro c'
    rw [lists]
    split
    · rename_i same
      subst same
      exact unique.2
    · exact invariant.listed.unique c'
  · intro c' other member isActive
    exact invariant.listed.useful c' other (kept member) isActive
  · intro other different inUse free fits
    have before := invariant.listed.complete other inUse free fits
    rw [lists]
    split
    · rename_i same
      rw [show heap.pageClass other = c from same] at before
      have later : other ∈ skipped ∨ other = page ∨ other ∈ rest := by simpa [split] using before
      rcases later with early | here | later
      · exact absurd ⟨inUse, same⟩ (stale other early)
      · exact absurd here different
      · exact later
    · exact before
  · intro c' none
    rw [lists]
    split
    · rename_i same
      subst same
      rw [invariant.listed.silent c' none] at inList
      cases inList
    · exact invariant.listed.silent c' none

/-- A list of stale entries can be dropped. -/
theorem PagesInvariant.drop_stale (stale : ∀ other ∈ heap.pagesWithFreeLines c, ¬ Active heap c other) :
    PagesInvariant kind (heap.setPagesWithFreeLines c []) objects superChunks := by
  have lists (c' : Nat) : (heap.setPagesWithFreeLines c []).pagesWithFreeLines c' =
      if c' = c then [] else heap.pagesWithFreeLines c' := by
    simp [setPagesWithFreeLines, Function.update_apply]
  refine ⟨⟨invariant.counted.onGrid, invariant.counted.distinct, invariant.counted.lines,
      invariant.counted.pages⟩, ⟨?_, ?_, ?_, ?_⟩,
    ⟨invariant.idle.unused, invariant.idle.distinct, invariant.idle.region⟩, invariant.region⟩
  · intro c'
    rw [lists]
    split
    · simp
    · exact invariant.listed.unique c'
  · intro c' other member isActive
    rw [lists] at member
    split at member
    · cases member
    · exact invariant.listed.useful c' other member isActive
  · intro other inUse free fits
    have before := invariant.listed.complete other inUse free fits
    rw [lists]
    split
    · rename_i same
      exact absurd ⟨inUse, same⟩ (stale other (same ▸ before))
    · exact before
  · intro c' none
    rw [lists]
    split
    · rfl
    · exact invariant.listed.silent c' none

/-- An idle page, taken for a size class that has no pages listed. -/
theorem PagesInvariant.prepare_idle (valid : ValidClass kind c) (empty : heap.pagesWithFreeLines c = [])
    {later : PageHeap}
    (lineRefs : later.lineRefs = heap.lineRefs) (pageRefs : later.pageRefs = heap.pageRefs)
    (pageClass : later.pageClass = heap.pageClass)
    (lists : later.pagesWithFreeLines = heap.pagesWithFreeLines)
    (taken : heap.idlePages.Perm (page :: later.idlePages)) :
    Prepared kind (later.setSizeClass page c) objects superChunks c page := by
  have wasIdle : page ∈ heap.idlePages := taken.mem_iff.mpr (by simp)
  have unused : heap.pageRefs page = 0 := invariant.idle.unused page wasIdle
  obtain ⟨notIdle, distinct⟩ := List.nodup_cons.mp (taken.nodup_iff.mp invariant.idle.distinct)
  have stillIdle {other : Nat} (member : other ∈ later.idlePages) : other ∈ heap.idlePages :=
    taken.mem_iff.mpr (by simp [member])
  have sameClass {other : Nat} (different : other ≠ page) :
      (later.setSizeClass page c).pageClass other = heap.pageClass other := by
    simp [setSizeClass, Function.update_of_ne different, pageClass]
  have listed : Listed kind (later.setSizeClass page c) := by
    have inUse {other : Nat} (positive : heap.pageRefs other ≠ 0) : other ≠ page := fun same =>
      positive (same ▸ unused)
    refine invariant.listed.congr (fun other positive => sameClass (inUse positive))
      (fun other => by simp [setSizeClass, pageRefs]) lists ?_
    intro other positive _
    exact hasFreeLine_congr (sameClass (inUse positive)) fun _ _ => by simp [setSizeClass, lineRefs]
  have zeroLine : heap.lineRefs (Page.begin kind page + 0) = 0 := by
    by_contra used
    have positive := usedLines_pos (Nat.zero_lt_of_lt kind.lineCount_pos) used
    rw [← invariant.counted.pages, unused] at positive
    exact Nat.lt_irrefl 0 positive
  refine ⟨⟨?_, invariant.counted.distinct, ?_, ?_⟩, ⟨?_, distinct, ?_⟩, invariant.region, valid,
    by simp [setSizeClass], invariant.idle.region page wasIdle, notIdle, ?_, ?_, listed.unique,
    listed.useful, fun other _ => listed.complete other, listed.silent⟩
  · intro object member
    rw [sameClass (invariant.counted.free_page unused member)]
    exact invariant.counted.onGrid object member
  · exact lineRefs ▸ invariant.counted.lines
  · simp only [setSizeClass, lineRefs, pageRefs]
    exact invariant.counted.pages
  · intro other member
    simp only [setSizeClass, pageRefs]
    exact invariant.idle.unused other (stillIdle member)
  · intro other member
    exact invariant.idle.region other (stillIdle member)
  · refine ⟨0, Nat.zero_lt_of_lt kind.lineCount_pos, by simpa [setSizeClass, lineRefs] using zeroLine, ?_⟩
    have lines := kind.lineCount_pos
    have fits : 0 < lineObjectCount kind c 0 := valid.lineObjectCount_pos (by omega)
    simpa [setSizeClass] using Nat.ne_of_gt fits
  · simp [setSizeClass, lists, empty]

end Allocate

section Scavenge

variable {kind : Kind} {heap later : PageHeap} {objects : List Object} {superChunks : List Nat}

variable (invariant : PagesInvariant kind heap objects superChunks)

include invariant

/-- Idle pages may move between the lists. -/
theorem PagesInvariant.move_idle (lineRefs : later.lineRefs = heap.lineRefs)
    (pageRefs : later.pageRefs = heap.pageRefs)
    (pageClass : later.pageClass = heap.pageClass)
    (lists : later.pagesWithFreeLines = heap.pagesWithFreeLines)
    (moved : heap.idlePages.Perm later.idlePages) : PagesInvariant kind later objects superChunks := by
  obtain ⟨⟨onGrid, distinct, lines, pages⟩, listed, idle, region⟩ := invariant
  refine ⟨⟨pageClass ▸ onGrid, distinct, lineRefs ▸ lines, ?_⟩, ?_, ?_, region⟩
  · rw [pageRefs, lineRefs]
    exact pages
  · refine listed.congr (fun _ _ => by rw [pageClass]) (fun _ => by rw [pageRefs]) lists ?_
    intro page _ _
    exact hasFreeLine_congr (by rw [pageClass]) fun _ _ => by rw [lineRefs]
  · refine ⟨fun page member => ?_, moved.nodup_iff.mp idle.distinct,
      fun page member => idle.region page (moved.mem_iff.mpr member)⟩
    rw [pageRefs]
    exact idle.unused page (moved.mem_iff.mpr member)

theorem PagesInvariant.scavengeBegin (begun : heap.scavengeBegin = some later) :
    PagesInvariant kind later objects superChunks := by
  unfold PageHeap.scavengeBegin at begun
  split at begun
  · cases begun
  · rename_i page rest pages
    obtain rfl := Option.some.inj begun
    refine invariant.move_idle rfl rfl rfl rfl ?_
    simp only [PageHeap.idlePages, pages]
    exact List.perm_middle.symm

theorem PagesInvariant.scavengeEnd {page : Nat} (ended : heap.scavengeEnd page = some later) :
    PagesInvariant kind later objects superChunks := by
  unfold PageHeap.scavengeEnd at ended
  split at ended
  · rename_i member
    obtain rfl := Option.some.inj ended
    refine invariant.move_idle rfl rfl rfl rfl ?_
    have taken := (List.perm_cons_erase member).append_left (heap.pages ++ heap.vmPages)
    refine taken.trans (List.perm_middle.trans ?_)
    simp only [PageHeap.idlePages, List.append_assoc, List.cons_append]
    exact List.perm_middle.symm
  · cases ended

end Scavenge

end WebNode.Bmalloc
