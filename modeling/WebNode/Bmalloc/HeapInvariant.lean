import WebNode.Bmalloc.PageSupply
import Mathlib.Data.Nat.Bitwise

/-! The invariant of both kinds of pages together, and what the operations that the
threads call under the heap's lock do to it. -/
namespace WebNode.Bmalloc

open PageHeap

/-- The objects of one kind. -/
def ofKind (kind : Kind) (objects : List Object) : List Object :=
  objects.filter fun object => Kind.ofAddress object.address = kind

def HeapInvariant (heap : Heap) (objects : List Object) : Prop :=
  ∀ kind, PagesInvariant kind (heap.pageHeap kind) (ofKind kind objects) heap.superChunks

/-- The address of an object tells its kind. -/
theorem InRegion.ofAddress {kind : Kind} {superChunks : List Nat} {address : Nat}
    (region : InRegion kind superChunks (address / vmPageSize)) : Kind.ofAddress address = kind := by
  have mask : smallOrMediumSmallTypeMask = 2 ^ 23 := by decide
  have bit : address &&& 2 ^ 23 ≠ 0 ↔ address / 2 ^ 23 % 2 = 1 := by
    rw [Nat.and_two_pow, Nat.testBit_eq_decide_div_mod_eq]
    by_cases odd : address / 2 ^ 23 % 2 = 1 <;> simp
  have quarter := region.quarter
  unfold Kind.ofAddress
  rw [mask]
  cases kind with
  | small =>
    rw [if_pos]
    rw [bit]
    simp only [Kind.chunkSize, Kind.chunkOffset, superChunkSize, vmPageSize, smallChunkOffset] at quarter
    omega
  | medium =>
    rw [if_neg]
    rw [bit]
    simp only [Kind.chunkSize, Kind.chunkOffset, superChunkSize, vmPageSize, mediumChunkOffset] at quarter
    omega

section Objects

variable {heap : Heap} {objects others : List Object}

theorem HeapInvariant.perm (invariant : HeapInvariant heap objects) (perm : objects.Perm others) :
    HeapInvariant heap others := by
  intro kind
  have same := perm.filter fun object => decide (Kind.ofAddress object.address = kind)
  obtain ⟨counted, listed, idle, region⟩ := invariant kind
  exact ⟨counted.perm same, listed, idle, fun object member => region object (same.mem_iff.mpr member)⟩

theorem mem_ofKind {object : Object} (member : object ∈ objects) :
    object ∈ ofKind (Kind.ofAddress object.address) objects :=
  List.mem_filter.mpr ⟨member, by simp⟩

theorem HeapInvariant.onGrid (invariant : HeapInvariant heap objects) {object : Object}
    (member : object ∈ objects) :
    OnGrid (Kind.ofAddress object.address)
      ((heap.pageHeap (Kind.ofAddress object.address)).pageClass (object.address / vmPageSize))
      (object.address / vmPageSize) object :=
  (invariant (Kind.ofAddress object.address)).counted.onGrid object (mem_ofKind member)

theorem OnGrid.size_eq {kind : Kind} {c page : Nat} {object : Object} (onGrid : OnGrid kind c page object) :
    object.size = objectSize c := by
  obtain ⟨_, _, _, inLine⟩ := onGrid
  obtain ⟨_, _, rfl⟩ := mem_lineObjects.mp inLine
  rfl

theorem HeapInvariant.distinct (invariant : HeapInvariant heap objects) : objects.Nodup := by
  rw [List.nodup_iff_count_le_one]
  intro object
  have once := List.nodup_iff_count_le_one.mp
    (invariant (Kind.ofAddress object.address)).counted.distinct object
  rwa [ofKind, List.count_filter (by simp)] at once

/-- Objects are told apart by their addresses. -/
theorem HeapInvariant.address_inj (invariant : HeapInvariant heap objects) {object other : Object}
    (member : object ∈ objects) (otherMember : other ∈ objects) (same : object.address = other.address) :
    object = other := by
  have size := (invariant.onGrid member).size_eq
  have otherSize := (invariant.onGrid otherMember).size_eq
  rw [← same] at otherSize
  cases object
  cases other
  simp only at same size otherSize
  rw [same, size, otherSize]

end Objects

section Lifting

variable {heap : Heap} {objects : List Object} {kind : Kind}

@[simp] theorem Heap.set_self (pages : PageHeap) : (heap.set kind pages).pageHeap kind = pages := by
  simp [Heap.set]

theorem Heap.set_of_ne {other : Kind} (different : other ≠ kind) (pages : PageHeap) :
    (heap.set kind pages).pageHeap other = heap.pageHeap other := by
  simp [Heap.set, different]

@[simp] theorem Heap.set_superChunks (pages : PageHeap) :
    (heap.set kind pages).superChunks = heap.superChunks := rfl

theorem Heap.set_set (first second : PageHeap) : (heap.set kind first).set kind second = heap.set kind second := by
  simp [Heap.set]

theorem Heap.grow_vmPages (fresh : Nat) : ((heap.grow fresh).pageHeap kind).vmPages ≠ [] := by
  have some : chunkPages kind fresh ≠ [] := by
    cases kind <;> simp [chunkPages, Kind.chunkSize, Kind.firstPage, Kind.lineSize, superChunkSize, vmPageSize,
      smallLineSize, mediumLineSize]
  simp [Heap.grow, PageHeap.grow, some]

theorem ofKind_cons_of_ne {object : Object} (different : Kind.ofAddress object.address ≠ kind) :
    ofKind kind (object :: objects) = ofKind kind objects := by
  simp [ofKind, different]

variable (invariant : HeapInvariant heap objects)

include invariant

/-- A kind that an operation does not work on keeps its invariant. -/
theorem HeapInvariant.set {later : List Object} {pages : PageHeap}
    (kept : PagesInvariant kind pages (ofKind kind later) heap.superChunks)
    (elsewhere : ∀ other ≠ kind, ofKind other later = ofKind other objects) :
    HeapInvariant (heap.set kind pages) later := by
  intro other
  by_cases same : other = kind
  · subst same
    simpa using kept
  · rw [Heap.set_of_ne same, elsewhere other same]
    exact invariant other

theorem HeapInvariant.grow {fresh : Nat} (isFresh : fresh ∉ heap.superChunks) :
    HeapInvariant (heap.grow fresh) objects :=
  fun kind => (invariant kind).grow isFresh

theorem HeapInvariant.scavengeBegin {pages : PageHeap} (begun : (heap.pageHeap kind).scavengeBegin = some pages) :
    HeapInvariant (heap.set kind pages) objects :=
  invariant.set ((invariant kind).scavengeBegin begun) fun _ _ => rfl

theorem HeapInvariant.scavengeEnd {pages : PageHeap} {page : Nat}
    (ended : (heap.pageHeap kind).scavengeEnd page = some pages) :
    HeapInvariant (heap.set kind pages) objects :=
  invariant.set ((invariant kind).scavengeEnd ended) fun _ _ => rfl

omit invariant in
/-- Freeing an object takes it out of the objects that are counted. -/
theorem HeapInvariant.derefObject {object : Object} (invariant : HeapInvariant heap (object :: objects)) :
    HeapInvariant (heap.derefObject object.address) objects := by
  have here := invariant (Kind.ofAddress object.address)
  have split : ofKind (Kind.ofAddress object.address) (object :: objects) =
      object :: ofKind (Kind.ofAddress object.address) objects := by
    simp [ofKind]
  rw [split] at here
  exact invariant.set here.derefLine fun other different => (ofKind_cons_of_ne different.symm).symm

/-- A heap that has taken a page for a size class out of its lists. -/
structure HeapPrepared (heap : Heap) (objects : List Object) (kind : Kind) (c page : Nat) : Prop where
  prepared : Prepared kind (heap.pageHeap kind) (ofKind kind objects) heap.superChunks c page
  others : ∀ other, other ≠ kind →
    PagesInvariant other (heap.pageHeap other) (ofKind other objects) heap.superChunks

theorem HeapInvariant.prepare {c page : Nat} {pages : PageHeap}
    (prepared : Prepared kind pages (ofKind kind objects) heap.superChunks c page) :
    HeapPrepared (heap.set kind pages) objects kind c page := by
  refine ⟨by simpa using prepared, fun other different => ?_⟩
  rw [Heap.set_of_ne different]
  exact invariant other

/-- The VM heap always has a page to give, growing if it has to. -/
theorem HeapInvariant.vmAllocatePage {c fresh : Nat} (valid : ValidClass kind c)
    (isFresh : fresh ∉ heap.superChunks)
    (empty : (heap.pageHeap kind).pagesWithFreeLines c = []) :
    ∃ page later, heap.vmAllocatePage kind fresh = some (page, later) ∧
      HeapPrepared (later.set kind ((later.pageHeap kind).setSizeClass page c)) objects kind c page := by
  obtain ⟨grown, grownEq⟩ : ∃ grown : Heap,
      (if (heap.pageHeap kind).vmPages = [] then heap.grow fresh else heap) = grown := ⟨_, rfl⟩
  have kept : HeapInvariant grown objects := by
    rw [← grownEq]
    split
    · exact invariant.grow isFresh
    · exact invariant
  have stillEmpty : (grown.pageHeap kind).pagesWithFreeLines c = [] := by
    rw [← grownEq]
    split
    · exact empty
    · exact empty
  have supply : (grown.pageHeap kind).vmPages ≠ [] := by
    rw [← grownEq]
    split
    · exact Heap.grow_vmPages fresh
    · assumption
  obtain ⟨page, rest, pages⟩ := List.exists_cons_of_ne_nil supply
  refine ⟨page, grown.set kind { grown.pageHeap kind with vmPages := rest }, ?_, ?_⟩
  · simp only [Heap.vmAllocatePage, grownEq, pages]
  · rw [Heap.set_self, Heap.set_set]
    refine kept.prepare ((kept kind).prepare_idle valid stillEmpty rfl rfl rfl rfl ?_)
    simp only [idlePages, pages]
    rw [List.append_assoc, List.append_assoc]
    exact List.perm_middle

/-- Allocating a page succeeds, and the page has a usable free line. -/
theorem HeapInvariant.allocatePage {c fresh : Nat} (valid : ValidClass kind c)
    (isFresh : fresh ∉ heap.superChunks) :
    ∃ page later, heap.allocatePage kind c fresh = some (page, later) ∧ HeapPrepared later objects kind c page := by
  rcases popPage_spec (heap.pageHeap kind) c ((heap.pageHeap kind).pagesWithFreeLines c) with
    ⟨skipped, page, rest, popped, split, active, stale⟩ | ⟨popped, stale⟩
  · refine ⟨page, heap.set kind ((heap.pageHeap kind).setPagesWithFreeLines c rest),
      by simp only [Heap.allocatePage, popped], ?_⟩
    exact invariant.prepare ((invariant kind).prepare_listed valid split active stale)
  · -- every entry was stale, so the list is empty when a page out of use is taken
    have dropped := (invariant kind).drop_stale stale
    have empty : ((heap.pageHeap kind).setPagesWithFreeLines c []).pagesWithFreeLines c = [] := by
      simp [setPagesWithFreeLines]
    have kept : HeapInvariant (heap.set kind ((heap.pageHeap kind).setPagesWithFreeLines c [])) objects :=
      invariant.set dropped fun _ _ => rfl
    cases pages : (heap.pageHeap kind).pages with
    | nil =>
      obtain ⟨page, later, allocated, prepared⟩ := kept.vmAllocatePage valid isFresh (by simpa using empty)
      refine ⟨page, _, ?_, prepared⟩
      have same : ((heap.pageHeap kind).setPagesWithFreeLines c []).pages = [] := pages
      simp only [Heap.allocatePage, popped, same, allocated, Option.map_some]
    | cons page rest =>
      have same : ((heap.pageHeap kind).setPagesWithFreeLines c []).pages = page :: rest := pages
      refine ⟨page, _,
        by simp only [Heap.allocatePage, popped, same, Option.map_some, Heap.set_self, Heap.set_set]; rfl, ?_⟩
      refine invariant.prepare (dropped.prepare_idle valid empty rfl rfl rfl rfl ?_)
      simp [idlePages, same]

/-- A refill hands out the objects of all free lines of a page, in at least one range
and no more than the cache holds. -/
theorem HeapInvariant.refillBumpRangeCache {c fresh : Nat} (valid : ValidClass kind c)
    (isFresh : fresh ∉ heap.superChunks) :
    ∃ later cache, heap.refillBumpRangeCache kind c fresh [] = some (later, cache) ∧
      HeapInvariant later (cacheObjects c cache ++ objects) ∧
      cache ≠ [] ∧ cache.length ≤ bumpRangeCacheCapacity ∧ ∀ range ∈ cache, 0 < range.objectCount := by
  obtain ⟨page, ready, allocated, prepared, others⟩ := invariant.allocatePage valid isFresh
  obtain ⟨refilled, some, bounded⟩ := prepared.refill
  refine ⟨_, _, by rw [Heap.refillBumpRangeCache, allocated]; rfl, ?_, some, bounded, ?_⟩
  · have new : ∀ object ∈ cacheObjects c (refillLines kind c page (List.range (usableLines kind c))
        (ready.pageHeap kind) none []).2, Kind.ofAddress object.address = kind := fun object member =>
      (refilled.region object (List.mem_append_left _ member)).ofAddress
    intro other
    by_cases same : other = kind
    · subst same
      rw [Heap.set_self, ofKind, List.filter_append, List.filter_eq_self.mpr (by simpa using new)]
      exact refilled
    · rw [Heap.set_of_ne same, ofKind, List.filter_append, List.filter_eq_nil_iff.mpr, List.nil_append]
      · exact others other same
      · intro object member
        simpa [new object member] using Ne.symm same
  · refine refillLines_positive ?_ (by simp) (by simp)
    intro lineNumber inRange
    exact valid.usable_count (List.mem_range.mp inRange)

end Lifting

end WebNode.Bmalloc
