import WebNode.Bmalloc.ProcessInvariant
import Mathlib.Data.List.Perm.Subperm

/-! What holds of small and medium objects in every state that a process reaches. -/
namespace WebNode.Bmalloc

open PageHeap

def State.run (state : State) : List Action → Option State
  | [] => some state
  | action :: rest => (state.step action).bind fun next => next.run rest

theorem Reachable.run {state final : State} (reached : Reachable state) {actions : List Action}
    (ran : state.run actions = some final) : Reachable final := by
  induction actions generalizing state with
  | nil =>
    obtain rfl := Option.some.inj ran
    exact reached
  | cons action rest ih =>
    obtain ⟨next, stepped, ranRest⟩ := Option.bind_eq_some_iff.mp ran
    exact ih (reached.step stepped) ranRest

/-- A run that ends in a state with a given property. -/
theorem exists_reachable (actions : List Action) (p : State → Bool)
    (checked : (State.initial.run actions).any p = true) : ∃ state, Reachable state ∧ p state = true := by
  cases ran : State.initial.run actions with
  | none => simp [ran] at checked
  | some state => exact ⟨state, Reachable.initial.run ran, by simpa [ran] using checked⟩

section Disjointness

variable {heap : Heap} {objects : List Object}

/-- A page holds objects of one kind. -/
theorem HeapInvariant.kind_eq (invariant : HeapInvariant heap objects) {object other : Object}
    (member : object ∈ objects)
    (samePage : object.address / vmPageSize = other.address / vmPageSize) :
    Kind.ofAddress object.address = Kind.ofAddress other.address := by
  have region := (invariant _).region object (mem_ofKind member)
  rw [samePage] at region
  exact region.ofAddress.symm

theorem HeapInvariant.disjoint (invariant : HeapInvariant heap objects) {object other : Object}
    (member : object ∈ objects) (otherMember : other ∈ objects) (different : object ≠ other) :
    object.Disjoint other := by
  have onGrid := invariant.onGrid member
  have otherOnGrid := invariant.onGrid otherMember
  by_cases samePage : object.address / vmPageSize = other.address / vmPageSize
  · rw [← invariant.kind_eq member samePage] at otherOnGrid
    exact onGrid.disjoint otherOnGrid different
  · have inside := onGrid.in_page
    have otherInside := otherOnGrid.in_page
    simp only [vmPageSize] at inside otherInside samePage
    rcases Nat.lt_or_gt_of_ne samePage with before | after
    · left
      omega
    · right
      omega

end Disjointness

section Reached

variable {state : State}

/-- Live objects are disjoint, each in one page, and the count of a line is that of
the objects starting in it, live or cached, so that no line with a live object is free. -/
theorem Reachable.live_disjoint (reached : Reachable state) :
    state.live.Pairwise Object.Disjoint ∧
      (∀ object ∈ state.live, ∃ page, page * vmPageSize ≤ object.address ∧
        object.address + object.size ≤ (page + 1) * vmPageSize) ∧
      (∀ kind line, (state.heap.pageHeap kind).lineRefs line =
        (ofKind kind (state.live ++ state.cached)).countP fun object => Line.get kind object.address = line) ∧
      ∀ object ∈ state.live, ∀ kind, Kind.ofAddress object.address = kind →
        (state.heap.pageHeap kind).lineRefs (Line.get kind object.address) ≠ 0 := by
  obtain ⟨invariant, _, _, _⟩ := reached.consistent
  have inAll {object : Object} (isLive : object ∈ state.live) : object ∈ state.live ++ state.cached :=
    List.mem_append_left _ isLive
  have distinct : state.live.Nodup := (List.nodup_append.mp invariant.distinct).1
  refine ⟨?_, ?_, fun kind => (invariant kind).counted.lines, ?_⟩
  · exact distinct.pairwise_of_forall_ne fun object isLive other otherLive different =>
      invariant.disjoint (inAll isLive) (inAll otherLive) different
  · intro object isLive
    obtain ⟨above, below, _⟩ := (invariant.onGrid (inAll isLive)).in_page
    exact ⟨_, above, below⟩
  · rintro object isLive kind rfl
    rw [(invariant _).counted.lines, ← Nat.pos_iff_ne_zero, List.countP_pos_iff]
    exact ⟨object, mem_ofKind (inAll isLive), by simp⟩

/-- Objects of two threads and both kinds. -/
theorem Reachable.live_disjoint_two : ∃ state, Reachable state ∧
    state.live.map Object.address = [58716160, 67104768] ∧ state.live.Pairwise Object.Disjoint := by
  obtain ⟨state, reached, addresses⟩ := exists_reachable
    [.spawn, .spawn, .allocate 0 8 1, .allocate 1 1000 2]
    (fun state => state.live.map Object.address = [58716160, 67104768]) (by decide +kernel)
  exact ⟨state, reached, by simpa using addresses, reached.live_disjoint.1⟩

/-- A page in use with a free line is listed exactly if the objects of its size class
fit the last line of a page. -/
theorem Reachable.listed_iff {kind : Kind} {page : Nat} (reached : Reachable state)
    (inUse : 0 < (state.heap.pageHeap kind).pageRefs page)
    (free : HasFreeLine kind (state.heap.pageHeap kind) page) :
    page ∈ (state.heap.pageHeap kind).pagesWithFreeLines ((state.heap.pageHeap kind).pageClass page) ↔
      FitsLastLine kind ((state.heap.pageHeap kind).pageClass page) := by
  have listed := (reached.consistent.heap kind).listed
  constructor
  · intro member
    by_contra unfit
    rw [listed.silent _ unfit] at member
    simp at member
  · exact listed.complete page (Nat.ne_of_gt inUse) free

instance (kind : Kind) (heap : PageHeap) (page : Nat) : Decidable (HasFreeLine kind heap page) :=
  inferInstanceAs (Decidable (∃ lineNumber < _, _))

/-- With objects of 64 bytes, freeing the first line's lists the page again. -/
theorem Reachable.listed_iff_four : ∃ state, Reachable state ∧
    0 < (state.heap.pageHeap .small).pageRefs 16383 ∧ HasFreeLine .small (state.heap.pageHeap .small) 16383 ∧
    (16383 ∈ (state.heap.pageHeap .small).pagesWithFreeLines ((state.heap.pageHeap .small).pageClass 16383) ↔
      FitsLastLine .small ((state.heap.pageHeap .small).pageClass 16383)) := by
  obtain ⟨state, reached, holds⟩ := exists_reachable
    [.spawn, .allocate 0 64 1, .allocate 0 64 2, .allocate 0 64 2, .allocate 0 64 2,
      .deallocate 0 67104768, .deallocate 0 67104832, .deallocate 0 67104896, .deallocate 0 67104960,
      .processObjectLog 0]
    (fun state => 0 < (state.heap.pageHeap .small).pageRefs 16383 ∧
      HasFreeLine .small (state.heap.pageHeap .small) 16383) (by decide +kernel)
  obtain ⟨inUse, free⟩ := of_decide_eq_true holds
  exact ⟨state, reached, inUse, free, reached.listed_iff inUse free⟩

/-- Objects of 248 bytes do not fit the last line of a page: the third one is alone in
its line, and freeing it does not list the page. -/
theorem page_forgotten : ∃ state, Reachable state ∧
    0 < (state.heap.pageHeap .small).pageRefs 16383 ∧ HasFreeLine .small (state.heap.pageHeap .small) 16383 ∧
    16383 ∉ (state.heap.pageHeap .small).pagesWithFreeLines ((state.heap.pageHeap .small).pageClass 16383) := by
  obtain ⟨state, reached, holds⟩ := exists_reachable
    [.spawn, .allocate 0 248 1, .allocate 0 248 2, .allocate 0 248 2, .deallocate 0 67105264, .processObjectLog 0]
    (fun state => 0 < (state.heap.pageHeap .small).pageRefs 16383 ∧
      HasFreeLine .small (state.heap.pageHeap .small) 16383 ∧
      16383 ∉ (state.heap.pageHeap .small).pagesWithFreeLines ((state.heap.pageHeap .small).pageClass 16383))
    (by decide +kernel)
  exact ⟨state, reached, of_decide_eq_true holds⟩

/-- A page that is allocated has a usable free line, so that a refill yields a range
and the slow case of every thread can pop one. -/
theorem Reachable.refill_nonempty {kind : Kind} {c fresh : Nat} (reached : Reachable state)
    (valid : ValidClass kind c) (isFresh : fresh ∉ state.heap.superChunks) :
    (∃ page heap, state.heap.allocatePage kind c fresh = some (page, heap) ∧
        ∃ lineNumber < usableLines kind c,
          (heap.pageHeap kind).lineRefs (Page.begin kind page + lineNumber) = 0 ∧
          lineObjectCount kind c lineNumber ≠ 0) ∧
      (∃ heap cache, state.heap.refillBumpRangeCache kind c fresh [] = some (heap, cache) ∧
        cache ≠ [] ∧ cache.length ≤ bumpRangeCacheCapacity) ∧
      ∀ t < state.threadCount, ((state.threads t).allocateBumpRange state.heap c fresh).isSome := by
  obtain rfl := valid.kind_eq
  have consistent := reached.consistent
  refine ⟨?_, ?_, ?_⟩
  · obtain ⟨page, heap, allocated, prepared, _⟩ := consistent.heap.allocatePage valid isFresh
    obtain ⟨lineNumber, inPage, free, holds⟩ := prepared.free
    rw [prepared.assigned] at holds
    exact ⟨page, heap, allocated, lineNumber, usable_of_count inPage holds, free, holds⟩
  · obtain ⟨heap, cache, refilled, _, some, bounded, _⟩ := consistent.heap.refillBumpRangeCache valid isFresh
    exact ⟨heap, cache, refilled, some, bounded⟩
  · intro t inCount
    obtain ⟨_, _, _, _, taken, _⟩ := Thread.allocateBumpRange_spec consistent.heap valid isFresh
      (consistent.ranges t inCount c)
    rw [taken]
    rfl

/-- A refill for objects of 248 bytes, in the state with the forgotten page. -/
theorem Reachable.refill_nonempty_after : ∃ state : State, Reachable state ∧ state.live.length = 2 ∧
    ∃ heap cache, state.heap.refillBumpRangeCache .small 30 2 [] = some (heap, cache) ∧
      cache ≠ [] ∧ cache.length ≤ bumpRangeCacheCapacity := by
  obtain ⟨state, reached, holds⟩ := exists_reachable
    [.spawn, .allocate 0 248 1, .allocate 0 248 2, .allocate 0 248 2, .deallocate 0 67105264, .processObjectLog 0]
    (fun state => state.live.length = 2 ∧ 2 ∉ state.heap.superChunks) (by decide +kernel)
  obtain ⟨two, isFresh⟩ := of_decide_eq_true holds
  exact ⟨state, reached, two, (reached.refill_nonempty ⟨by decide, by decide⟩ isFresh).2.1⟩

end Reached

end WebNode.Bmalloc
