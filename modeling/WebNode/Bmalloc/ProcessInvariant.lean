import WebNode.Bmalloc.HeapInvariant

/-! The invariant of a process: every object that the heap has given out is live or
lies in the bump allocators and range caches of one thread. -/
namespace WebNode.Bmalloc

def BumpAllocator.objects (c : Nat) (bump : BumpAllocator) : List Object :=
  BumpRange.objects c ⟨bump.ptr, bump.remaining⟩

/-- The objects of a size class that a thread has not handed out yet. -/
def Thread.classObjects (thread : Thread) (c : Nat) : List Object :=
  (thread.bumpAllocators c).objects c ++ cacheObjects c (thread.bumpRangeCaches c)

def Thread.cached (thread : Thread) : List Object :=
  (List.range (mediumMax / alignment)).flatMap thread.classObjects

def State.cached (state : State) : List Object :=
  (List.range state.threadCount).flatMap fun t => (state.threads t).cached

/-- The objects that wait in the logs. -/
def State.logged (state : State) : List Nat :=
  (List.range state.threadCount).flatMap fun t => (state.threads t).objectLog

structure Consistent (state : State) : Prop where
  heap : HeapInvariant state.heap (state.live ++ state.cached)
  ranges : ∀ t < state.threadCount, ∀ c, ∀ range ∈ (state.threads t).bumpRangeCaches c, 0 < range.objectCount
  loggedOnce : state.logged.Nodup
  loggedLive : ∀ address ∈ state.logged, address ∈ state.live.map Object.address

theorem sizeClass_valid (size : Nat) : ValidClass (Kind.ofClass (sizeClass size)) (sizeClass size) := by
  refine ⟨rfl, Nat.lt_of_le_of_lt Nat.and_le_right ?_⟩
  decide

section Bump

variable {c : Nat}

/-- The first object of a bump allocator is the one it hands out. -/
theorem BumpAllocator.objects_allocate {bump : BumpAllocator} (can : bump.remaining ≠ 0) :
    bump.objects c = ⟨bump.ptr, objectSize c⟩ :: (bump.allocate (objectSize c)).2.objects c := by
  obtain ⟨ptr, remaining⟩ := bump
  obtain ⟨count, rfl⟩ := Nat.exists_eq_succ_of_ne_zero can
  simp only [objects, BumpRange.objects, allocate, Nat.succ_eq_add_one, List.range_succ_eq_map, List.map_cons,
    List.map_map, Nat.zero_mul, Nat.add_zero, Nat.add_sub_cancel, List.cons.injEq, true_and]
  apply List.map_congr_left
  intro index _
  simp only [Function.comp_apply, Nat.succ_eq_add_one, Object.mk.injEq, and_true, Nat.add_mul, Nat.one_mul]
  omega

@[simp] theorem BumpAllocator.objects_refill (range : BumpRange) : (refill range).objects c = range.objects c := rfl

@[simp] theorem BumpAllocator.objects_init : init.objects c = [] := rfl

theorem BumpAllocator.objects_empty {bump : BumpAllocator} (cannot : ¬ bump.canAllocate) :
    bump.objects c = [] := by
  have none : bump.remaining = 0 := by simpa [canAllocate] using cannot
  simp [objects, BumpRange.objects, none]

end Bump

/-- Threads that differ in one size class only. -/
structure SameBut (c : Nat) (thread later : Thread) : Prop where
  classes : ∀ other, other ≠ c → later.classObjects other = thread.classObjects other
  objectLog : later.objectLog = thread.objectLog

theorem Thread.sameBut_set (thread : Thread) (c : Nat) (bump : BumpAllocator) (cache : List BumpRange) :
    SameBut c thread ((thread.setCache c cache).setBump c bump) := by
  refine ⟨fun other different => ?_, rfl⟩
  simp [Thread.classObjects, Thread.setBump, Thread.setCache, different]

theorem Thread.sameBut_setBump (thread : Thread) (c : Nat) (bump : BumpAllocator) :
    SameBut c thread (thread.setBump c bump) := by
  refine ⟨fun other different => ?_, rfl⟩
  simp [Thread.classObjects, Thread.setBump, different]

section Allocate

variable {heap : Heap} {objects : List Object} {c fresh : Nat} {thread : Thread}

/-- Getting a range takes it out of the cache, refilled with new objects if it is empty. -/
theorem Thread.allocateBumpRange_spec (invariant : HeapInvariant heap objects)
    (valid : ValidClass (Kind.ofClass c) c) (isFresh : fresh ∉ heap.superChunks)
    (positive : ∀ range ∈ thread.bumpRangeCaches c, 0 < range.objectCount) :
    ∃ range rest later new, thread.allocateBumpRange heap c fresh = some (range, thread.setCache c rest, later) ∧
      HeapInvariant later (new ++ objects) ∧
      range.objects c ++ cacheObjects c rest = new ++ cacheObjects c (thread.bumpRangeCaches c) ∧
      ∀ other ∈ range :: rest, 0 < other.objectCount := by
  unfold Thread.allocateBumpRange
  cases cache : thread.bumpRangeCaches c with
  | cons range rest =>
    exact ⟨range, rest, heap, [], rfl, invariant, rfl, cache ▸ positive⟩
  | nil =>
    obtain ⟨later, new, refilled, kept, some, _, newPositive⟩ := invariant.refillBumpRangeCache valid isFresh
    obtain ⟨range, rest, rfl⟩ := List.exists_cons_of_ne_nil some
    refine ⟨range, rest, later, _, by rw [refilled], kept, ?_, newPositive⟩
    simp [cacheObjects]

/-- An allocation succeeds and hands out one of the objects of its size class. -/
theorem Thread.allocate_spec (size : Nat) (invariant : HeapInvariant heap objects)
    (isFresh : fresh ∉ heap.superChunks)
    (positive : ∀ c, ∀ range ∈ thread.bumpRangeCaches c, 0 < range.objectCount) :
    ∃ address later grown new, thread.allocate heap size fresh = some (address, later, grown) ∧
      HeapInvariant grown (new ++ objects) ∧
      ⟨address, objectSize (sizeClass size)⟩ :: later.classObjects (sizeClass size) =
        new ++ thread.classObjects (sizeClass size) ∧
      SameBut (sizeClass size) thread later ∧
      ∀ c, ∀ range ∈ later.bumpRangeCaches c, 0 < range.objectCount := by
  unfold Thread.allocate
  by_cases can : (thread.bumpAllocators (sizeClass size)).canAllocate
  · refine ⟨_, _, heap, [], by rw [if_pos can], invariant, ?_, thread.sameBut_setBump _ _, positive⟩
    have first := BumpAllocator.objects_allocate (c := sizeClass size)
      (show (thread.bumpAllocators (sizeClass size)).remaining ≠ 0 by
        simpa [BumpAllocator.canAllocate] using can)
    simp only [Thread.classObjects, List.nil_append, first, Thread.setBump, Function.update_self,
      List.cons_append]
    rfl
  · obtain ⟨range, rest, grown, new, taken, kept, same, newPositive⟩ :=
      Thread.allocateBumpRange_spec invariant (sizeClass_valid size) isFresh (positive (sizeClass size))
    refine ⟨_, _, grown, new, by rw [if_neg can, taken]; rfl, kept, ?_, thread.sameBut_set _ _ _, ?_⟩
    · have first := BumpAllocator.objects_allocate (c := sizeClass size)
        (show (BumpAllocator.refill range).remaining ≠ 0 from Nat.ne_of_gt (newPositive range (by simp)))
      rw [Thread.classObjects, Thread.classObjects, BumpAllocator.objects_empty can, List.nil_append, ← same]
      simp only [Thread.setBump, Thread.setCache, Function.update_self, ← List.cons_append]
      exact congrArg (· ++ _) first.symm
    · intro c
      by_cases here : c = sizeClass size
      · subst here
        simpa [Thread.setBump, Thread.setCache] using fun other member =>
          newPositive other (List.mem_cons_of_mem _ member)
      · simpa [Thread.setBump, Thread.setCache, here] using positive c

end Allocate

section Threads

variable {state : State} {t c : Nat}

@[simp] theorem State.setThread_self (state : State) (t : Nat) : state.setThread t (state.threads t) = state := by
  simp [State.setThread]

/-- The objects cached in the other threads and size classes than the given ones. -/
theorem State.exists_cached_perm (inCount : t < state.threadCount) (inClasses : c < mediumMax / alignment) :
    ∃ rest, state.cached.Perm ((state.threads t).classObjects c ++ rest) ∧
      ∀ thread, SameBut c (state.threads t) thread →
        (state.setThread t thread).cached.Perm (thread.classObjects c ++ rest) := by
  obtain ⟨others, outside⟩ := Pointwise.exists_flatMap_perm List.nodup_range (List.mem_range.mpr inCount)
    fun t => (state.threads t).cached
  obtain ⟨classes, inside⟩ := Pointwise.exists_flatMap_perm List.nodup_range (List.mem_range.mpr inClasses)
    (state.threads t).classObjects
  have moved : ∀ thread, SameBut c (state.threads t) thread →
      (state.setThread t thread).cached.Perm (thread.classObjects c ++ (classes ++ others)) := by
    intro thread same
    have split := outside (fun i => ((state.setThread t thread).threads i).cached) fun i different => by
      simp [State.setThread, different]
    simp only [State.setThread, Function.update_self] at split
    rw [← List.append_assoc]
    exact split.trans ((inside thread.classObjects same.classes).append_right _)
  refine ⟨classes ++ others, ?_, moved⟩
  simpa using moved (state.threads t) ⟨fun _ _ => rfl, rfl⟩

/-- The objects that wait in the logs of the other threads. -/
theorem State.exists_logged_perm (inCount : t < state.threadCount) :
    ∃ rest, state.logged.Perm ((state.threads t).objectLog ++ rest) ∧
      ∀ thread, (state.setThread t thread).logged.Perm (thread.objectLog ++ rest) := by
  obtain ⟨others, outside⟩ := Pointwise.exists_flatMap_perm List.nodup_range (List.mem_range.mpr inCount)
    fun t => (state.threads t).objectLog
  have moved : ∀ thread, (state.setThread t thread).logged.Perm (thread.objectLog ++ others) := by
    intro thread
    have split := outside (fun i => ((state.setThread t thread).threads i).objectLog) fun i different => by
      simp [State.setThread, different]
    simp only [State.setThread, Function.update_self] at split
    exact split
  refine ⟨others, ?_, moved⟩
  simpa using moved (state.threads t)

/-- A thread whose caches stay as they are. -/
theorem State.cached_setThread {thread : Thread}
    (classes : thread.classObjects = (state.threads t).classObjects) :
    (state.setThread t thread).cached = state.cached := by
  have same : (fun i => ((state.setThread t thread).threads i).cached) = fun i => (state.threads i).cached := by
    funext i
    by_cases here : i = t
    · subst here
      simp [State.setThread, Thread.cached, classes]
    · simp [State.setThread, here]
  simp only [State.cached, same]
  rfl

/-- A thread whose log stays as it is. -/
theorem State.logged_setThread {thread : Thread} (objectLog : thread.objectLog = (state.threads t).objectLog) :
    (state.setThread t thread).logged = state.logged := by
  have same : (fun i => ((state.setThread t thread).threads i).objectLog) =
      fun i => (state.threads i).objectLog := by
    funext i
    by_cases here : i = t
    · subst here
      simp [State.setThread, objectLog]
    · simp [State.setThread, here]
  simp only [State.logged, same]
  rfl

theorem Consistent.ranges_setThread {thread : Thread} (consistent : Consistent state)
    (positive : ∀ c, ∀ range ∈ thread.bumpRangeCaches c, 0 < range.objectCount) :
    ∀ i < state.threadCount, ∀ c, ∀ range ∈ ((state.setThread t thread).threads i).bumpRangeCaches c,
      0 < range.objectCount := by
  intro i inCount
  by_cases here : i = t
  · subst here
    simpa [State.setThread] using positive
  · simpa [State.setThread, here] using consistent.ranges i inCount

theorem Consistent.spawn (consistent : Consistent state) :
    Consistent { state with
      threadCount := state.threadCount + 1
      threads := Function.update state.threads state.threadCount Thread.init } := by
  have before : ∀ i ∈ List.range state.threadCount,
      Function.update state.threads state.threadCount Thread.init i = state.threads i := fun i inCount =>
    Function.update_of_ne (Nat.ne_of_lt (List.mem_range.mp inCount)) _ _
  have cached : State.cached { state with
      threadCount := state.threadCount + 1
      threads := Function.update state.threads state.threadCount Thread.init } = state.cached := by
    simp only [State.cached, List.range_succ, List.flatMap_append, List.flatMap_singleton, Function.update_self]
    rw [List.flatMap_congr fun i inCount => by rw [before i inCount]]
    simp [Thread.cached, Thread.classObjects, Thread.init, BumpAllocator.init, BumpAllocator.objects,
      BumpRange.objects, cacheObjects]
  have logged : State.logged { state with
      threadCount := state.threadCount + 1
      threads := Function.update state.threads state.threadCount Thread.init } = state.logged := by
    simp only [State.logged, List.range_succ, List.flatMap_append, List.flatMap_singleton, Function.update_self]
    rw [List.flatMap_congr fun i inCount => by rw [before i inCount]]
    simp [Thread.init]
  refine ⟨by rw [cached]; exact consistent.heap, ?_, by rw [logged]; exact consistent.loggedOnce,
    by rw [logged]; exact consistent.loggedLive⟩
  intro i inCount c range member
  simp only [Function.update_apply] at member
  split at member
  · simp [Thread.init] at member
  · exact consistent.ranges i (by simp only at inCount; omega) c range member

theorem Consistent.allocate {size fresh address : Nat} {thread : Thread} {heap : Heap}
    (consistent : Consistent state) (inCount : t < state.threadCount) (isFresh : fresh ∉ state.heap.superChunks)
    (allocated : (state.threads t).allocate state.heap size fresh = some (address, thread, heap)) :
    Consistent { state.setThread t thread with
      heap := heap, live := ⟨address, objectSize (sizeClass size)⟩ :: state.live } := by
  obtain ⟨_, _, _, new, taken, kept, moved, same, positive⟩ :=
    Thread.allocate_spec size consistent.heap isFresh (consistent.ranges t inCount)
  cases allocated.symm.trans taken
  obtain ⟨rest, before, after⟩ := State.exists_cached_perm inCount (sizeClass_valid size).bounded
  refine ⟨kept.perm ?_, consistent.ranges_setThread positive, ?_, ?_⟩
  · calc new ++ (state.live ++ state.cached)
        |>.Perm (new ++ (state.live ++ ((state.threads t).classObjects (sizeClass size) ++ rest))) :=
          (before.append_left _).append_left _
      _ |>.Perm (state.live ++ ((new ++ (state.threads t).classObjects (sizeClass size)) ++ rest)) := by
          simpa using List.perm_append_comm_assoc new state.live _
      _ |>.Perm (⟨address, objectSize (sizeClass size)⟩ ::
            (state.live ++ (thread.classObjects (sizeClass size) ++ rest))) := by
          rw [← moved]
          exact List.perm_middle
      _ |>.Perm (⟨address, objectSize (sizeClass size)⟩ :: state.live ++ (state.setThread t thread).cached) :=
          ((after thread same).symm.append_left _).cons _
  · exact (State.logged_setThread same.objectLog).symm ▸ consistent.loggedOnce
  · intro address logged
    exact List.mem_cons_of_mem _ (consistent.loggedLive address (State.logged_setThread same.objectLog ▸ logged))

end Threads

section Log

variable {state : State} {heap : Heap} {live cached : List Object} {t : Nat}

theorem State.mem_forget {object : Object} {log : List Nat} :
    object ∈ State.forget live log ↔ object ∈ live ∧ object.address ∉ log := by
  simp [State.forget]

/-- Forgetting one address takes the one object with it out. -/
theorem HeapInvariant.perm_forget {object : Object} (invariant : HeapInvariant heap (live ++ cached))
    (member : object ∈ live) : live.Perm (object :: State.forget live [object.address]) := by
  have distinct : live.Nodup := (List.nodup_append.mp invariant.distinct).1
  have same : State.forget live [object.address] = live.erase object := by
    rw [distinct.erase_eq_filter]
    apply List.filter_congr
    intro other otherMember
    have inj : other.address = object.address ↔ other = object :=
      ⟨invariant.address_inj (List.mem_append_left _ otherMember) (List.mem_append_left _ member),
        congrArg _⟩
    simp [inj, bne, BEq.beq]
  rw [same]
  exact List.perm_cons_erase member

/-- Processing a log of live objects takes all of them out of the heap. -/
theorem HeapInvariant.processObjectLog {log : List Nat} (invariant : HeapInvariant heap (live ++ cached))
    (once : log.Nodup) (logged : ∀ address ∈ log, address ∈ live.map Object.address) :
    HeapInvariant (log.foldl Heap.derefObject heap) (State.forget live log ++ cached) := by
  induction log generalizing heap live with
  | nil => simpa [State.forget] using invariant
  | cons address rest ih =>
    obtain ⟨absent, restOnce⟩ := List.nodup_cons.mp once
    obtain ⟨object, member, rfl⟩ := List.mem_map.mp (logged address (by simp))
    have freed := (invariant.perm ((invariant.perm_forget member).append_right cached)).derefObject
    have split : State.forget live (object.address :: rest) =
        State.forget (State.forget live [object.address]) rest := by
      simp [State.forget, List.filter_filter, Bool.and_comm]
    rw [List.foldl_cons, split]
    refine ih freed restOnce fun address inRest => ?_
    obtain ⟨other, otherMember, rfl⟩ := List.mem_map.mp (logged address (List.mem_cons_of_mem _ inRest))
    have different : other.address ∉ [object.address] := fun same =>
      absent (List.mem_singleton.mp same ▸ inRest)
    exact List.mem_map_of_mem (State.mem_forget.mpr ⟨otherMember, different⟩)

theorem Consistent.processObjectLog (consistent : Consistent state) (inCount : t < state.threadCount) :
    Consistent { state.setThread t ((state.threads t).processObjectLog state.heap).1 with
      heap := ((state.threads t).processObjectLog state.heap).2
      live := State.forget state.live (state.threads t).objectLog } := by
  obtain ⟨rest, before, after⟩ := State.exists_logged_perm inCount
  have once := before.nodup_iff.mp consistent.loggedOnce
  have emptied := after ((state.threads t).processObjectLog state.heap).1
  have processed := consistent.heap.processObjectLog (List.nodup_append.mp once).1 fun address inLog =>
    consistent.loggedLive address (before.mem_iff.mpr (List.mem_append_left _ inLog))
  refine ⟨?_, consistent.ranges_setThread (consistent.ranges t inCount), ?_, ?_⟩
  · have same : (state.setThread t ((state.threads t).processObjectLog state.heap).1).cached = state.cached :=
      State.cached_setThread rfl
    exact same ▸ processed
  · exact emptied.nodup_iff.mpr (List.nodup_append.mp once).2.1
  · intro address logged
    have inRest : address ∈ rest := by
      simpa [Thread.processObjectLog] using emptied.mem_iff.mp logged
    obtain ⟨object, member, rfl⟩ := List.mem_map.mp
      (consistent.loggedLive address (before.mem_iff.mpr (List.mem_append_right _ inRest)))
    exact List.mem_map_of_mem (State.mem_forget.mpr ⟨member, fun inLog =>
      (List.nodup_append.mp once).2.2 _ inLog _ inRest rfl⟩)

/-- Logging a live object that is in no log. -/
theorem Consistent.log (consistent : Consistent state) (object : Nat) (inCount : t < state.threadCount)
    (isLive : object ∈ state.live.map Object.address) (unlogged : object ∉ state.logged) :
    Consistent (state.setThread t
      { state.threads t with objectLog := (state.threads t).objectLog ++ [object] }) := by
  obtain ⟨rest, before, after⟩ := State.exists_logged_perm inCount
  have extended : (state.setThread t
      { state.threads t with objectLog := (state.threads t).objectLog ++ [object] }).logged.Perm
        (object :: state.logged) := by
    refine (after _).trans ?_
    rw [List.append_assoc]
    exact List.perm_middle.trans (before.symm.cons _)
  refine ⟨?_, consistent.ranges_setThread (consistent.ranges t inCount), ?_, ?_⟩
  · have same : (state.setThread t
        { state.threads t with objectLog := (state.threads t).objectLog ++ [object] }).cached = state.cached :=
      State.cached_setThread rfl
    rw [same]
    exact consistent.heap
  · exact extended.nodup_iff.mpr (List.nodup_cons.mpr ⟨unlogged, consistent.loggedOnce⟩)
  · intro address logged
    rcases List.mem_cons.mp (extended.mem_iff.mp logged) with rfl | old
    · exact isLive
    · exact consistent.loggedLive address old

theorem Consistent.deallocate {object : Nat} (consistent : Consistent state) (inCount : t < state.threadCount)
    (isLive : object ∈ state.live.map Object.address) (unlogged : object ∉ state.logged) :
    Consistent (state.deallocate t object) := by
  by_cases full : (state.threads t).objectLog.length = deallocatorLogCapacity
  · have processed := consistent.processObjectLog inCount
    obtain ⟨rest, before, after⟩ := State.exists_logged_perm inCount
    have outside : object ∉ (state.threads t).objectLog ∧ object ∉ rest := by
      simpa [before.mem_iff] using unlogged
    have logged := processed.log object inCount ?_ ?_
    · simpa [State.deallocate, Thread.deallocate, full, State.setThread] using logged
    · obtain ⟨found, member, rfl⟩ := List.mem_map.mp isLive
      exact List.mem_map_of_mem (State.mem_forget.mpr ⟨member, outside.1⟩)
    · intro inLog
      refine outside.2 ?_
      simpa [Thread.processObjectLog] using (after _).mem_iff.mp inLog
  · have same : state.deallocate t object = state.setThread t
        { state.threads t with objectLog := (state.threads t).objectLog ++ [object] } := by
      simp [State.deallocate, Thread.deallocate, full, State.forget, State.setThread]
    rw [same]
    exact consistent.log object inCount isLive unlogged

end Log

section Scavenge

variable {state : State} {t c : Nat}

/-- Moving objects of a size class between its bump allocator, its range cache and
the live objects. -/
theorem Consistent.move {thread : Thread} (consistent : Consistent state) (taken : List Object)
    (inCount : t < state.threadCount) (inClasses : c < mediumMax / alignment)
    (same : SameBut c (state.threads t) thread)
    (moved : (state.threads t).classObjects c = taken ++ thread.classObjects c)
    (positive : ∀ c, ∀ range ∈ thread.bumpRangeCaches c, 0 < range.objectCount) :
    Consistent { state.setThread t thread with live := taken ++ state.live } := by
  obtain ⟨rest, before, after⟩ := State.exists_cached_perm inCount inClasses
  refine ⟨consistent.heap.perm ?_, consistent.ranges_setThread positive, ?_, ?_⟩
  · calc state.live ++ state.cached
        |>.Perm (state.live ++ (taken ++ (thread.classObjects c ++ rest))) := by
          rw [← List.append_assoc taken, ← moved]
          exact before.append_left _
      _ |>.Perm (taken ++ state.live ++ (thread.classObjects c ++ rest)) := by
          rw [List.append_assoc]
          exact List.perm_append_comm_assoc ..
      _ |>.Perm (taken ++ state.live ++ (state.setThread t thread).cached) := (after thread same).symm.append_left _
  · exact (State.logged_setThread same.objectLog).symm ▸ consistent.loggedOnce
  · intro address logged
    rw [List.map_append]
    exact List.mem_append_right _
      (consistent.loggedLive address (State.logged_setThread same.objectLog ▸ logged))

/-- An object that a thread has not handed out waits in no log. -/
theorem Consistent.not_logged {object : Object} (consistent : Consistent state)
    (member : object ∈ state.cached) : object.address ∉ state.logged := by
  intro logged
  obtain ⟨other, isLive, same⟩ := List.mem_map.mp (consistent.loggedLive _ logged)
  have equal := consistent.heap.address_inj (List.mem_append_left _ isLive) (List.mem_append_right _ member) same
  exact (List.nodup_append.mp consistent.heap.distinct).2.2 _ isLive _ member equal

theorem Consistent.scavengeAllocator (consistent : Consistent state) (inCount : t < state.threadCount)
    (inClasses : c < mediumMax / alignment) : Consistent (state.scavengeAllocator t c) := by
  have positive := consistent.ranges t inCount
  unfold State.scavengeAllocator
  by_cases can : ((state.threads t).bumpAllocators c).canAllocate
  · rw [if_pos can]
    have first := BumpAllocator.objects_allocate (c := c)
      (show ((state.threads t).bumpAllocators c).remaining ≠ 0 by
        simpa [BumpAllocator.canAllocate] using can)
    have same := (state.threads t).sameBut_setBump c
      (((state.threads t).bumpAllocators c).allocate (objectSize c)).2
    have moved : (state.threads t).classObjects c =
        [⟨((state.threads t).bumpAllocators c).ptr, objectSize c⟩] ++ ((state.threads t).setBump c
          (((state.threads t).bumpAllocators c).allocate (objectSize c)).2).classObjects c := by
      simp [Thread.classObjects, Thread.setBump, first]
    refine (consistent.move _ inCount inClasses same moved positive).deallocate inCount (by simp) ?_
    obtain ⟨rest, before, _⟩ := State.exists_cached_perm inCount inClasses
    rw [moved] at before
    exact (State.logged_setThread same.objectLog).symm ▸
      consistent.not_logged (before.mem_iff.mpr (List.mem_cons_self ..))
  · rw [if_neg can]
    have empty := BumpAllocator.objects_empty (c := c) can
    cases cache : (state.threads t).bumpRangeCaches c with
    | cons range rest =>
      refine consistent.move [] inCount inClasses ((state.threads t).sameBut_set c _ rest) ?_ ?_
      · simp [Thread.classObjects, Thread.setBump, Thread.setCache, empty, cache, cacheObjects]
      · intro other
        by_cases here : other = c
        · subst here
          simpa [Thread.setBump, Thread.setCache] using fun range member =>
            positive other range (cache ▸ List.mem_cons_of_mem _ member)
        · simpa [Thread.setBump, Thread.setCache, here] using positive other
    | nil =>
      refine consistent.move [] inCount inClasses ((state.threads t).sameBut_setBump c _) ?_ positive
      simp [Thread.classObjects, Thread.setBump, empty]

end Scavenge

/-- Every action keeps a process consistent. -/
theorem Consistent.step {state next : State} {action : Action} (consistent : Consistent state)
    (stepped : state.step action = some next) : Consistent next := by
  cases action with
  | spawn =>
    obtain rfl := Option.some.inj stepped
    exact consistent.spawn
  | allocate t size fresh =>
    simp only [State.step, Option.ite_none_right_eq_some, Option.map_eq_some_iff] at stepped
    obtain ⟨⟨inCount, _, isFresh⟩, ⟨address, thread, heap⟩, allocated, rfl⟩ := stepped
    exact consistent.allocate inCount isFresh allocated
  | deallocate t object =>
    simp only [State.step, Option.ite_none_right_eq_some, Option.some.injEq] at stepped
    obtain ⟨⟨inCount, isLive, notFreed⟩, rfl⟩ := stepped
    exact consistent.deallocate inCount isLive (by simpa [State.isFreed, State.logged] using notFreed)
  | processObjectLog t =>
    simp only [State.step, Option.ite_none_right_eq_some, Option.some.injEq] at stepped
    obtain ⟨inCount, rfl⟩ := stepped
    exact consistent.processObjectLog inCount
  | scavengeAllocator t c =>
    simp only [State.step, Option.ite_none_right_eq_some, Option.some.injEq] at stepped
    obtain ⟨⟨inCount, inClasses⟩, rfl⟩ := stepped
    exact consistent.scavengeAllocator inCount inClasses
  | scavengeBegin kind =>
    simp only [State.step, Option.map_eq_some_iff] at stepped
    obtain ⟨pages, begun, rfl⟩ := stepped
    exact ⟨consistent.heap.scavengeBegin begun, consistent.ranges, consistent.loggedOnce, consistent.loggedLive⟩
  | scavengeEnd kind page =>
    simp only [State.step, Option.map_eq_some_iff] at stepped
    obtain ⟨pages, ended, rfl⟩ := stepped
    exact ⟨consistent.heap.scavengeEnd ended, consistent.ranges, consistent.loggedOnce, consistent.loggedLive⟩

theorem Consistent.initial : Consistent State.initial := by
  have noObjects : State.initial.live ++ State.initial.cached = [] := rfl
  refine ⟨?_, by simp [State.initial], by simp [State.logged, State.initial], by simp [State.logged, State.initial]⟩
  rw [noObjects]
  intro kind
  have unused (page : Nat) : usedLines kind PageHeap.initial.lineRefs page = 0 := by
    simp [usedLines, PageHeap.initial]
  refine ⟨⟨by simp [ofKind], by simp [ofKind], by simp [State.initial, Heap.initial, PageHeap.initial, ofKind],
      fun page => (unused page).symm⟩, ⟨?_, ?_, ?_, ?_⟩, ⟨?_, ?_, ?_⟩, by simp [ofKind]⟩ <;>
    simp [State.initial, Heap.initial, PageHeap.initial, PageHeap.idlePages]

/-- A process is consistent in every state that it reaches. -/
theorem Reachable.consistent {state : State} (reached : Reachable state) : Consistent state := by
  induction reached with
  | initial => exact Consistent.initial
  | step _ stepped ih => exact ih.step stepped

end WebNode.Bmalloc
