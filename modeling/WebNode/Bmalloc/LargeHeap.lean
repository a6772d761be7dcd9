import WebNode.Bmalloc.FreeList

/-! Allocation, deallocation and scavenging of large objects, after `Heap.cpp` and
`VMHeap.h`, and the runs of a process that uses them. -/
namespace WebNode.Bmalloc

/-- The large objects of the heap and of the VM heap. -/
structure LargeHeap where
  memory : Memory
  superChunks : List Nat
  freeLists : Owner → SegregatedFreeList

namespace LargeHeap

def initial : LargeHeap := ⟨fun _ => ⟨fun _ => .null⟩, [], fun _ _ => FreeList.init⟩

def setFreeLists (heap : LargeHeap) (owner : Owner) (lists : SegregatedFreeList) : LargeHeap :=
  { heap with freeLists := Function.update heap.freeLists owner lists }

/-- Write the tags of the chunk of an object. -/
def store (heap : LargeHeap) (object : LargeObject) (tags : Tags) : LargeHeap :=
  { heap with memory := object.store heap.memory tags }

/-- Insert an object into the free lists of an owner. -/
def insert (heap : LargeHeap) (owner : Owner) (object : LargeObject) : LargeHeap :=
  let (memory, lists) := (heap.freeLists owner).insert heap.memory owner object
  { heap with memory := memory }.setFreeLists owner lists

def setFree (heap : LargeHeap) (object : LargeObject) (isFree : Bool) : LargeHeap :=
  heap.store object (object.setFree (heap.memory object.chunk) isFree)

def setOwner (heap : LargeHeap) (object : LargeObject) (owner : Owner) : LargeHeap :=
  heap.store object (object.setOwner (heap.memory object.chunk) owner)

def merge (heap : LargeHeap) (object : LargeObject) : LargeHeap × LargeObject :=
  let (tags, merged) := object.merge (heap.memory object.chunk)
  (heap.store object tags, merged)

def split (heap : LargeHeap) (object : LargeObject) (size : Nat) : LargeHeap × LargeObject × LargeObject :=
  let (tags, first, second) := object.split (heap.memory object.chunk) size
  (heap.store object tags, first, second)

/-- The number of the large chunk of a super chunk. -/
def largeChunk (superChunk : Nat) : Nat := superChunk * superChunkSize / largeChunkSize

/-- The part of `VMHeap::grow` for large objects. -/
def grow (heap : LargeHeap) (superChunk : Nat) : LargeHeap :=
  let chunk := largeChunk superChunk
  let heap := { heap with
    memory := Function.update heap.memory chunk LargeObject.init
    superChunks := superChunk :: heap.superChunks }
  heap.insert .vmHeap (LargeObject.ofPosition (heap.memory chunk) chunk LargeChunk.begin)

/-- Cut off what an allocation does not need and leave it to the owner of the object. -/
def trim (heap : LargeHeap) (owner : Owner) (object : LargeObject) (size : Nat) : LargeHeap × LargeObject :=
  if object.size heap.memory - size > largeMin then
    let (heap, first, second) := heap.split object size
    (heap.insert owner second, first)
  else (heap, object)

/-- `VMHeap::allocateLargeObject` for an object that was taken. -/
def vmAllocateObject (heap : LargeHeap) (object : LargeObject) (size : Nat) : LargeHeap × LargeObject :=
  let (heap, object) := heap.trim .vmHeap object size
  let heap := heap.setOwner object .heap
  (heap, LargeObject.ofAddress heap.memory object.begin)

/-- Take from the free lists of an owner. -/
def takeWith (heap : LargeHeap) (owner : Owner)
    (takeSome : Memory → Owner → SegregatedFreeList → Option LargeObject × SegregatedFreeList) :
    Option LargeObject × LargeHeap :=
  let (object, lists) := takeSome heap.memory owner (heap.freeLists owner)
  (object, heap.setFreeLists owner lists)

/-- The VM heap grows when it finds nothing, and must find something then. -/
def vmTake (heap : LargeHeap) (fresh : Nat)
    (takeSome : Memory → Owner → SegregatedFreeList → Option LargeObject × SegregatedFreeList) :
    Option (LargeObject × LargeHeap) :=
  match heap.takeWith .vmHeap takeSome with
  | (some object, heap) => some (object, heap)
  | (none, heap) =>
    match (heap.grow fresh).takeWith .vmHeap takeSome with
    | (some object, heap) => some (object, heap)
    | (none, _) => none

def vmAllocateLargeObject (heap : LargeHeap) (size fresh : Nat) : Option (LargeHeap × LargeObject) :=
  (heap.vmTake fresh fun memory owner => SegregatedFreeList.take memory owner size).map fun (object, heap) =>
    heap.vmAllocateObject object size

def vmAllocateLargeObjectAligned (heap : LargeHeap) (alignment size unalignedSize fresh : Nat) :
    Option (LargeHeap × LargeObject) :=
  (heap.vmTake fresh fun memory owner => SegregatedFreeList.takeAligned memory owner alignment size unalignedSize).map
    fun (object, heap) =>
      if object.begin &&& (alignment - 1) ≠ 0 then heap.vmAllocateObject object unalignedSize
      else heap.vmAllocateObject object size

/-- `Heap::allocateLarge` for an object that was taken. -/
def allocateObject (heap : LargeHeap) (object : LargeObject) (size : Nat) : Nat × LargeHeap :=
  let (heap, object) := heap.trim .heap object size
  (object.begin, heap.setFree object false)

def allocateLarge (heap : LargeHeap) (size fresh : Nat) : Option (Nat × LargeHeap) :=
  match heap.takeWith .heap fun memory owner => SegregatedFreeList.take memory owner size with
  | (some object, heap) => some (heap.allocateObject object size)
  | (none, heap) =>
    (heap.vmAllocateLargeObject size fresh).map fun (heap, object) => heap.allocateObject object size

/-- Clearing the low bits of a number, for a power of two. -/
def roundUpToMultipleOf (divisor x : Nat) : Nat := (x + (divisor - 1)) - ((x + (divisor - 1)) &&& (divisor - 1))

/-- Cut the part before an aligned position off and leave it to the heap. -/
def align (heap : LargeHeap) (object : LargeObject) (alignment : Nat) : LargeHeap × LargeObject :=
  if object.begin &&& (alignment - 1) ≠ 0 then
    let prefixSize := roundUpToMultipleOf alignment (object.begin + largeMin) - object.begin
    let (heap, first, second) := heap.split object prefixSize
    (heap.insert .heap first, second)
  else (heap, object)

def allocateAligned (heap : LargeHeap) (object : LargeObject) (alignment size : Nat) : Nat × LargeHeap :=
  let aligned := heap.align object alignment
  aligned.1.allocateObject aligned.2 size

def allocateLargeAligned (heap : LargeHeap) (alignment size unalignedSize fresh : Nat) :
    Option (Nat × LargeHeap) :=
  match heap.takeWith .heap fun memory owner =>
      SegregatedFreeList.takeAligned memory owner alignment size unalignedSize with
  | (some object, heap) => some (heap.allocateAligned object alignment size)
  | (none, heap) =>
    (heap.vmAllocateLargeObjectAligned alignment size unalignedSize fresh).map fun (heap, object) =>
      heap.allocateAligned object alignment size

def deallocateLarge (heap : LargeHeap) (address : Nat) : LargeHeap :=
  let object := LargeObject.ofAddress heap.memory address
  let heap := heap.setFree object true
  let (heap, merged) := heap.merge object
  heap.insert .heap merged

/-- `scavengeLargeObjects` up to dropping the lock in `VMHeap::deallocateLargeObject`. -/
def scavengeBegin (heap : LargeHeap) : Option LargeObject × LargeHeap :=
  match heap.takeWith .heap SegregatedFreeList.takeGreedy with
  | (none, heap) => (none, heap)
  | (some object, heap) =>
    let heap := heap.setOwner object .vmHeap
    let (heap, merged) := heap.merge object
    (some merged, heap.setFree merged false)

/-- The rest of `VMHeap::deallocateLargeObject`, after taking the lock again. -/
def scavengeEnd (heap : LargeHeap) (merged : LargeObject) : LargeHeap :=
  (heap.setFree merged true).insert .vmHeap merged

end LargeHeap

/-- A process: its large objects, the allocations that are live, and the objects whose
physical memory a scavenger is giving back with the lock dropped. -/
structure LargeState where
  heap : LargeHeap
  live : List Range
  scavenged : List LargeObject

inductive LargeAction where
  | grow (fresh : Nat)
  | allocateLarge (size fresh : Nat)
  | allocateLargeAligned (alignment size fresh : Nat)
  | deallocateLarge (address : Nat)
  | scavengeBegin
  | scavengeEnd (merged : LargeObject)
  deriving DecidableEq, Repr

namespace LargeState

def initial : LargeState := ⟨LargeHeap.initial, [], []⟩

def allocated (state : LargeState) (size : Nat) (result : Nat × LargeHeap) : LargeState :=
  { state with heap := result.2, live := ⟨result.1, size⟩ :: state.live }

/-- The sizes that `Allocator` asks for: it rounds sizes up to `largeMax` up. -/
def IsLargeSize (size : Nat) : Prop :=
  largeMin ≤ size ∧ size % largeAlignment = 0 ∧ size < largeMax + largeAlignment

instance (size : Nat) : Decidable (IsLargeSize size) := inferInstanceAs (Decidable (_ ∧ _))

/-- The alignments and sizes that `Allocator` asks for. -/
def IsAlignedRequest (alignment size : Nat) : Prop :=
  IsLargeSize size ∧ largeAlignment ≤ alignment ∧ (∃ exponent < 64, alignment = 2 ^ exponent) ∧
    alignment ≤ largeChunkSize / 2 ∧ largeMin + alignment + size ≤ largeMax

instance (alignment size : Nat) : Decidable (IsAlignedRequest alignment size) :=
  inferInstanceAs (Decidable (_ ∧ _ ∧ (∃ _ < _, _) ∧ _))

/-- One action, if the process can take it: super chunks that the system hands out are
new, and clients free live allocations. -/
def step (state : LargeState) : LargeAction → Option LargeState
  | .grow fresh =>
    if fresh ∉ state.heap.superChunks then some { state with heap := state.heap.grow fresh } else none
  | .allocateLarge size fresh =>
    if IsLargeSize size ∧ fresh ∉ state.heap.superChunks then
      (state.heap.allocateLarge size fresh).map (state.allocated size)
    else none
  | .allocateLargeAligned alignment size fresh =>
    if IsAlignedRequest alignment size ∧ fresh ∉ state.heap.superChunks then
      (state.heap.allocateLargeAligned alignment size (largeMin + alignment + size) fresh).map
        (state.allocated size)
    else none
  | .deallocateLarge address =>
    if address ∈ state.live.map Range.begin then
      some { state with
        heap := state.heap.deallocateLarge address
        live := state.live.filter fun range => range.begin ≠ address }
    else none
  | .scavengeBegin =>
    let (merged, heap) := state.heap.scavengeBegin
    some { state with heap := heap, scavenged := merged.toList ++ state.scavenged }
  | .scavengeEnd merged =>
    if merged ∈ state.scavenged then
      some { state with heap := state.heap.scavengeEnd merged, scavenged := state.scavenged.erase merged }
    else none

def run (state : LargeState) : List LargeAction → Option LargeState
  | [] => some state
  | action :: rest => (state.step action).bind fun next => next.run rest

end LargeState

/-- The states that a process can reach. -/
inductive LargeReachable : LargeState → Prop
  | initial : LargeReachable LargeState.initial
  | step {state next : LargeState} {action : LargeAction} (reached : LargeReachable state)
      (stepped : state.step action = some next) : LargeReachable next

end WebNode.Bmalloc
