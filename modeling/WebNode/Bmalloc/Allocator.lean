import WebNode.Bmalloc.PageHeap

/-! The per-thread allocators and deallocators of small and medium objects, after
`Allocator.cpp`, `BumpAllocator.h` and `Deallocator.cpp`, and the runs of a process
that uses them from several threads. -/
namespace WebNode.Bmalloc

structure BumpAllocator where
  ptr : Nat
  remaining : Nat
  deriving DecidableEq, Repr

namespace BumpAllocator

def init : BumpAllocator := ⟨0, 0⟩

def canAllocate (bump : BumpAllocator) : Bool := bump.remaining ≠ 0

def allocate (bump : BumpAllocator) (size : Nat) : Nat × BumpAllocator :=
  (bump.ptr, ⟨bump.ptr + size, bump.remaining - 1⟩)

def refill (range : BumpRange) : BumpAllocator := ⟨range.begin, range.objectCount⟩

end BumpAllocator

/-- The allocator and the deallocator of a thread: a bump allocator and a range
cache for each size class, and the log of freed objects, oldest first. -/
structure Thread where
  bumpAllocators : Nat → BumpAllocator
  bumpRangeCaches : Nat → List BumpRange
  objectLog : List Nat

namespace Thread

def init : Thread := ⟨fun _ => BumpAllocator.init, fun _ => [], []⟩

def setBump (thread : Thread) (c : Nat) (bump : BumpAllocator) : Thread :=
  { thread with bumpAllocators := Function.update thread.bumpAllocators c bump }

def setCache (thread : Thread) (c : Nat) (cache : List BumpRange) : Thread :=
  { thread with bumpRangeCaches := Function.update thread.bumpRangeCaches c cache }

/-- `allocateBumpRange`, with its slow case for an empty cache. -/
def allocateBumpRange (thread : Thread) (heap : Heap) (c fresh : Nat) :
    Option (BumpRange × Thread × Heap) :=
  match thread.bumpRangeCaches c with
  | range :: rest => some (range, thread.setCache c rest, heap)
  | [] =>
    match heap.refillBumpRangeCache (Kind.ofClass c) c fresh [] with
    | some (heap, range :: rest) => some (range, thread.setCache c rest, heap)
    | _ => none

/-- `allocate` of a size up to `mediumMax`, fast and slow case. -/
def allocate (thread : Thread) (heap : Heap) (size fresh : Nat) : Option (Nat × Thread × Heap) :=
  let c := sizeClass size
  if (thread.bumpAllocators c).canAllocate then
    let (object, bump) := (thread.bumpAllocators c).allocate (objectSize c)
    some (object, thread.setBump c bump, heap)
  else
    (thread.allocateBumpRange heap c fresh).map fun (range, thread, heap) =>
      let (object, bump) := (BumpAllocator.refill range).allocate (objectSize c)
      (object, thread.setBump c bump, heap)

def processObjectLog (thread : Thread) (heap : Heap) : Thread × Heap :=
  ({ thread with objectLog := [] }, thread.objectLog.foldl Heap.derefObject heap)

/-- `deallocate` of a small or medium object: a full log is processed first. -/
def deallocate (thread : Thread) (heap : Heap) (object : Nat) : Thread × Heap :=
  let (thread, heap) :=
    if thread.objectLog.length = deallocatorLogCapacity then thread.processObjectLog heap
    else (thread, heap)
  ({ thread with objectLog := thread.objectLog ++ [object] }, heap)

end Thread

/-- An object of a size class. -/
structure Object where
  address : Nat
  size : Nat
  deriving DecidableEq, Repr

/-- A process: the heap, its threads, and the objects that were handed out and have
not come back to the heap. A freed object comes back when the log that holds it is
processed. -/
structure State where
  heap : Heap
  threadCount : Nat
  threads : Nat → Thread
  live : List Object

namespace State

def initial : State := ⟨Heap.initial, 0, fun _ => Thread.init, []⟩

def setThread (state : State) (t : Nat) (thread : Thread) : State :=
  { state with threads := Function.update state.threads t thread }

/-- Whether an object waits in the log of some thread. -/
def isFreed (state : State) (object : Nat) : Bool :=
  (List.range state.threadCount).any fun t => (state.threads t).objectLog.contains object

end State

/-- What a process can do. Scavenging a thread's allocator goes round by round, and
scavenging pages lets other threads in between its two parts. -/
inductive Action where
  | spawn
  | allocate (t size fresh : Nat)
  | deallocate (t object : Nat)
  | processObjectLog (t : Nat)
  | scavengeAllocator (t c : Nat)
  | scavengeBegin (kind : Kind)
  | scavengeEnd (kind : Kind) (page : Nat)
  deriving DecidableEq, Repr

namespace State

/-- Take the processed log of a thread out of the live objects. -/
def forget (live : List Object) (log : List Nat) : List Object :=
  live.filter fun object => !log.contains object.address

/-- Free an object through the log of a thread. -/
def deallocate (state : State) (t object : Nat) : State :=
  let thread := state.threads t
  let processed := if thread.objectLog.length = deallocatorLogCapacity then thread.objectLog else []
  let (thread, heap) := thread.deallocate state.heap object
  { state.setThread t thread with heap := heap, live := forget state.live processed }

/-- One round of `Allocator::scavenge` for a size class: an object of the bump
allocator is freed, or the next cached range is put into it, or it is cleared. -/
def scavengeAllocator (state : State) (t c : Nat) : State :=
  let thread := state.threads t
  if (thread.bumpAllocators c).canAllocate then
    let (object, bump) := (thread.bumpAllocators c).allocate (objectSize c)
    let state := state.setThread t (thread.setBump c bump)
    { state with live := ⟨object, objectSize c⟩ :: state.live }.deallocate t object
  else
    match thread.bumpRangeCaches c with
    | range :: rest => state.setThread t ((thread.setCache c rest).setBump c (BumpAllocator.refill range))
    | [] => state.setThread t (thread.setBump c BumpAllocator.init)

/-- One action, if the process can take it: threads exist, super chunks that the
system hands out are new, and clients free live objects, once. -/
def step (state : State) : Action → Option State
  | .spawn =>
    some { state with
      threadCount := state.threadCount + 1
      threads := Function.update state.threads state.threadCount Thread.init }
  | .allocate t size fresh =>
    if t < state.threadCount ∧ size ≤ mediumMax ∧ fresh ∉ state.heap.superChunks then
      ((state.threads t).allocate state.heap size fresh).map fun (object, thread, heap) =>
        { state.setThread t thread with
          heap := heap
          live := ⟨object, objectSize (sizeClass size)⟩ :: state.live }
    else none
  | .deallocate t object =>
    if t < state.threadCount ∧ object ∈ state.live.map Object.address ∧ ¬ state.isFreed object then
      some (state.deallocate t object)
    else none
  | .processObjectLog t =>
    if t < state.threadCount then
      let (thread, heap) := (state.threads t).processObjectLog state.heap
      some { state.setThread t thread with
        heap := heap
        live := forget state.live (state.threads t).objectLog }
    else none
  | .scavengeAllocator t c =>
    if t < state.threadCount ∧ c < mediumMax / alignment then some (state.scavengeAllocator t c) else none
  | .scavengeBegin kind =>
    (state.heap.pageHeap kind).scavengeBegin.map fun pages =>
      { state with heap := state.heap.set kind pages }
  | .scavengeEnd kind page =>
    ((state.heap.pageHeap kind).scavengeEnd page).map fun pages =>
      { state with heap := state.heap.set kind pages }

end State

/-- The states that a process can reach. -/
inductive Reachable : State → Prop
  | initial : Reachable State.initial
  | step {state next : State} {action : Action} (reached : Reachable state)
      (stepped : state.step action = some next) : Reachable next

end WebNode.Bmalloc
