import WebNode.Bmalloc.Sizes
import Mathlib.Logic.Function.Basic

/-! The small and medium pages of `Heap.cpp` and `VMHeap.h`. A vector is a list with
its last element first, so that `push` adds and `pop` takes the head. -/
namespace WebNode.Bmalloc

structure BumpRange where
  begin : Nat
  objectCount : Nat
  deriving DecidableEq, Repr

/-- The state of one kind of pages: reference counts of lines and pages, size
classes, the page lists of the heap and of the VM heap, and the pages whose
physical memory a scavenger is giving back with the lock dropped. -/
structure PageHeap where
  lineRefs : Nat → Nat
  pageRefs : Nat → Nat
  pageClass : Nat → Nat
  pagesWithFreeLines : Nat → List Nat
  pages : List Nat
  vmPages : List Nat
  scavenged : List Nat

namespace PageHeap

def initial : PageHeap := ⟨fun _ => 0, fun _ => 0, fun _ => 0, fun _ => [], [], [], []⟩

/-- The loop of `allocateSmallPage` that pops pages with free lines and skips those
that were promoted to the pages list since. -/
def popPage (heap : PageHeap) (c : Nat) : List Nat → Option Nat × List Nat
  | [] => (none, [])
  | page :: rest =>
    if heap.pageRefs page = 0 ∨ heap.pageClass page ≠ c then heap.popPage c rest
    else (some page, rest)

def setPagesWithFreeLines (heap : PageHeap) (c : Nat) (list : List Nat) : PageHeap :=
  { heap with pagesWithFreeLines := Function.update heap.pagesWithFreeLines c list }

def setSizeClass (heap : PageHeap) (page c : Nat) : PageHeap :=
  { heap with pageClass := Function.update heap.pageClass page c }

/-- `Line::ref` and `Page::ref` for a free line that is taken. -/
def refLine (heap : PageHeap) (line page objectCount : Nat) : PageHeap :=
  { heap with
    lineRefs := Function.update heap.lineRefs line objectCount
    pageRefs := Function.update heap.pageRefs page (heap.pageRefs page + 1) }

/-- The lines that a refill looks at: all but a last one that fits no object. -/
def usableLines (kind : Kind) (c : Nat) : Nat :=
  if (lineMetadata kind c (kind.lineCount - 1)).objectCount = 0 then kind.lineCount - 1
  else kind.lineCount

def pushRange (cache : List BumpRange) : Option BumpRange → List BumpRange
  | none => cache
  | some range => range :: cache

/-- A free line opens a range, or is merged into the one that is open. -/
def mergeLine (kind : Kind) (c page lineNumber : Nat) : Option BumpRange → BumpRange
  | none =>
    let metadata := lineMetadata kind c lineNumber
    ⟨Line.begin kind (Page.begin kind page + lineNumber) + metadata.startOffset, metadata.objectCount⟩
  | some range =>
    { range with objectCount := range.objectCount + (lineMetadata kind c lineNumber).objectCount }

/-- The loops of `refillSmallBumpRangeCache` over the given lines, with the range
that the lines before left open. A line in use closes it. -/
def refillLines (kind : Kind) (c page : Nat) :
    List Nat → PageHeap → Option BumpRange → List BumpRange → PageHeap × List BumpRange
  | [], heap, range, cache => (heap, pushRange cache range)
  | lineNumber :: rest, heap, range, cache =>
    let line := Page.begin kind page + lineNumber
    if heap.lineRefs line ≠ 0 then
      refillLines kind c page rest heap none (pushRange cache range)
    else
      refillLines kind c page rest
        (heap.refLine line page (lineMetadata kind c lineNumber).objectCount)
        (some (mergeLine kind c page lineNumber range)) cache

/-- `deallocateSmallLine`, for a line whose last object is gone. -/
def deallocateLine (kind : Kind) (heap : PageHeap) (line : Nat) : PageHeap :=
  let page := Page.get kind line
  let refCount := heap.pageRefs page
  let heap := { heap with pageRefs := Function.update heap.pageRefs page (refCount - 1) }
  if refCount = kind.lineCount then
    -- first free line in the page
    heap.setPagesWithFreeLines (heap.pageClass page)
      (page :: heap.pagesWithFreeLines (heap.pageClass page))
  else if refCount = 1 then
    -- last free line in the page
    { heap with pages := page :: heap.pages }
  else heap

/-- `derefSmallLine`. -/
def derefLine (kind : Kind) (heap : PageHeap) (line : Nat) : PageHeap :=
  let refCount := heap.lineRefs line - 1
  let heap := { heap with lineRefs := Function.update heap.lineRefs line refCount }
  if refCount ≠ 0 then heap else heap.deallocateLine kind line

/-- The pages of a kind in the super chunk with the given number. -/
def chunkPages (kind : Kind) (superChunk : Nat) : List Nat :=
  (List.range' kind.firstPage (Kind.chunkSize / vmPageSize - kind.firstPage)).map fun page =>
    (superChunk * superChunkSize + kind.chunkOffset) / vmPageSize + page

/-- The part of `VMHeap::grow` for one kind of pages. The metadata of a fresh super
chunk is zero. -/
def grow (kind : Kind) (heap : PageHeap) (superChunk : Nat) : PageHeap :=
  { heap with
    lineRefs := fun line => if line * kind.lineSize / superChunkSize = superChunk then 0 else heap.lineRefs line
    pageRefs := fun page => if page * vmPageSize / superChunkSize = superChunk then 0 else heap.pageRefs page
    pageClass := fun page => if page * vmPageSize / superChunkSize = superChunk then 0 else heap.pageClass page
    vmPages := (chunkPages kind superChunk).reverse ++ heap.vmPages }

/-- `scavengeSmallPages` up to dropping the lock. -/
def scavengeBegin (heap : PageHeap) : Option PageHeap :=
  match heap.pages with
  | [] => none
  | page :: rest => some { heap with pages := rest, scavenged := page :: heap.scavenged }

/-- `VMHeap::deallocateSmallPage` after taking the lock again. -/
def scavengeEnd (heap : PageHeap) (page : Nat) : Option PageHeap :=
  if page ∈ heap.scavenged then
    some { heap with scavenged := heap.scavenged.erase page, vmPages := page :: heap.vmPages }
  else none

end PageHeap

/-- Both kinds of pages, and the super chunks they lie in. -/
structure Heap where
  pageHeap : Kind → PageHeap
  superChunks : List Nat

namespace Heap

def initial : Heap := ⟨fun _ => PageHeap.initial, []⟩

def set (heap : Heap) (kind : Kind) (pages : PageHeap) : Heap :=
  { heap with pageHeap := Function.update heap.pageHeap kind pages }

/-- `VMHeap::grow`, which adds the pages of all kinds. -/
def grow (heap : Heap) (superChunk : Nat) : Heap where
  pageHeap := fun kind => (heap.pageHeap kind).grow kind superChunk
  superChunks := superChunk :: heap.superChunks

/-- `VMHeap::allocateSmallPage`; the argument is the super chunk that the system
hands out if the heap has to grow. -/
def vmAllocatePage (heap : Heap) (kind : Kind) (fresh : Nat) : Option (Nat × Heap) :=
  let heap := if (heap.pageHeap kind).vmPages = [] then heap.grow fresh else heap
  match (heap.pageHeap kind).vmPages with
  | [] => none
  | page :: rest => some (page, heap.set kind { heap.pageHeap kind with vmPages := rest })

/-- `allocateSmallPage`. -/
def allocatePage (heap : Heap) (kind : Kind) (c fresh : Nat) : Option (Nat × Heap) :=
  let pages := heap.pageHeap kind
  match pages.popPage c (pages.pagesWithFreeLines c) with
  | (some page, rest) => some (page, heap.set kind (pages.setPagesWithFreeLines c rest))
  | (none, rest) =>
    let pages := pages.setPagesWithFreeLines c rest
    let taken := match pages.pages with
      | page :: rest => some (page, heap.set kind { pages with pages := rest })
      | [] => (heap.set kind pages).vmAllocatePage kind fresh
    taken.map fun (page, heap) => (page, heap.set kind ((heap.pageHeap kind).setSizeClass page c))

/-- `refillSmallBumpRangeCache` and `refillMediumBumpRangeCache`. -/
def refillBumpRangeCache (heap : Heap) (kind : Kind) (c fresh : Nat) (cache : List BumpRange) :
    Option (Heap × List BumpRange) :=
  (heap.allocatePage kind c fresh).map fun (page, heap) =>
    let (pages, cache) := PageHeap.refillLines kind c page
      (List.range (PageHeap.usableLines kind c)) (heap.pageHeap kind) none cache
    (heap.set kind pages, cache)

def refillSmallBumpRangeCache (heap : Heap) (c fresh : Nat) (cache : List BumpRange) :
    Option (Heap × List BumpRange) := heap.refillBumpRangeCache .small c fresh cache

def refillMediumBumpRangeCache (heap : Heap) (c fresh : Nat) (cache : List BumpRange) :
    Option (Heap × List BumpRange) := heap.refillBumpRangeCache .medium c fresh cache

/-- What `processObjectLog` does for one object. -/
def derefObject (heap : Heap) (object : Nat) : Heap :=
  let kind := Kind.ofAddress object
  heap.set kind ((heap.pageHeap kind).derefLine kind (Line.get kind object))

end Heap

end WebNode.Bmalloc
