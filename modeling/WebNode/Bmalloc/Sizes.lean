import Mathlib.Data.Nat.Init
import Mathlib.Tactic.Common
import Mathlib.Algebra.Order.Ring.Int

/-! Sizing constants and calculations of `Sizes.h`, with the page and line layout
of `Page.h`, `Line.h` and `Chunk.h`. -/
namespace WebNode.Bmalloc

def alignment : Nat := 8
def vmPageSize : Nat := 4096
def superChunkSize : Nat := 33554432

def smallMax : Nat := 256
def smallLineSize : Nat := 256
def smallChunkOffset : Nat := superChunkSize * 3 / 4

def mediumMax : Nat := 1024
def mediumLineSize : Nat := 1024
def mediumChunkOffset : Nat := superChunkSize * 2 / 4

/-- The two address bits that tell the four chunks of a super chunk apart. -/
def typeMask : Nat := (superChunkSize - 1) - (superChunkSize / 4 - 1)
def smallType : Nat := (superChunkSize + smallChunkOffset) &&& typeMask
def mediumType : Nat := (superChunkSize + mediumChunkOffset) &&& typeMask
def smallOrMediumSmallTypeMask : Nat := smallType ^^^ mediumType

def deallocatorLogCapacity : Nat := 256
def bumpRangeCacheCapacity : Nat := vmPageSize / smallLineSize / 2

/-- The subtraction is one of 64-bit unsigned numbers. -/
def sizeClass (size : Nat) : Nat :=
  ((size + 2 ^ 64 - 1) % 2 ^ 64 / alignment) &&& (mediumMax / alignment - 1)

def objectSize (sizeClass : Nat) : Nat := (sizeClass + 1) * alignment

/-- The two instances of the page, line and chunk templates. -/
inductive Kind where
  | small
  | medium
  deriving DecidableEq, Repr

namespace Kind

def lineSize : Kind → Nat
  | small => smallLineSize
  | medium => mediumLineSize

def chunkOffset : Kind → Nat
  | small => smallChunkOffset
  | medium => mediumChunkOffset

def chunkSize : Nat := superChunkSize / 4

def lineCount (kind : Kind) : Nat := vmPageSize / kind.lineSize

/-- The first page of a chunk behind its metadata: a byte for each line and two for
each page, rounded up to whole pages. -/
def firstPage (kind : Kind) : Nat :=
  (chunkSize / kind.lineSize + chunkSize / vmPageSize * 2 + vmPageSize - 1) / vmPageSize

/-- The kind of the objects of a size class. -/
def ofClass (c : Nat) : Kind := if c ≤ sizeClass smallMax then small else medium

/-- `isSmall`, for the address of a small or medium object. -/
def ofAddress (address : Nat) : Kind :=
  if address &&& smallOrMediumSmallTypeMask ≠ 0 then small else medium

end Kind

/-- Lines and pages are numbered by address: a line of an object, the page of a line
and the first line of a page. -/
def Line.get (kind : Kind) (object : Nat) : Nat := object / kind.lineSize

def Line.begin (kind : Kind) (line : Nat) : Nat := line * kind.lineSize

def Page.get (kind : Kind) (line : Nat) : Nat := line * kind.lineSize / vmPageSize

def Page.begin (kind : Kind) (page : Nat) : Nat := page * kind.lineCount

structure LineMetadata where
  startOffset : Nat
  objectCount : Nat
  deriving DecidableEq, Repr

/-- Quotient, rounded up, and remainder. -/
def divideRoundingUp (numerator denominator : Nat) : Nat × Nat :=
  let remainder := numerator % denominator
  (numerator / denominator + (if remainder ≠ 0 then 1 else 0), remainder)

/-- Where the first object of a line starts: behind the last one of the line before. -/
def startOffset (lineSize size : Nat) : Nat → Nat
  | 0 => 0
  | lineNumber + 1 =>
    let remainder := (divideRoundingUp (lineSize - startOffset lineSize size lineNumber) size).2
    if remainder ≠ 0 then size - remainder else 0

/-- `initializeLineMetadata`: the last line of a page rounds down, not being allowed
to overlap into its neighbour. -/
def lineMetadata (kind : Kind) (c lineNumber : Nat) : LineMetadata :=
  let size := objectSize c
  let start := startOffset kind.lineSize size lineNumber
  if lineNumber < kind.lineCount - 1 then ⟨start, (divideRoundingUp (kind.lineSize - start) size).1⟩
  else ⟨start, (kind.lineSize - start) / size⟩

end WebNode.Bmalloc
