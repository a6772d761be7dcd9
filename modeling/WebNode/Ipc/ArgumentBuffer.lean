import WebNode.Lib.Alignment
import WebNode.Lib.BigEndian

/-!
# The buffers of `ArgumentEncoder.cpp` and `ArgumentDecoder.cpp`

The encoder aligns by the number of bytes before a value, the decoder by the address of the
value in its copy. Bytes that are skipped for the alignment hold whatever is in the memory.
-/

namespace WebNode.Ipc

open WebNode.Lib

/-! ### Encoding -/

/-- `m_buffer` up to `m_bufferSize`, and what the memory behind it holds. -/
structure ArgumentEncoder where
  buffer : List UInt8
  memory : Nat → UInt8

namespace ArgumentEncoder

def roundUpToAlignment (value alignment : Nat) : Nat := (value + alignment - 1) / alignment * alignment

/-- `grow` by the data, which is copied there. -/
def encodeFixedLengthData (encoder : ArgumentEncoder) (data : List UInt8) (alignment : Nat) : ArgumentEncoder :=
  let size := encoder.buffer.length
  let skipped := roundUpToAlignment size alignment - size
  { encoder with buffer := encoder.buffer ++ ((List.range' size skipped).map encoder.memory ++ data) }

end ArgumentEncoder

/-! ### Decoding -/

/-- The copy `m_buffer` of the bytes, its address and the address `m_bufferPos`. -/
structure ArgumentDecoder where
  buffer : List UInt8
  address : Nat
  position : Nat

namespace ArgumentDecoder

def bufferEnd (decoder : ArgumentDecoder) : Nat := decoder.address + decoder.buffer.length

def roundUpToAlignment (pointer alignment : Nat) : Nat :=
  alignDown alignment ((pointer + (alignment - 1)) % 2 ^ 64)

def alignedBufferIsLargeEnoughToContain (alignedPosition bufferEnd size : Nat) : Bool :=
  bufferEnd ≥ alignedPosition ∧ bufferEnd - alignedPosition ≥ size

def markInvalid (decoder : ArgumentDecoder) : ArgumentDecoder := { decoder with position := decoder.bufferEnd + 1 }

def bufferIsLargeEnoughToContain (decoder : ArgumentDecoder) (alignment size : Nat) : Bool :=
  alignedBufferIsLargeEnoughToContain (roundUpToAlignment decoder.position alignment) decoder.bufferEnd size

/-- `bufferIsLargeEnoughToContain<T>`, whose `T` has the same size and alignment. -/
def containsElements (decoder : ArgumentDecoder) (elementSize numElements : Nat) : Bool :=
  if numElements > (2 ^ 64 - 1) / elementSize then false
  else decoder.bufferIsLargeEnoughToContain elementSize (numElements * elementSize)

end ArgumentDecoder

/-- A function that decodes returns false or fills in a value. It has no result if it crashes or
does not end. -/
def Decode (α : Type) : Type := ArgumentDecoder → Option (Option α × ArgumentDecoder)

namespace Decode

variable {α β : Type}

def invalid : Decode α := fun decoder => some (none, decoder.markInvalid)

def crash : Decode α := fun _ => none

/-- Goes on with the value, if there is one. -/
def andThen (first : Decode α) (next : α → Decode β) : Decode β := fun decoder =>
  match first decoder with
  | none => none
  | some (none, decoder) => some (none, decoder)
  | some (some value, decoder) => next value decoder

instance : Monad Decode where
  pure value := fun decoder => some (some value, decoder)
  bind := andThen

/-- Goes on if the decoder has the property, and marks it as invalid otherwise. -/
def require (property : ArgumentDecoder → Bool) : Decode Unit := fun decoder =>
  if property decoder then some (some (), decoder) else some (none, decoder.markInvalid)

def alignBufferPosition (alignment size : Nat) : Decode Unit := fun decoder =>
  let alignedPosition := ArgumentDecoder.roundUpToAlignment decoder.position alignment
  if ArgumentDecoder.alignedBufferIsLargeEnoughToContain alignedPosition decoder.bufferEnd size then
    some (some (), { decoder with position := alignedPosition })
  else some (none, decoder.markInvalid)

/-- The bytes at the position, which is moved behind them. -/
def copyFromBuffer (size : Nat) : Decode (List UInt8) := fun decoder =>
  some (some ((decoder.buffer.drop (decoder.position - decoder.address)).take size),
    { decoder with position := decoder.position + size })

def decodeFixedLengthData (size alignment : Nat) : Decode (List UInt8) := do
  alignBufferPosition alignment size
  copyFromBuffer size

end Decode

end WebNode.Ipc
