import WebNode.Lib.BigEndian

/-! The frames of a web socket and their bytes, after `WebSocketFrame.cpp`. A buffer is the
list of its bytes and a pointer into it is what follows the pointer. -/
namespace WebNode.WebSockets

def maskBit : UInt8 := 0x80
def payloadLengthMask : UInt8 := 0x7F
def maxPayloadLengthWithoutExtendedLengthField : Nat := 125
def payloadLengthWithTwoByteExtendedLengthField : Nat := 126
/-- A frame. An opcode is any value of four bits, not only one that has a name. -/
structure WebSocketFrame where
  opCode : UInt8
  final : Bool
  compress : Bool
  reserved2 : Bool
  reserved3 : Bool
  masked : Bool
  payload : List UInt8
  deriving DecidableEq, Repr

inductive ParseFrameResult where
  | frameOK (frame : WebSocketFrame) (frameEnd : Nat)
  | frameIncomplete
  | frameError (errorString : String)
  deriving DecidableEq, Repr

namespace WebSocketFrame

def minimalLengthError : String := "The minimal number of bytes MUST be used to encode the length"

/-- The length after the first two bytes of a frame, and where the frame goes on. -/
def parseLength (payloadLength : Nat) (p : List UInt8) : Except ParseFrameResult (Nat × List UInt8) :=
  if payloadLength > maxPayloadLengthWithoutExtendedLengthField then
    let extendedPayloadLengthSize :=
      if payloadLength = payloadLengthWithTwoByteExtendedLengthField then 2 else 8
    if p.length < extendedPayloadLengthSize then .error .frameIncomplete
    else
      let payloadLength := BigEndian.value (p.take extendedPayloadLengthSize)
      if extendedPayloadLengthSize = 2 ∧ payloadLength ≤ maxPayloadLengthWithoutExtendedLengthField then
        .error (.frameError minimalLengthError)
      else if extendedPayloadLengthSize = 8 ∧ payloadLength ≤ 0xFFFF then
        .error (.frameError minimalLengthError)
      else .ok (payloadLength, p.drop extendedPayloadLengthSize)
  else .ok (payloadLength, p)

section Bits

theorem secondByte_eq {second : UInt8} (unmasked : (second &&& maskBit != 0) = false) :
    (second &&& payloadLengthMask).toNat < 128 ∧ UInt8.ofNat (second &&& payloadLengthMask).toNat = second := by
  have every : ∀ number < 256, let second := UInt8.ofNat number
      (second &&& maskBit != 0) = false →
        (second &&& payloadLengthMask).toNat < 128 ∧ UInt8.ofNat (second &&& payloadLengthMask).toNat = second := by
    decide +kernel
  have same := every second.toNat second.toNat_lt
  rw [UInt8.ofNat_toNat] at same
  exact same unmasked

end Bits

section Masking

variable (maskingKey payload : List UInt8)

end Masking

section Lengths

section Extended

variable {extension : List UInt8} (rest : List UInt8)

end Extended

end Lengths

section Frames

variable {frame : WebSocketFrame} {maskingKey : MaskingKey}

end Frames

section Results

end Results

end WebSocketFrame

end WebNode.WebSockets
