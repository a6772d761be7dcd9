import WebNode.Lib.BigEndian

/-!
# The connection of `ConnectionUnix.cpp`

Messages go over a socket as bytes and file descriptors, which arrive in two buffers of the
receiving connection. `size_t` has 64 bits; the headers are copied as they are in memory.
-/

namespace WebNode.Ipc

/-! ### Headers -/

def littleEndian (width number : Nat) : List UInt8 := (BigEndian.bytes width number).reverse

def ofLittleEndian (bytes : List UInt8) : Nat := BigEndian.value bytes.reverse

/-- An `int`; -1 is no descriptor. -/
abbrev FileDescriptor := BitVec 32

structure MessageInfo where
  bodySize : Nat
  attachmentCount : Nat
  isMessageBodyOutOfLine : Bool
  deriving DecidableEq, Repr

namespace MessageInfo

/-- Two `size_t`, a `bool` and the padding. -/
def toBytes (info : MessageInfo) : List UInt8 :=
  littleEndian 8 info.bodySize ++ (littleEndian 8 info.attachmentCount ++
    (if info.isMessageBodyOutOfLine then 1 else 0) :: List.replicate 7 0)

def ofBytes (bytes : List UInt8) : MessageInfo where
  bodySize := ofLittleEndian (bytes.take 8)
  attachmentCount := ofLittleEndian ((bytes.drop 8).take 8)
  isMessageBodyOutOfLine := bytes.getD 16 0 != 0

/-- The bytes of the body that follow the header. -/
def inlineSize (info : MessageInfo) : Nat := if info.isMessageBodyOutOfLine then 0 else info.bodySize

/-- `messageLength`, which is computed in `size_t`. -/
def messageLength (info : MessageInfo) : Nat := (24 + info.attachmentCount * 24 + info.inlineSize) % 2 ^ 64

end MessageInfo

/-- `Attachment::Type`. Other numbers are treated as `Uninitialized`. -/
inductive AttachmentType where
  | uninitialized
  | socketType
  | mappedMemoryType
  deriving DecidableEq, Repr

namespace AttachmentType

def toNumber : AttachmentType → Nat
  | uninitialized => 0
  | socketType => 1
  | mappedMemoryType => 2

def ofNumber : Nat → AttachmentType
  | 1 => socketType
  | 2 => mappedMemoryType
  | _ => uninitialized

end AttachmentType

/-- `Attachment`. Only mapped memory has a size. -/
inductive Attachment where
  | uninitialized
  | socket (fileDescriptor : FileDescriptor)
  | mappedMemory (fileDescriptor : FileDescriptor) (size : Nat)
  deriving DecidableEq, Repr

structure AttachmentInfo where
  type : AttachmentType
  size : Nat
  isNull : Bool
  deriving DecidableEq, Repr

namespace AttachmentInfo

/-- An enumeration, a `size_t` and a `bool`, each with its padding. -/
def toBytes (info : AttachmentInfo) : List UInt8 :=
  littleEndian 4 info.type.toNumber ++ (List.replicate 4 0 ++ (littleEndian 8 info.size ++
    (if info.isNull then 1 else 0) :: List.replicate 7 0))

def ofBytes (bytes : List UInt8) : AttachmentInfo where
  type := .ofNumber (ofLittleEndian (bytes.take 4))
  size := ofLittleEndian ((bytes.drop 8).take 8)
  isNull := bytes.getD 16 0 != 0

/-- The array of the given number of entries. -/
def arrayOf : Nat → List UInt8 → List AttachmentInfo
  | 0, _ => []
  | count + 1, bytes => ofBytes (bytes.take 24) :: arrayOf count (bytes.drop 24)

/-- The entry came with a descriptor. -/
def hasFileDescriptor (info : AttachmentInfo) : Bool :=
  match info.type with
  | .mappedMemoryType | .socketType => !info.isNull
  | .uninitialized => false

def attachment (info : AttachmentInfo) (fileDescriptor : FileDescriptor) : Attachment :=
  match info.type with
  | .mappedMemoryType => .mappedMemory fileDescriptor info.size
  | .socketType => .socket fileDescriptor
  | .uninitialized => .uninitialized

end AttachmentInfo

/-! ### Receiving -/

/-- `m_readBufferSize` bytes of `m_readBuffer`, the memory of `m_fileDescriptors` (four bytes for
each of 255 descriptors) and how many of the descriptors were received. -/
structure Connection where
  readBuffer : List UInt8
  fileDescriptors : List UInt8
  fileDescriptorsSize : Nat

/-- Why processing a message does not return: a read outside of what was received or copied, or
a crash on purpose, for an array that is too large for the allocator or an index behind a vector. -/
inductive Failure where
  | readBuffer
  | fileDescriptors
  | attachmentInfo
  | aborted
  deriving DecidableEq, Repr

/-- What is mapped for a descriptor and a size: the bytes from an address on, if it can be
mapped. -/
abbrev SharedMemory := FileDescriptor → Nat → Option (Nat → UInt8)

/-- `ArgumentDecoder::m_buffer` and `m_attachments`. The descriptor that the body was mapped from
is kept as well. -/
structure MessageDecoder where
  body : List UInt8
  attachments : List Attachment
  mapped : Option FileDescriptor
  deriving DecidableEq, Repr

namespace Connection

variable (memory : SharedMemory) (connection : Connection)

def copyBytes (offset size : Nat) : Except Failure (List UInt8) :=
  if offset + size ≤ connection.readBuffer.length then .ok ((connection.readBuffer.drop offset).take size)
  else .error .readBuffer

/-- The number in the memory of the given descriptor. -/
def fileDescriptorAt (i : Nat) : FileDescriptor :=
  BitVec.ofNat 32 (ofLittleEndian ((connection.fileDescriptors.drop (i * 4)).take 4))

/-- `m_fileDescriptors[i]`, where the index is checked against the 255 of the vector. -/
def readFileDescriptor (i : Nat) : Except Failure FileDescriptor :=
  if i < connection.fileDescriptorsSize then .ok (connection.fileDescriptorAt i)
  else if 255 ≤ i then .error .aborted
  else .error .fileDescriptors

/-- The copy of the attachment infos. Arrays of more than `PTRDIFF_MAX` bytes are not allocated. -/
def copyAttachmentInfo (attachmentCount : Nat) : Except Failure (List AttachmentInfo) := do
  if attachmentCount = 0 then return []
  if 2 ^ 63 ≤ attachmentCount * 24 then throw .aborted
  let bytes ← connection.copyBytes 24 (attachmentCount * 24)
  return AttachmentInfo.arrayOf attachmentCount bytes

/-- The loop over the attachments, each of which takes the next descriptor if it has one. -/
def readAttachments : List AttachmentInfo → Nat → Except Failure (List Attachment)
  | [], _ => return []
  | info :: rest, fdIndex => do
    if info.hasFileDescriptor then
      let fd ← connection.readFileDescriptor fdIndex
      return info.attachment fd :: (← readAttachments rest (fdIndex + 1))
    else return info.attachment (-1) :: (← readAttachments rest fdIndex)

/-- The body in shared memory, unless it cannot be mapped. `info` is the entry behind the
attachments. -/
def mapBody (bodySize attachmentFileDescriptorCount : Nat) (info : Option AttachmentInfo) :
    Except Failure (Option (List UInt8 × FileDescriptor)) := do
  match info with
  | none => throw .attachmentInfo
  | some info =>
    if info.isNull then return none
    let fd ← connection.readFileDescriptor ((attachmentFileDescriptorCount + 2 ^ 64 - 1) % 2 ^ 64)
    match memory fd info.size with
    | none => return none
    | some data => return some ((List.range bodySize).map data, fd)

/-- The descriptors are moved up by as many descriptors as their number of bytes, and as many
bytes are moved as descriptors would have to be. -/
def moveFileDescriptors (attachmentFileDescriptorCount : Nat) : Except Failure Connection :=
  if attachmentFileDescriptorCount = 0 then .ok connection
  else if connection.fileDescriptorsSize > attachmentFileDescriptorCount then
    let fileDescriptorsLength := attachmentFileDescriptorCount * 4 % 2 ^ 64
    let rest := (connection.fileDescriptorsSize + 2 ^ 64 - fileDescriptorsLength) % 2 ^ 64
    if rest = 0 ∨ fileDescriptorsLength * 4 + rest ≤ connection.fileDescriptorsSize * 4 then
      .ok { connection with
        fileDescriptors := (connection.fileDescriptors.drop (fileDescriptorsLength * 4)).take rest ++
          connection.fileDescriptors.drop rest
        fileDescriptorsSize := rest }
    else .error .fileDescriptors
  else .ok { connection with fileDescriptorsSize := 0 }

/-- The part of `processMessage` behind the body: the decoder, and both buffers without the
message. -/
def finishMessage (messageLength attachmentFileDescriptorCount : Nat) (decoder : MessageDecoder) :
    Except Failure (Option (MessageDecoder × Connection)) := do
  let connection := { connection with readBuffer := connection.readBuffer.drop messageLength }
  return some (decoder, ← connection.moveFileDescriptors attachmentFileDescriptorCount)

/-- The part of `processMessage` behind the check of the length. -/
def processContents (messageInfo : MessageInfo) : Except Failure (Option (MessageDecoder × Connection)) := do
  let attachmentInfo ← connection.copyAttachmentInfo messageInfo.attachmentCount
  let attachmentFileDescriptorCount := attachmentInfo.countP AttachmentInfo.hasFileDescriptor
  let attachmentCount :=
    if messageInfo.isMessageBodyOutOfLine then messageInfo.attachmentCount - 1 else messageInfo.attachmentCount
  let attachments ← connection.readAttachments (attachmentInfo.take attachmentCount) 0
  if messageInfo.isMessageBodyOutOfLine then
    match ← connection.mapBody memory messageInfo.bodySize attachmentFileDescriptorCount
        attachmentInfo[attachmentCount]? with
    | none => return none
    | some (body, fd) =>
      connection.finishMessage messageInfo.messageLength attachmentFileDescriptorCount
        ⟨body, attachments.reverse, some fd⟩
  else
    let body ← connection.copyBytes (24 + messageInfo.attachmentCount * 24) messageInfo.bodySize
    connection.finishMessage messageInfo.messageLength attachmentFileDescriptorCount ⟨body, attachments.reverse, none⟩

/-- `processMessage`. There is no message where it returns false; it has not changed anything
then. -/
def processMessage : Except Failure (Option (MessageDecoder × Connection)) := do
  if connection.readBuffer.length < 24 then return none
  let messageInfo := MessageInfo.ofBytes (← connection.copyBytes 0 24)
  if connection.readBuffer.length < messageInfo.messageLength then return none
  connection.processContents memory messageInfo

end Connection

/-! ### Sending -/

/-- The buffer of a `MessageEncoder` and the attachments that were added to it. -/
structure OutgoingMessage where
  body : List UInt8
  attachments : List Attachment
  bounded : body.length < 2 ^ 64

/-- What `sendmsg` is given. -/
structure Packet where
  bytes : List UInt8
  fileDescriptors : List FileDescriptor
  deriving DecidableEq, Repr

namespace Attachment

def fileDescriptor : Attachment → FileDescriptor
  | uninitialized => -1
  | socket fd => fd
  | mappedMemory fd _ => fd

/-- The entry for an attachment. The size is set for mapped memory only. -/
def info : Attachment → AttachmentInfo
  | uninitialized => ⟨.uninitialized, 0, false⟩
  | socket fd => ⟨.socketType, 0, fd == -1⟩
  | mappedMemory fd size => ⟨.mappedMemoryType, size, fd == -1⟩

end Attachment

/-- The message is larger than the receiver's buffer with its body inline. -/
def OutgoingMessage.isOutOfLine (message : OutgoingMessage) : Bool :=
  (24 + message.attachments.length * 24 + message.body.length) % 2 ^ 64 > 4096 && message.body.length ≠ 0

/-- The bytes and descriptors of a message with the given header and attachments. -/
def packetOf (messageInfo : MessageInfo) (attachments : List Attachment) (body : List UInt8) : Packet where
  bytes := messageInfo.toBytes ++ (attachments.flatMap (fun attachment => attachment.info.toBytes) ++ body)
  fileDescriptors := (attachments.map Attachment.fileDescriptor).filter (· != -1)

/-- `sendOutgoingMessage`, up to the call of `sendmsg`. The handle is the descriptor of the shared
memory for the body, if it could be created. -/
def sendOutgoingMessage (handle : Option FileDescriptor) (message : OutgoingMessage) : Option Packet := do
  if message.attachments.length > 254 then none
  else if message.isOutOfLine then
    let fd ← handle
    return packetOf ⟨message.body.length, message.attachments.length + 1, true⟩
      (message.attachments ++ [.mappedMemory fd message.body.length]) []
  else
    return packetOf ⟨message.body.length, message.attachments.length, false⟩ message.attachments message.body

end WebNode.Ipc
