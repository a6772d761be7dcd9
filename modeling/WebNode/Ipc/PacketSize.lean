import WebNode.Ipc.ReceiveSafety

/-!
# The size of a packet

Only the body can be moved out of line, and then an entry for it is added to the attachments.
-/

namespace WebNode.Ipc

/-- The size of the receiver's read buffer. -/
def messageMaxSize : Nat := 4096

def attachmentMaxAmount : Nat := 255

@[simp]
theorem length_littleEndian (width number : Nat) : (littleEndian width number).length = width := by
  rw [littleEndian, List.length_reverse, BigEndian.bytes_length]

@[simp]
theorem MessageInfo.length_toBytes (info : MessageInfo) : info.toBytes.length = 24 := by simp [toBytes]

@[simp]
theorem AttachmentInfo.length_toBytes (info : AttachmentInfo) : info.toBytes.length = 24 := by simp [toBytes]

theorem AttachmentInfo.length_flatMap (infos : List AttachmentInfo) :
    (infos.flatMap toBytes).length = infos.length * 24 := by
  induction infos with
  | nil => rfl
  | cons info rest ih =>
    rw [List.flatMap_cons, List.length_append, ih, length_toBytes, List.length_cons, Nat.succ_mul, Nat.add_comm]

theorem length_packetOf (messageInfo : MessageInfo) (attachments : List Attachment) (body : List UInt8) :
    (packetOf messageInfo attachments body).bytes.length = 24 + attachments.length * 24 + body.length := by
  have entries : attachments.flatMap (fun attachment => attachment.info.toBytes) =
      (attachments.map Attachment.info).flatMap AttachmentInfo.toBytes := by rw [List.flatMap_map]
  rw [packetOf, entries, List.length_append, List.length_append, AttachmentInfo.length_flatMap, List.length_map,
    MessageInfo.length_toBytes, Nat.add_assoc]

theorem exists_packet (fd : FileDescriptor) {message : OutgoingMessage}
    (few : message.attachments.length ≤ attachmentMaxAmount - 1) :
    ∃ packet, sendOutgoingMessage (some fd) message = some packet ∧ packet.bytes.length =
      if message.isOutOfLine then 24 + (message.attachments.length + 1) * 24
      else 24 + message.attachments.length * 24 + message.body.length := by
  unfold attachmentMaxAmount at few
  rw [sendOutgoingMessage, if_neg (by omega)]
  split
  · exact ⟨_, rfl, by rw [length_packetOf, List.length_append, List.length_singleton, List.length_nil, Nat.add_zero]⟩
  · exact ⟨_, rfl, length_packetOf ..⟩

/-- A packet that is sent fits the receiver's buffer just if it does with its body inline, or has a body and leaves
room for one more entry. -/
theorem packet_fits_iff (fd : FileDescriptor) (message : OutgoingMessage)
    (few : message.attachments.length ≤ attachmentMaxAmount - 1) :
    ∃ packet, sendOutgoingMessage (some fd) message = some packet ∧
      (packet.bytes.length ≤ messageMaxSize ↔
        24 + message.attachments.length * 24 + message.body.length ≤ messageMaxSize ∨
        message.body.length ≠ 0 ∧ 24 + (message.attachments.length + 1) * 24 ≤ messageMaxSize ∧
          24 + message.attachments.length * 24 + message.body.length < 2 ^ 64) := by
  obtain ⟨packet, sent, length_eq⟩ := exists_packet fd few
  refine ⟨packet, sent, ?_⟩
  have bounded := message.bounded
  unfold attachmentMaxAmount at few
  rw [length_eq, messageMaxSize, OutgoingMessage.isOutOfLine]
  split
  · next outOfLine =>
    rw [Bool.and_eq_true, decide_eq_true_iff, decide_eq_true_iff] at outOfLine
    omega
  · next inLine =>
    rw [Bool.and_eq_true, decide_eq_true_iff, decide_eq_true_iff] at inLine
    omega

/-- A message with sockets and a body of zeros. -/
def OutgoingMessage.ofSockets (sockets size : Nat) (bounded : size < 2 ^ 64) : OutgoingMessage where
  body := List.replicate size 0
  attachments := List.replicate sockets (.socket 3)
  bounded := by rwa [List.length_replicate]

theorem packet_fits_large : ∃ packet, sendOutgoingMessage (some 5) (.ofSockets 2 1048576 (by decide)) = some packet ∧
    packet.bytes.length ≤ messageMaxSize := by
  obtain ⟨packet, sent, fits⟩ := packet_fits_iff 5 (.ofSockets 2 1048576 (by decide)) (by decide)
  refine ⟨packet, sent, fits.mpr (.inr ?_)⟩
  simp only [OutgoingMessage.ofSockets, List.length_replicate, messageMaxSize]
  decide

/-- 170 attachments without a body, and 169 attachments with a body of forty bytes, are more than 4096 bytes. -/
theorem packet_too_large :
    (∃ packet, sendOutgoingMessage (some 5) (.ofSockets 170 0 (by decide)) = some packet ∧
      messageMaxSize < packet.bytes.length) ∧
    ∃ packet, sendOutgoingMessage (some 5)
    (.ofSockets 169 40 (by decide)) = some packet ∧ messageMaxSize < packet.bytes.length := by
  obtain ⟨first, firstSent, first_eq⟩ := @exists_packet 5 (.ofSockets 170 0 (by decide)) (by decide +kernel)
  obtain ⟨second, secondSent, second_eq⟩ := @exists_packet 5 (.ofSockets 169 40 (by decide)) (by decide +kernel)
  refine ⟨⟨first, firstSent, ?_⟩, second, secondSent, ?_⟩
  · rw [first_eq]
    decide +kernel
  · rw [second_eq]
    decide +kernel

end WebNode.Ipc
