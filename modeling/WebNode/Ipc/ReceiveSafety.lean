import WebNode.Ipc.Connection

/-!
# What a peer can make the connection read

A peer chooses every byte of the headers. Processing a message stays within what was received
exactly if the header is sound.
-/

namespace WebNode.Ipc.Connection

variable {memory : SharedMemory} {connection : Connection}

/-! ### Reading the attachments -/

/-- The attachments with the descriptors from the given one on. -/
def attachmentsFrom (connection : Connection) : List AttachmentInfo → Nat → List Attachment
  | [], _ => []
  | info :: rest, fdIndex =>
    if info.hasFileDescriptor then
      info.attachment (connection.fileDescriptorAt fdIndex) :: connection.attachmentsFrom rest (fdIndex + 1)
    else info.attachment (-1) :: connection.attachmentsFrom rest fdIndex

theorem readAttachments_eq (infos : List AttachmentInfo) (fdIndex : Nat) (le : fdIndex ≤ connection.fileDescriptorsSize)
    (short : fdIndex + infos.length ≤ 255) :
    connection.readAttachments infos fdIndex =
      if fdIndex + infos.countP AttachmentInfo.hasFileDescriptor ≤ connection.fileDescriptorsSize then
        .ok (connection.attachmentsFrom infos fdIndex)
      else .error .fileDescriptors := by
  induction infos generalizing fdIndex with
  | nil => exact (if_pos le).symm
  | cons info rest ih =>
    rw [List.length_cons] at short
    by_cases has : info.hasFileDescriptor = true
    · rw [List.countP_cons_of_pos has, attachmentsFrom, if_pos has, readAttachments, if_pos has, readFileDescriptor]
      by_cases inside : fdIndex < connection.fileDescriptorsSize
      · rw [if_pos inside]
        show (do return info.attachment (connection.fileDescriptorAt fdIndex) ::
          (← connection.readAttachments rest (fdIndex + 1))) = _
        rw [ih (fdIndex + 1) inside (by omega), show fdIndex + 1 + rest.countP AttachmentInfo.hasFileDescriptor =
          fdIndex + (rest.countP AttachmentInfo.hasFileDescriptor + 1) by omega]
        split <;> rfl
      · rw [if_neg inside, if_neg (by omega), if_neg (by omega)]
        rfl
    · rw [List.countP_cons_of_neg has, attachmentsFrom, if_neg has, readAttachments, if_neg has,
        ih fdIndex le (by omega)]
      split <;> rfl

/-! ### Headers -/

/-- The header at the start of the buffer. -/
def messageInfo (connection : Connection) : MessageInfo := .ofBytes (connection.readBuffer.take 24)

/-- The entries behind the header. -/
def attachmentInfo (connection : Connection) : List AttachmentInfo :=
  AttachmentInfo.arrayOf connection.messageInfo.attachmentCount
    ((connection.readBuffer.drop 24).take (connection.messageInfo.attachmentCount * 24))

/-- The descriptors that the message claims to have. -/
def claimedDescriptors (connection : Connection) : Nat :=
  connection.attachmentInfo.countP AttachmentInfo.hasFileDescriptor

/-- The message passes the check of its length, and its array of entries can be allocated. -/
structure Accepted (connection : Connection) : Prop where
  header : 24 ≤ connection.readBuffer.length
  message : connection.messageInfo.messageLength ≤ connection.readBuffer.length
  allocated : connection.messageInfo.attachmentCount * 24 < 2 ^ 63

/-- The body is inline or can be mapped. -/
def BodyArrives (memory : SharedMemory) (connection : Connection) : Prop :=
  connection.messageInfo.isMessageBodyOutOfLine = true → ∃ info, connection.attachmentInfo.getLast? = some info ∧
    info.isNull = false ∧
    (memory (connection.fileDescriptorAt (connection.claimedDescriptors - 1)) info.size).isSome

/-- The header claims nothing that was not received: the length does not wrap around, a body out
of line has an entry, no more descriptors are claimed than there are, and as
many descriptors stay behind as the code takes away bytes. -/
structure Sound (memory : SharedMemory) (connection : Connection) : Prop where
  length : 24 + connection.messageInfo.attachmentCount * 24 + connection.messageInfo.inlineSize ≤
    connection.readBuffer.length
  entry : connection.messageInfo.isMessageBodyOutOfLine = true → 0 < connection.messageInfo.attachmentCount
  received : connection.claimedDescriptors ≤ connection.fileDescriptorsSize
  rest : BodyArrives memory connection → connection.claimedDescriptors = 0 ∨
    connection.fileDescriptorsSize = connection.claimedDescriptors ∨
      connection.claimedDescriptors * 4 ≤ connection.fileDescriptorsSize

/-- Only what was received and copied was read, and the sizes fit the buffers. -/
def SafeOutcome : Except Failure (Option (MessageDecoder × Connection)) → Prop
  | .error failure => failure = .aborted
  | .ok none => True
  | .ok (some (_, next)) => next.readBuffer.length ≤ 4096 ∧ next.fileDescriptorsSize ≤ 255

theorem length_arrayOf (count : Nat) (bytes : List UInt8) : (AttachmentInfo.arrayOf count bytes).length = count := by
  induction count generalizing bytes with
  | zero => rfl
  | succ count ih => rw [AttachmentInfo.arrayOf, List.length_cons, ih]

theorem copyAttachmentInfo_eq (allocated : connection.messageInfo.attachmentCount * 24 < 2 ^ 63)
    (header : 24 ≤ connection.readBuffer.length) :
    connection.copyAttachmentInfo connection.messageInfo.attachmentCount =
      if 24 + connection.messageInfo.attachmentCount * 24 ≤ connection.readBuffer.length then
        .ok connection.attachmentInfo
      else .error .readBuffer := by
  rw [copyAttachmentInfo, attachmentInfo]
  by_cases none_there : connection.messageInfo.attachmentCount = 0
  · rw [if_pos none_there, none_there, if_pos (by omega)]
    rfl
  · rw [if_neg none_there, if_neg (by omega), copyBytes]
    split <;> rfl

theorem moveFileDescriptors_spec (connection : Connection) {count : Nat} (le : count ≤ connection.fileDescriptorsSize)
    (small : connection.fileDescriptorsSize ≤ 255) :
    if count = 0 ∨ connection.fileDescriptorsSize = count ∨ count * 4 ≤ connection.fileDescriptorsSize then
      ∃ next, connection.moveFileDescriptors count = .ok next ∧ next.readBuffer = connection.readBuffer ∧
        next.fileDescriptorsSize ≤ connection.fileDescriptorsSize
    else connection.moveFileDescriptors count = .error .fileDescriptors := by
  rw [moveFileDescriptors]
  by_cases zero : count = 0
  · rw [if_pos (.inl zero), if_pos zero]
    exact ⟨connection, rfl, rfl, Nat.le_refl _⟩
  rw [if_neg zero]
  by_cases all : connection.fileDescriptorsSize = count
  · rw [if_pos (.inr (.inl all)), if_neg (by omega)]
    exact ⟨_, rfl, rfl, Nat.zero_le _⟩
  rw [if_pos (show connection.fileDescriptorsSize > count by omega)]
  have length_eq : count * 4 % 2 ^ 64 = count * 4 := Nat.mod_eq_of_lt (by omega)
  simp only [length_eq]
  by_cases enough : count * 4 ≤ connection.fileDescriptorsSize
  · have rest_eq :
      (connection.fileDescriptorsSize + 2 ^ 64 - count * 4) % 2 ^ 64 = connection.fileDescriptorsSize - count * 4 := by
        omega
    rw [if_pos (.inr (.inr enough)), rest_eq, if_pos (by omega)]
    exact ⟨_, rfl, rfl, Nat.sub_le ..⟩
  · rw [if_neg (by omega), if_neg (by omega)]

/-! ### Stages -/

theorem processMessage_eq (header : 24 ≤ connection.readBuffer.length) :
    connection.processMessage memory =
      if connection.readBuffer.length < connection.messageInfo.messageLength then .ok none
      else connection.processContents memory connection.messageInfo := by
  rw [processMessage, if_neg (by omega), copyBytes, if_pos (by omega)]
  rfl

section Contents

variable (header : 24 ≤ connection.readBuffer.length) (allocated : connection.messageInfo.attachmentCount * 24 < 2 ^ 63)

include header allocated

theorem processContents_of_short
    (short : ¬24 + connection.messageInfo.attachmentCount * 24 ≤ connection.readBuffer.length) :
    connection.processContents memory connection.messageInfo = .error .readBuffer := by
  rw [processContents, copyAttachmentInfo_eq allocated header, if_neg short]
  rfl

variable (entries : 24 + connection.messageInfo.attachmentCount * 24 ≤ connection.readBuffer.length)
  (fits : connection.readBuffer.length ≤ 4096)

include entries fits

theorem processContents_inline (inline : connection.messageInfo.isMessageBodyOutOfLine = false) :
    connection.processContents memory connection.messageInfo =
      if connection.claimedDescriptors ≤ connection.fileDescriptorsSize then do
        let body ← connection.copyBytes (24 + connection.messageInfo.attachmentCount * 24)
          connection.messageInfo.bodySize
        connection.finishMessage connection.messageInfo.messageLength connection.claimedDescriptors
          ⟨body, (connection.attachmentsFrom connection.attachmentInfo 0).reverse, none⟩
      else .error .fileDescriptors := by
  have whole : connection.attachmentInfo.take connection.messageInfo.attachmentCount = connection.attachmentInfo :=
    List.take_of_length_le (Nat.le_of_eq (length_arrayOf ..))
  have length_eq : connection.attachmentInfo.length = connection.messageInfo.attachmentCount := length_arrayOf ..
  have read := readAttachments_eq connection.attachmentInfo 0 (Nat.zero_le connection.fileDescriptorsSize) (by omega)
  rw [Nat.zero_add] at read
  rw [processContents, copyAttachmentInfo_eq allocated header, if_pos entries]
  show (do
    let attachments ← connection.readAttachments (connection.attachmentInfo.take
      (if connection.messageInfo.isMessageBodyOutOfLine then _ else connection.messageInfo.attachmentCount)) 0
    _) = _
  simp only [inline, Bool.false_eq_true, if_false, whole, read, claimedDescriptors]
  split
  · rename_i received
    exact (if_pos received).symm
  · rename_i missing
    exact (if_neg missing).symm

theorem processContents_outOfLine (outOfLine : connection.messageInfo.isMessageBodyOutOfLine = true) :
    connection.processContents memory connection.messageInfo =
      if connection.attachmentInfo.dropLast.countP AttachmentInfo.hasFileDescriptor ≤
          connection.fileDescriptorsSize then do
        match ← connection.mapBody memory connection.messageInfo.bodySize connection.claimedDescriptors
          connection.attachmentInfo.getLast? with
        | none => return none
        | some (body, fd) =>
          connection.finishMessage connection.messageInfo.messageLength connection.claimedDescriptors
            ⟨body, (connection.attachmentsFrom connection.attachmentInfo.dropLast 0).reverse, some fd⟩
      else .error .fileDescriptors := by
  have length_eq : connection.attachmentInfo.length = connection.messageInfo.attachmentCount := length_arrayOf ..
  have front :
      connection.attachmentInfo.take (connection.messageInfo.attachmentCount - 1) =
        connection.attachmentInfo.dropLast := by
    rw [List.dropLast_eq_take, length_eq]
  have behind :
      connection.attachmentInfo[connection.messageInfo.attachmentCount - 1]? = connection.attachmentInfo.getLast? := by
    rw [List.getLast?_eq_getElem?, length_eq]
  have read := readAttachments_eq connection.attachmentInfo.dropLast 0 (Nat.zero_le connection.fileDescriptorsSize) (by
    rw [List.length_dropLast]
    omega)
  rw [Nat.zero_add] at read
  rw [processContents, copyAttachmentInfo_eq allocated header, if_pos entries]
  show (do
    let attachments ← connection.readAttachments (connection.attachmentInfo.take
      (if connection.messageInfo.isMessageBodyOutOfLine then connection.messageInfo.attachmentCount - 1 else _)) 0
    _) = _
  simp only [outOfLine, if_true, front, behind, read, claimedDescriptors]
  split <;> rfl

end Contents

theorem mapBody_eq {bodySize count : Nat} {info : AttachmentInfo} (present : info.isNull = false) (positive : 0 < count)
    (small : count < 2 ^ 64) (received : count ≤ connection.fileDescriptorsSize) :
    connection.mapBody memory bodySize count (some info) =
      match memory (connection.fileDescriptorAt (count - 1)) info.size with
      | none => .ok none
      | some data => .ok (some ((List.range bodySize).map data, connection.fileDescriptorAt (count - 1))) := by
  rw [mapBody, present, if_neg Bool.false_ne_true, readFileDescriptor,
    show (count + 2 ^ 64 - 1) % 2 ^ 64 = count - 1 by omega, if_pos (by omega)]
  rfl

/-- With no descriptor at all the index wraps around, and the process ends. -/
theorem mapBody_of_missing {bodySize count : Nat} {info : AttachmentInfo} (present : info.isNull = false)
    (small : count ≤ 255) (few : connection.fileDescriptorsSize ≤ 255)
    (missing : ¬(0 < count ∧ count ≤ connection.fileDescriptorsSize)) :
    connection.mapBody memory bodySize count (some info) =
      .error (if count = 0 then .aborted else .fileDescriptors) := by
  rw [mapBody, present, if_neg Bool.false_ne_true, readFileDescriptor, if_neg (by omega)]
  split
  · next crashes =>
    rw [if_pos (by omega)]
    rfl
  · rw [if_neg (by omega)]
    rfl

/-! ### Outcomes -/

section Stages

variable (fits : connection.readBuffer.length ≤ 4096) (few : connection.fileDescriptorsSize ≤ 255)

include fits few

theorem safe_finishMessage {messageLength count : Nat} {decoder : MessageDecoder}
    (le : count ≤ connection.fileDescriptorsSize) :
    SafeOutcome (connection.finishMessage messageLength count decoder) ↔
      count = 0 ∨ connection.fileDescriptorsSize = count ∨ count * 4 ≤ connection.fileDescriptorsSize := by
  obtain ⟨shorter, shorterDef⟩ :
    ∃ shorter, shorter = { connection with readBuffer := connection.readBuffer.drop messageLength } := ⟨_, rfl⟩
  have size_eq : shorter.fileDescriptorsSize = connection.fileDescriptorsSize := by rw [shorterDef]
  have moved := moveFileDescriptors_spec shorter (show count ≤ _ by omega) (by omega)
  have finished :
      connection.finishMessage messageLength count decoder =
        (do return some (decoder, ← shorter.moveFileDescriptors count)) := by
    rw [shorterDef]
    rfl
  rw [finished]
  split at moved
  · rename_i fine
    obtain ⟨next, run, buffer_eq, sizeLe⟩ := moved
    rw [run]
    refine iff_of_true
      (show next.readBuffer.length ≤ 4096 ∧ next.fileDescriptorsSize ≤ 255 from ⟨?_, by omega⟩) (size_eq ▸ fine)
    rw [buffer_eq, shorterDef, List.length_drop]
    omega
  · rename_i bad
    rw [moved]
    exact iff_of_false nofun (size_eq ▸ bad)

theorem safe_inline (header : 24 ≤ connection.readBuffer.length)
    (allocated : connection.messageInfo.attachmentCount * 24 < 2 ^ 63)
    (inline : connection.messageInfo.isMessageBodyOutOfLine = false) :
    SafeOutcome (connection.processContents memory connection.messageInfo) ↔
      24 + connection.messageInfo.attachmentCount * 24 + connection.messageInfo.bodySize ≤
        connection.readBuffer.length ∧
      connection.claimedDescriptors ≤ connection.fileDescriptorsSize ∧ (connection.claimedDescriptors = 0 ∨
        connection.fileDescriptorsSize = connection.claimedDescriptors ∨
        connection.claimedDescriptors * 4 ≤ connection.fileDescriptorsSize) := by
  by_cases entries : 24 + connection.messageInfo.attachmentCount * 24 ≤ connection.readBuffer.length
  swap
  · rw [processContents_of_short header allocated entries]
    exact iff_of_false nofun fun ⟨long, _⟩ => entries (by omega)
  rw [processContents_inline header allocated entries fits inline]
  by_cases received : connection.claimedDescriptors ≤ connection.fileDescriptorsSize
  swap
  · rw [if_neg received]
    exact iff_of_false nofun fun ⟨_, le, _⟩ => received le
  rw [if_pos received, copyBytes]
  by_cases long :
    24 + connection.messageInfo.attachmentCount * 24 + connection.messageInfo.bodySize ≤ connection.readBuffer.length
  swap
  · rw [if_neg long]
    exact iff_of_false nofun fun ⟨there, _⟩ => long there
  rw [if_pos long]
  exact (safe_finishMessage fits few received).trans ⟨fun rest => ⟨long, received, rest⟩, fun ⟨_, _, rest⟩ => rest⟩

theorem safe_mapBody {attachments : List Attachment} {messageLength bodySize count : Nat} {info : AttachmentInfo}
    (small : count ≤ 255) :
    SafeOutcome (do
      match ← connection.mapBody memory bodySize count (some info) with
      | none => return none
      | some (body, fd) => connection.finishMessage messageLength count ⟨body, attachments.reverse, some fd⟩) ↔
    (info.isNull = false → count ≤ connection.fileDescriptorsSize ∧
      ((memory (connection.fileDescriptorAt (count - 1)) info.size).isSome →
        count = 0 ∨ connection.fileDescriptorsSize = count ∨ count * 4 ≤ connection.fileDescriptorsSize)) := by
  cases null : info.isNull with
  | true =>
    rw [mapBody, null]
    exact iff_of_true trivial nofun
  | false =>
    by_cases inside : 0 < count ∧ count ≤ connection.fileDescriptorsSize
    swap
    · rw [mapBody_of_missing null small few inside]
      split
      · next none => exact iff_of_true rfl fun _ => ⟨by omega, fun _ => .inl none⟩
      · next some => exact iff_of_false nofun fun bound => inside ⟨by omega, (bound rfl).1⟩
    rw [mapBody_eq null inside.1 (by omega) inside.2]
    cases memory (connection.fileDescriptorAt (count - 1)) info.size with
    | none => exact iff_of_true trivial fun _ => ⟨inside.2, nofun⟩
    | some data =>
      exact (safe_finishMessage fits few inside.2).trans
        ⟨fun rest _ => ⟨inside.2, fun _ => rest⟩, fun bound => (bound rfl).2 rfl⟩

theorem safe_outOfLine (header : 24 ≤ connection.readBuffer.length)
    (allocated : connection.messageInfo.attachmentCount * 24 < 2 ^ 63)
    (outOfLine : connection.messageInfo.isMessageBodyOutOfLine = true) :
    SafeOutcome (connection.processContents memory connection.messageInfo) ↔
      24 + connection.messageInfo.attachmentCount * 24 ≤ connection.readBuffer.length ∧
      connection.claimedDescriptors ≤ connection.fileDescriptorsSize ∧
      ∃ info, connection.attachmentInfo.getLast? = some info ∧ (info.isNull = false →
        (memory (connection.fileDescriptorAt (connection.claimedDescriptors - 1)) info.size).isSome →
          connection.claimedDescriptors = 0 ∨ connection.fileDescriptorsSize = connection.claimedDescriptors ∨
          connection.claimedDescriptors * 4 ≤ connection.fileDescriptorsSize) := by
  by_cases entries : 24 + connection.messageInfo.attachmentCount * 24 ≤ connection.readBuffer.length
  swap
  · rw [processContents_of_short header allocated entries]
    exact iff_of_false nofun fun ⟨long, _⟩ => entries long
  rw [processContents_outOfLine header allocated entries fits outOfLine]
  cases there : connection.attachmentInfo.getLast? with
  | none =>
    rw [List.getLast?_eq_none_iff] at there
    rw [there, List.dropLast_nil, List.countP_nil, if_pos (Nat.zero_le _)]
    exact iff_of_false nofun fun ⟨_, _, _, missing, _⟩ => nomatch missing
  | some info =>
    have claimed_eq :
        connection.claimedDescriptors = connection.attachmentInfo.dropLast.countP AttachmentInfo.hasFileDescriptor +
        if info.hasFileDescriptor then 1 else 0 := by
      obtain ⟨front, split_eq⟩ := List.getLast?_eq_some_iff.mp there
      rw [claimedDescriptors, split_eq, List.dropLast_concat, List.countP_append, List.countP_singleton]
    have null_claimed : info.isNull = true → info.hasFileDescriptor = false := fun null => by
      rw [AttachmentInfo.hasFileDescriptor, null]
      split <;> rfl
    by_cases received :
      connection.attachmentInfo.dropLast.countP AttachmentInfo.hasFileDescriptor ≤ connection.fileDescriptorsSize
    swap
    · rw [if_neg received]
      exact iff_of_false nofun fun ⟨_, le, _⟩ => received (by omega)
    rw [if_pos received]
    have small : connection.claimedDescriptors ≤ 255 := by
      have length_eq : connection.attachmentInfo.length = connection.messageInfo.attachmentCount := length_arrayOf ..
      have := @List.countP_le_length _ AttachmentInfo.hasFileDescriptor connection.attachmentInfo
      rw [claimedDescriptors]
      omega
    refine (safe_mapBody fits few small).trans
      ⟨fun bound => ⟨entries, ?_, info, rfl, fun present => ?_⟩, fun ⟨_, le, _, same, bound⟩ present => ?_⟩
    · cases null : info.isNull with
      | true => rwa [claimed_eq, null_claimed null]
      | false => exact (bound null).1
    · exact (bound present).2
    · cases same
      exact ⟨le, bound present⟩

end Stages

/-! ### Messages -/

/-- For every content of both buffers, the connection reads only what was received and copied, and
leaves sizes that fit, if and only if an accepted header is sound. -/
theorem processMessage_safe_iff (memory : SharedMemory) (connection : Connection)
    (fits : connection.readBuffer.length ≤ 4096) (few : connection.fileDescriptorsSize ≤ 255) :
    SafeOutcome (connection.processMessage memory) ↔ (Accepted connection → Sound memory connection) := by
  by_cases header : 24 ≤ connection.readBuffer.length
  swap
  · rw [processMessage, if_pos (by omega)]
    exact iff_of_true trivial fun accepted => absurd accepted.header header
  rw [processMessage_eq header]
  by_cases message : connection.messageInfo.messageLength ≤ connection.readBuffer.length
  swap
  · rw [if_pos (by omega)]
    exact iff_of_true trivial fun accepted => absurd accepted.message message
  rw [if_neg (by omega)]
  by_cases allocated : connection.messageInfo.attachmentCount * 24 < 2 ^ 63
  swap
  · refine iff_of_true ?_ fun accepted => absurd accepted.allocated allocated
    rw [processContents, copyAttachmentInfo, if_neg (by omega), if_pos (by omega)]
    rfl
  have accepted : Accepted connection := ⟨header, message, allocated⟩
  cases outOfLine : connection.messageInfo.isMessageBodyOutOfLine with
  | false =>
    have inlineSize_eq : connection.messageInfo.inlineSize = connection.messageInfo.bodySize := by
      rw [MessageInfo.inlineSize, outOfLine]
      rfl
    have arrives : BodyArrives memory connection :=
      fun there => absurd there (by rw [outOfLine]; exact Bool.false_ne_true)
    refine (safe_inline fits few header allocated outOfLine).trans ⟨fun ⟨long, received, rest⟩ _ => ?_, fun sound => ?_⟩
    · refine ⟨by rwa [inlineSize_eq], ?_, received, fun _ => rest⟩
      rw [outOfLine]
      nofun
    · obtain ⟨long, _, received, rest⟩ := sound accepted
      exact ⟨by rwa [inlineSize_eq] at long, received, rest arrives⟩
  | true =>
    have inlineSize_eq : connection.messageInfo.inlineSize = 0 := by
      rw [MessageInfo.inlineSize, outOfLine]
      rfl
    refine (safe_outOfLine fits few header allocated outOfLine).trans
      ⟨fun ⟨long, received, info, last, bound⟩ _ => ?_, fun sound => ?_⟩
    · have nonempty : connection.attachmentInfo ≠ [] := fun none_there => by rw [none_there] at last; cases last
      refine ⟨by rwa [inlineSize_eq], fun _ => ?_, received, fun arrives => ?_⟩
      · rw [← length_arrayOf connection.messageInfo.attachmentCount]
        exact List.length_pos_iff.mpr nonempty
      · obtain ⟨other, same, present, mapped⟩ := arrives outOfLine
        rw [last] at same
        cases same
        exact bound present mapped
    · obtain ⟨long, entry, received, rest⟩ := sound accepted
      have positive := entry outOfLine
      rw [← length_arrayOf connection.messageInfo.attachmentCount] at positive
      obtain ⟨info, there⟩ : ∃ info, connection.attachmentInfo.getLast? = some info :=
        ⟨_, List.getLast?_eq_some_getLast (List.length_pos_iff.mp positive)⟩
      refine ⟨by rwa [inlineSize_eq] at long, received, info, there, fun present mapped => ?_⟩
      exact rest fun _ => ⟨info, there, present, mapped⟩

/-- A message of one byte with one socket. -/
theorem processMessage_safe_socket : SafeOutcome (processMessage (fun _ _ => none)
    ⟨(MessageInfo.toBytes ⟨1, 1, false⟩) ++ (AttachmentInfo.toBytes ⟨.socketType, 0, false⟩ ++ [42]), [7, 0, 0, 0],
      1⟩) := by
  refine (processMessage_safe_iff _ _ (by decide) (by decide)).mpr fun _ =>
    ⟨by decide +kernel, by decide +kernel, by decide +kernel, fun _ => ?_⟩
  exact .inr (.inl (by decide +kernel))

/-- Headers that make the connection read outside: a length that wraps around, a socket that did
not come, a body out of line without an entry for it, and one of two sockets that came together. -/
theorem processMessage_unsound :
    processMessage (fun _ _ => none) ⟨MessageInfo.toBytes ⟨2 ^ 64 - 24, 0, false⟩, [], 0⟩ = .error .readBuffer ∧
    processMessage (fun _ _ => none) ⟨MessageInfo.toBytes ⟨0, 1, false⟩ ++
      AttachmentInfo.toBytes ⟨.socketType, 0, false⟩, [], 0⟩ =
      .error .fileDescriptors ∧
    processMessage (fun _ _ => none) ⟨MessageInfo.toBytes ⟨1, 0, true⟩, [], 0⟩ = .error .attachmentInfo ∧
    processMessage (fun _ _ => none) ⟨MessageInfo.toBytes ⟨0, 1, false⟩ ++
      AttachmentInfo.toBytes ⟨.socketType, 0, false⟩, [7, 0, 0, 0, 8, 0, 0, 0], 2⟩ = .error .fileDescriptors :=
  ⟨rfl, rfl, rfl, rfl⟩

end WebNode.Ipc.Connection
