import Mathlib.Tactic.ByContra

/-!
# The client of a `WebSocketChannel`

The channel may lose its client in the middle of a call: a socket that is disconnected closes the channel at
once, and closing the channel aborts a load that fails the channel again. A step has no result if `fail`
dereferences a client that is gone.
-/

namespace WebNode.WebSockets

inductive HandshakeMode where
  | incomplete
  | connected
  | failed
  deriving DecidableEq, Repr

inductive OutgoingFrameQueueStatus where
  | queueOpen
  | queueClosing
  | queueClosed
  deriving DecidableEq, Repr

inductive BlobLoaderStatus where
  | notStarted
  | started
  | finished
  | failed
  deriving DecidableEq, Repr

/-- What a socket does with data: `send` answers true or false, and it may find on its way that the connection is
broken, which it reports with `didFailSocketStream`. -/
inductive SocketSend where
  | accepted
  | refused
  | brokenAccepted
  | brokenRefused
  deriving DecidableEq, Repr

inductive QueuedFrameType where
  | string
  | vector
  | blob
  deriving DecidableEq, Repr

/-- A frame of the outgoing queue, with what becomes of it when it is sent. Without a fate, it cannot be deflated. -/
structure QueuedFrame where
  frameType : QueuedFrameType
  fate : Option SocketSend
  deriving DecidableEq, Repr

/-- The variables that decide who is called. The client and the document are cleared together. -/
structure WebSocketChannel where
  client : Bool := true
  handle : Bool := false
  mode : HandshakeMode := .incomplete
  closing : Bool := false
  receivedClosingHandshake : Bool := false
  closed : Bool := false
  shouldDiscardReceivedData : Bool := false
  outgoingFrameQueue : List QueuedFrame := []
  outgoingFrameQueueStatus : OutgoingFrameQueueStatus := .queueOpen
  blobLoaderStatus : BlobLoaderStatus := .notStarted
  /-- Whether the socket has data left to write. -/
  buffered : Bool := false
  deriving DecidableEq, Repr

/-- What the front of the receive buffer is as a frame. Some control frames are answered with a frame that has a
fate. -/
inductive ReceivedFrame where
  | incomplete
  | invalid
  | data
  | ping (fate : Option SocketSend)
  | close (fate : Option SocketSend)
  deriving DecidableEq, Repr

inductive ChannelEvent where
  | connect
  | didOpenSocketStream (sent : SocketSend)
  | send (frame : QueuedFrame)
  | close (fate : Option SocketSend)
  | disconnect
  /-- Data whose front is the given header or frame. -/
  | didReceiveSocketStreamData (header : HandshakeMode) (frame : ReceivedFrame)
  | didCloseSocketStream
  | didFailSocketStream
  | didUpdateBufferedAmount (buffered : Bool)
  | didFinishLoading
  | didFail
  deriving DecidableEq, Repr

namespace WebSocketChannel

def discard (channel : WebSocketChannel) : WebSocketChannel := { channel with shouldDiscardReceivedData := true }

/-- `fail` of a channel that is closed. -/
def failClosed (channel : WebSocketChannel) : Option WebSocketChannel :=
  if channel.client then some channel.discard else none

/-- Called when the channel is closed already. -/
def abortOutgoingFrameQueue (channel : WebSocketChannel) : Option WebSocketChannel :=
  let channel := { channel with outgoingFrameQueue := [], outgoingFrameQueueStatus := .queueClosed }
  if channel.blobLoaderStatus = .started then failClosed { channel with blobLoaderStatus := .failed } else some channel

/-- The end of `didCloseSocketStream`. -/
def leave (channel : WebSocketChannel) : WebSocketChannel :=
  if channel.handle then { channel with client := false, handle := false } else channel

def didCloseSocketStream (channel : WebSocketChannel) : Option WebSocketChannel :=
  let channel := { channel with closed := true }
  (if channel.outgoingFrameQueueStatus ≠ .queueClosed then channel.abortOutgoingFrameQueue else some channel).map leave

def fail (channel : WebSocketChannel) : Option WebSocketChannel :=
  if channel.client then
    if channel.handle ∧ ¬ channel.closed then channel.discard.didCloseSocketStream else some channel.discard
  else none

def didFailSocketStream (channel : WebSocketChannel) : Option WebSocketChannel := channel.discard.didCloseSocketStream

def disconnect (channel : WebSocketChannel) : Option WebSocketChannel :=
  let channel := { channel with client := false }
  if channel.handle then channel.didCloseSocketStream else some channel

/-- `send` of the socket. -/
def socketSend (channel : WebSocketChannel) : SocketSend → Option (Bool × WebSocketChannel)
  | .accepted => some (true, channel)
  | .refused => some (false, channel)
  | .brokenAccepted => channel.didFailSocketStream.map (true, ·)
  | .brokenRefused => channel.didFailSocketStream.map (false, ·)

def sendFrame (channel : WebSocketChannel) : Option SocketSend → Option (Bool × WebSocketChannel)
  | none => channel.fail.map (false, ·)
  | some sent => channel.socketSend sent

/-- The channel fails if data was not sent. -/
def failUnless (sent : Option (Bool × WebSocketChannel)) : Option WebSocketChannel :=
  sent.bind fun (sent, channel) => if sent then some channel else channel.fail

/-- The loop over the queue, and whether it came to its end. A round takes one frame, so there are at most as many
rounds as frames. -/
def processFrames : Nat → WebSocketChannel → Option (Bool × WebSocketChannel)
  | 0, channel => some (true, channel)
  | rounds + 1, channel =>
    match channel.outgoingFrameQueue with
    | [] => some (true, channel)
    | frame :: rest =>
      if frame.frameType = .blob ∧ channel.blobLoaderStatus ≠ .finished then
        let status := if channel.blobLoaderStatus = .notStarted then .started else channel.blobLoaderStatus
        some (false, { channel with blobLoaderStatus := status })
      else
        let status := if frame.frameType = .blob then .notStarted else channel.blobLoaderStatus
        let channel := { channel with outgoingFrameQueue := rest, blobLoaderStatus := status }
        (failUnless (channel.sendFrame frame.fate)).bind (processFrames rounds)

/-- `close` of the socket, which waits until all data is written. -/
def closeHandle (channel : WebSocketChannel) : Option WebSocketChannel :=
  if channel.buffered then some channel else channel.didCloseSocketStream

def processOutgoingFrameQueue (channel : WebSocketChannel) : Option WebSocketChannel :=
  if channel.outgoingFrameQueueStatus = .queueClosed then some channel
  else (processFrames channel.outgoingFrameQueue.length channel).bind fun (ended, channel) =>
    if ended ∧ channel.outgoingFrameQueueStatus = .queueClosing then
      { channel with outgoingFrameQueueStatus := .queueClosed }.closeHandle
    else some channel

def enqueue (channel : WebSocketChannel) (frame : QueuedFrame) : WebSocketChannel :=
  { channel with outgoingFrameQueue := channel.outgoingFrameQueue ++ [frame] }

def startClosingHandshake (channel : WebSocketChannel) (fate : Option SocketSend) : Option WebSocketChannel :=
  if channel.closing then some channel
  else (channel.enqueue ⟨.vector, fate⟩).processOutgoingFrameQueue.map fun channel =>
    if channel.closed then channel else { channel with closing := true }

def processFrame (channel : WebSocketChannel) : ReceivedFrame → Option WebSocketChannel
  | .incomplete => some channel
  | .invalid => channel.fail
  | .data => some channel
  | .ping fate => (channel.enqueue ⟨.vector, fate⟩).processOutgoingFrameQueue
  | .close fate =>
    ({ channel with receivedClosingHandshake := true }.startClosingHandshake fate).bind fun channel =>
      if channel.closing then { channel with outgoingFrameQueueStatus := .queueClosing }.processOutgoingFrameQueue
      else some channel

def processBuffer (channel : WebSocketChannel) (header : HandshakeMode) (frame : ReceivedFrame) :
    Option WebSocketChannel :=
  if channel.shouldDiscardReceivedData ∨ channel.receivedClosingHandshake then some channel
  else match channel.mode with
    | .incomplete =>
      match header with
      | .incomplete => some channel
      | .connected => some { channel with mode := .connected }
      | .failed => { channel with mode := .failed }.fail
    | .connected => channel.processFrame frame
    | .failed => some channel

/-- One event. Those that cannot occur in a state leave it: a socket is there from `connect` on until it is closed,
clients send after `connect`, and a loader reports once. -/
def step (channel : WebSocketChannel) : ChannelEvent → Option WebSocketChannel
  | .connect => some (if channel.client ∧ ¬ channel.closed then { channel with handle := true } else channel)
  | .didOpenSocketStream sent =>
    if channel.handle ∧ channel.client then failUnless (channel.socketSend sent) else some channel
  | .send frame =>
    if channel.handle ∨ channel.closed then (channel.enqueue frame).processOutgoingFrameQueue else some channel
  | .close fate => if channel.handle then channel.startClosingHandshake fate else some channel
  | .disconnect => channel.disconnect
  | .didReceiveSocketStreamData header frame =>
    if channel.handle ∧ channel.client then channel.processBuffer header frame else some channel
  | .didCloseSocketStream => if channel.handle then channel.didCloseSocketStream else some channel
  | .didFailSocketStream => if channel.handle then channel.didFailSocketStream else some channel
  | .didUpdateBufferedAmount buffered => some { channel with buffered := buffered }
  | .didFinishLoading =>
    if channel.blobLoaderStatus = .started then { channel with blobLoaderStatus := .finished }.processOutgoingFrameQueue
    else some channel
  | .didFail =>
    if channel.blobLoaderStatus = .started then { channel with blobLoaderStatus := .failed }.fail else some channel

/-! ### The client is there -/

/-- A frame that is deflated and does not find the connection broken only to be refused. -/
def Harmless (fate : Option SocketSend) : Prop :=
  fate = some .accepted ∨ fate = some .refused ∨ fate = some .brokenAccepted

theorem Harmless.exists_sent {fate : Option SocketSend} (harmless : Harmless fate) :
    ∃ sent, fate = some sent ∧ sent ≠ .brokenRefused := by
  rcases harmless with rfl | rfl | rfl <;> exact ⟨_, rfl, by decide⟩

/-- The frames that wait can be sent, and a load belongs to the first of them. -/
structure Queued (channel : WebSocketChannel) : Prop where
  harmless : ∀ frame ∈ channel.outgoingFrameQueue, Harmless frame.fate
  loading : channel.blobLoaderStatus = .started → channel.outgoingFrameQueueStatus ≠ .queueClosed ∧
    ∃ frame rest, channel.outgoingFrameQueue = frame :: rest ∧ frame.frameType = .blob

/-- A channel without a client has no socket and loads nothing, and a closed one sends nothing. -/
structure Safe (channel : WebSocketChannel) : Prop extends Queued channel where
  alive : channel.handle = true → channel.client = true ∧ channel.closed = false
  gone : channel.client = false → channel.blobLoaderStatus ≠ .started
  ended : channel.closed = true → channel.outgoingFrameQueueStatus = .queueClosed

variable {channel later : WebSocketChannel}

/-- What closing the channel leads to. -/
structure Closes (channel later : WebSocketChannel) : Prop where
  safe : Safe later
  closed : later.closed = true
  closing : later.closing = channel.closing
  emptied : channel.outgoingFrameQueueStatus ≠ .queueClosed → later.outgoingFrameQueue = []

/-- A load that is aborted fails the channel, which needs the client. -/
theorem Queued.didCloseSocketStream (queued : Queued channel)
    (loads : channel.blobLoaderStatus = .started → channel.client = true) :
    ∃ later, channel.didCloseSocketStream = some later ∧ Closes channel later := by
  have aborts (waits : channel.outgoingFrameQueueStatus ≠ .queueClosed) : ∃ status discards, status ≠ .started ∧
      { channel with closed := true }.abortOutgoingFrameQueue = some { channel with
        closed := true, outgoingFrameQueue := [], outgoingFrameQueueStatus := .queueClosed, blobLoaderStatus := status,
        shouldDiscardReceivedData := discards } := by
    by_cases started : channel.blobLoaderStatus = .started
    · exact ⟨.failed, true, nofun, by simp [abortOutgoingFrameQueue, failClosed, discard, started, loads started]⟩
    · exact ⟨_, channel.shouldDiscardReceivedData, started, if_neg started⟩
  have leaves {aborted : WebSocketChannel} (kept : Queued aborted) (closed : aborted.closed = true)
      (closing : aborted.closing = channel.closing)
      (done : aborted.outgoingFrameQueueStatus = .queueClosed)
      (empty : channel.outgoingFrameQueueStatus ≠ .queueClosed → aborted.outgoingFrameQueue = []) :
        Closes channel aborted.leave := by
    have idle : aborted.blobLoaderStatus ≠ .started := fun started => (kept.loading started).1 done
    rw [leave]
    split
    · exact ⟨⟨⟨kept.harmless, kept.loading⟩, nofun, fun _ => idle, fun _ => done⟩, closed, closing, empty⟩
    · next none =>
      exact ⟨⟨kept, fun present => absurd present none, fun _ => idle, fun _ => done⟩, closed, closing, empty⟩
  rw [WebSocketChannel.didCloseSocketStream]
  by_cases waits : channel.outgoingFrameQueueStatus ≠ .queueClosed
  · obtain ⟨status, discards, idle, returns⟩ := aborts waits
    rw [if_pos waits, returns]
    exact ⟨_, rfl, leaves ⟨nofun, fun started => absurd started idle⟩ rfl rfl rfl fun _ => rfl⟩
  · rw [if_neg waits]
    exact ⟨_, rfl, leaves ⟨queued.harmless, queued.loading⟩ rfl rfl (not_not.mp waits) fun other => absurd other waits⟩

/-- The channel is safe, and it is closed or still has what it had. -/
structure Kept (channel later : WebSocketChannel) : Prop where
  safe : Safe later
  closing : later.closing = channel.closing
  same : later.closed = true ∨ later.handle = channel.handle ∧ later.client = channel.client ∧
    later.closed = channel.closed

theorem Kept.trans {last : WebSocketChannel} (first : Kept channel later) (second : Kept later last) :
    Kept channel last := by
  refine ⟨second.safe, second.closing.trans first.closing,
    second.same.elim .inl fun same => first.same.imp (fun closed => ?_) fun before => ?_⟩
  · rw [same.2.2, closed]
  · exact ⟨same.1.trans before.1, same.2.1.trans before.2.1, same.2.2.trans before.2.2⟩

theorem Safe.kept (safe : Safe channel) : Kept channel channel := ⟨safe, rfl, .inr ⟨rfl, rfl, rfl⟩⟩

theorem Closes.kept (closes : Closes channel later) : Kept channel later :=
  ⟨closes.safe, closes.closing, .inl closes.closed⟩

/-- The loop over the queue can go on. -/
def Ready (channel : WebSocketChannel) : Prop :=
  channel.outgoingFrameQueue = [] ∨ channel.client = true ∧ channel.outgoingFrameQueueStatus ≠ .queueClosed

/-- What sending a frame keeps. -/
structure Sends (channel later : WebSocketChannel) : Prop extends Kept channel later where
  ready : Ready later
  fewer : later.outgoingFrameQueue.length ≤ channel.outgoingFrameQueue.length

theorem Safe.discard (safe : Safe channel) : Safe channel.discard :=
  ⟨⟨safe.harmless, safe.loading⟩, safe.alive, safe.gone, safe.ended⟩

theorem Safe.didFailSocketStream (safe : Safe channel) (client : channel.client = true) :
    ∃ later, channel.didFailSocketStream = some later ∧ Closes channel later := by
  obtain ⟨later, returns, closes⟩ := safe.discard.toQueued.didCloseSocketStream fun _ => client
  exact ⟨later, returns, closes.safe, closes.closed, closes.closing, closes.emptied⟩

theorem Safe.fail (safe : Safe channel) (client : channel.client = true) :
    ∃ later, channel.fail = some later ∧ Kept channel later ∧
      (channel.outgoingFrameQueueStatus ≠ .queueClosed → Sends channel later) := by
  rw [WebSocketChannel.fail, if_pos client]
  split
  · obtain ⟨later, returns, closes⟩ := safe.didFailSocketStream client
    exact ⟨later, returns, closes.kept,
      fun waits => ⟨closes.kept, .inl (closes.emptied waits), by simp [closes.emptied waits]⟩⟩
  · have kept : Kept channel channel.discard := ⟨safe.discard, rfl, .inr ⟨rfl, rfl, rfl⟩⟩
    exact ⟨_, rfl, kept, fun waits => ⟨kept, .inr ⟨client, waits⟩, Nat.le_refl _⟩⟩

/-- Data that the socket does not take fails the channel, which still has its client. -/
theorem Safe.socketSend (safe : Safe channel) (client : channel.client = true) {sent : SocketSend}
    (harmless : sent ≠ .brokenRefused) :
    ∃ later, failUnless (channel.socketSend sent) = some later ∧ Kept channel later ∧
      (channel.outgoingFrameQueueStatus ≠ .queueClosed → Sends channel later) := by
  cases sent with
  | accepted => exact ⟨channel, rfl, safe.kept, fun waits => ⟨safe.kept, .inr ⟨client, waits⟩, Nat.le_refl _⟩⟩
  | refused => exact safe.fail client
  | brokenAccepted =>
    obtain ⟨later, returns, closes⟩ := safe.didFailSocketStream client
    refine ⟨later, by rw [WebSocketChannel.socketSend, returns]; rfl, closes.kept, fun waits => ?_⟩
    exact ⟨closes.kept, .inl (closes.emptied waits), by simp [closes.emptied waits]⟩
  | brokenRefused => exact absurd rfl harmless

/-- The loop over the queue comes to its end with an empty queue, or waits for a load. -/
theorem Safe.processFrames {rounds : Nat} (safe : Safe channel) (enough : channel.outgoingFrameQueue.length ≤ rounds)
    (ready : Ready channel) :
    ∃ ended later, processFrames rounds channel = some (ended, later) ∧ Kept channel later ∧
      (ended = true → later.outgoingFrameQueue = []) := by
  induction rounds generalizing channel with
  | zero => exact ⟨true, channel, rfl, safe.kept, fun _ => List.length_eq_zero_iff.mp (Nat.le_zero.mp enough)⟩
  | succ rounds ih =>
    rw [WebSocketChannel.processFrames]
    split
    · next empty => exact ⟨true, channel, rfl, safe.kept, fun _ => empty⟩
    · next frame rest queue =>
      obtain ⟨client, waits⟩ := ready.resolve_left (by simp [queue])
      have present {p : Prop} (gone : channel.client = false) : p := Bool.noConfusion (client.symm.trans gone)
      split
      · next blob =>
        exact ⟨false, _, rfl,
          ⟨⟨⟨safe.harmless, fun _ => ⟨waits, frame, rest, queue, blob.1⟩⟩, safe.alive, present, safe.ended⟩, rfl,
            .inr ⟨rfl, rfl, rfl⟩⟩, nofun⟩
      · next sendable =>
        have harmless := safe.harmless
        rw [queue] at harmless enough
        have taken : Safe { channel with
            outgoingFrameQueue := rest
            blobLoaderStatus := if frame.frameType = .blob then .notStarted else channel.blobLoaderStatus } := by
          refine ⟨⟨fun other member => harmless other (List.mem_cons_of_mem _ member), fun started => ?_⟩, safe.alive,
            present, safe.ended⟩
          dsimp only at started
          split at started
          · cases started
          · next other =>
            obtain ⟨-, first, _, same, blob⟩ := safe.loading started
            rw [queue] at same
            exact absurd ((List.cons.inj same).1 ▸ blob) other
        obtain ⟨sent, fate, fine⟩ := (harmless frame List.mem_cons_self).exists_sent
        obtain ⟨next, returns, -, sends⟩ := taken.socketSend client fine
        have kept := sends waits
        obtain ⟨ended, later, ran, keptLater, empty⟩ :=
          ih kept.safe (Nat.le_trans kept.fewer (Nat.le_of_succ_le_succ enough)) kept.ready
        have whole := kept.toKept.trans keptLater
        refine ⟨ended, later, ?_, ⟨whole.safe, whole.closing, whole.same⟩, empty⟩
        rw [fate]
        exact (congrArg (Option.bind · _) returns).trans ran

/-- A queue that is not closed is sent with the client there. -/
theorem Safe.processOutgoingFrameQueue (safe : Safe channel)
    (client : channel.outgoingFrameQueueStatus ≠ .queueClosed → channel.client = true) :
    ∃ later, channel.processOutgoingFrameQueue = some later ∧ Kept channel later := by
  rw [WebSocketChannel.processOutgoingFrameQueue]
  split
  · exact ⟨channel, rfl, safe.kept⟩
  · next waits =>
    obtain ⟨ended, sent, ran, kept, empty⟩ := safe.processFrames (Nat.le_refl _) (.inr ⟨client waits, waits⟩)
    rw [ran, Option.bind_some]
    dsimp only
    split
    · next last =>
      have idle : sent.blobLoaderStatus ≠ .started := fun started => by
        obtain ⟨-, _, _, some, -⟩ := kept.safe.loading started
        rw [empty last.1] at some
        cases some
      have done : Safe { sent with outgoingFrameQueueStatus := .queueClosed } :=
        ⟨⟨kept.safe.harmless, fun started => absurd started idle⟩, kept.safe.alive, fun _ => idle, fun _ => rfl⟩
      rw [closeHandle]
      split
      · exact ⟨_, rfl, done, kept.closing, kept.same⟩
      · obtain ⟨later, returns, closes⟩ := done.toQueued.didCloseSocketStream fun started => absurd started idle
        exact ⟨later, returns, closes.safe, closes.closing.trans kept.closing, .inl closes.closed⟩
    · exact ⟨sent, rfl, kept⟩

theorem Safe.send (safe : Safe channel) {frame : QueuedFrame} (harmless : Harmless frame.fate)
    (client : channel.outgoingFrameQueueStatus ≠ .queueClosed → channel.client = true) :
    ∃ later, (channel.enqueue frame).processOutgoingFrameQueue = some later ∧ Kept channel later := by
  have queued : Safe (channel.enqueue frame) := by
    refine ⟨⟨fun other member => ?_, fun started => ?_⟩, safe.alive, safe.gone, safe.ended⟩
    · rcases List.mem_append.mp member with before | new
      · exact safe.harmless other before
      · rwa [List.mem_singleton.mp new]
    · obtain ⟨waits, first, rest, queue, blob⟩ := safe.loading started
      exact ⟨waits, first, rest ++ [frame], by rw [enqueue, queue]; rfl, blob⟩
  obtain ⟨later, returns, kept⟩ := queued.processOutgoingFrameQueue client
  exact ⟨later, returns, kept.safe, kept.closing, kept.same⟩

/-- If the channel is closing in the end, it still has its client. -/
theorem Safe.startClosingHandshake (safe : Safe channel) {fate : Option SocketSend} (harmless : Harmless fate)
    (handle : channel.handle = true) : ∃ later, channel.startClosingHandshake fate = some later ∧ Safe later ∧
      (later.closing = true → later.client = true ∧ later.closed = false) := by
  obtain ⟨client, notClosed⟩ := safe.alive handle
  rw [WebSocketChannel.startClosingHandshake]
  split
  · exact ⟨channel, rfl, safe, fun _ => ⟨client, notClosed⟩⟩
  · next notClosing =>
    obtain ⟨later, returns, kept⟩ := @Safe.send channel safe ⟨.vector, fate⟩ harmless fun _ => client
    refine ⟨_, by rw [returns]; rfl, ?_⟩
    dsimp only
    split
    · exact ⟨kept.safe, fun closing => absurd (kept.closing.symm.trans closing) notClosing⟩
    · next still =>
      obtain ⟨-, sameClient, sameClosed⟩ := kept.same.resolve_left still
      exact ⟨⟨⟨kept.safe.harmless, kept.safe.loading⟩, kept.safe.alive, kept.safe.gone, kept.safe.ended⟩,
        fun _ => ⟨sameClient.trans client, sameClosed.trans notClosed⟩⟩

/-- A call that returns leaves a safe channel. -/
def Returns (result : Option WebSocketChannel) : Prop := ∃ later, result = some later ∧ Safe later

theorem Returns.ite {condition : Prop} [Decidable condition] {first second : Option WebSocketChannel}
    (yes : condition → Returns first) (no : ¬ condition → Returns second) :
    Returns (if condition then first else second) := by
  split
  · next holds => exact yes holds
  · next fails => exact no fails

theorem Safe.returns_fail (safe : Safe channel) (client : channel.client = true) : Returns channel.fail := by
  obtain ⟨later, returns, kept, -⟩ := safe.fail client
  exact ⟨later, returns, kept.safe⟩

theorem Safe.processBuffer (safe : Safe channel) (handle : channel.handle = true) {header : HandshakeMode}
    {frame : ReceivedFrame} (harmless : ∀ fate, frame = .ping fate ∨ frame = .close fate → Harmless fate) :
    Returns (channel.processBuffer header frame) := by
  obtain ⟨client, -⟩ := safe.alive handle
  have same : Returns (some channel) := ⟨channel, rfl, safe⟩
  have other (mode : HandshakeMode) : Safe { channel with mode := mode } :=
    ⟨⟨safe.harmless, safe.loading⟩, safe.alive, safe.gone, safe.ended⟩
  refine Returns.ite (fun _ => same) fun _ => ?_
  cases channel.mode with
  | failed => exact same
  | incomplete =>
    cases header with
    | incomplete => exact same
    | connected => exact ⟨_, rfl, other .connected⟩
    | failed => exact (other .failed).returns_fail client
  | connected =>
    cases frame with
    | incomplete => exact same
    | invalid => exact safe.returns_fail client
    | data => exact same
    | ping fate =>
      obtain ⟨later, returns, kept⟩ :=
        @Safe.send channel safe ⟨.vector, fate⟩ (harmless fate (.inl rfl)) fun _ => client
      exact ⟨later, returns, kept.safe⟩
    | close fate =>
      have received : Safe { channel with receivedClosingHandshake := true } :=
        ⟨⟨safe.harmless, safe.loading⟩, safe.alive, safe.gone, safe.ended⟩
      obtain ⟨started, returns, kept, there⟩ := received.startClosingHandshake (harmless fate (.inr rfl)) handle
      dsimp only [processFrame]
      rw [returns, Option.bind_some]
      refine Returns.ite (fun closing => ?_) fun _ => ⟨started, rfl, kept⟩
      obtain ⟨present, notClosed⟩ := there closing
      have closes : Safe { started with outgoingFrameQueueStatus := .queueClosing } :=
        ⟨⟨kept.harmless, fun loading => ⟨nofun, (kept.loading loading).2⟩⟩, kept.alive, kept.gone,
          fun closed => Bool.noConfusion (notClosed.symm.trans closed)⟩
      obtain ⟨later, ran, keptLater⟩ := closes.processOutgoingFrameQueue fun _ => present
      exact ⟨later, ran, keptLater.safe⟩

/-- The condition on an event: every frame that it queues is harmless, and the client does not disconnect while a
blob is loaded. -/
def meets (channel : WebSocketChannel) : ChannelEvent → Prop
  | .didOpenSocketStream sent => sent ≠ .brokenRefused
  | .send frame => Harmless frame.fate
  | .close fate => Harmless fate
  | .didReceiveSocketStreamData _ frame => ∀ fate, frame = .ping fate ∨ frame = .close fate → Harmless fate
  | .disconnect => channel.blobLoaderStatus ≠ .started
  | _ => True

theorem Safe.step (safe : Safe channel) {event : ChannelEvent} (meets : channel.meets event) :
    Returns (channel.step event) := by
  have same : Returns (some channel) := ⟨channel, rfl, safe⟩
  have loads (started : channel.blobLoaderStatus = .started) : channel.client = true := by
    by_contra gone
    exact safe.gone (Bool.eq_false_iff.mpr gone) started
  have loaded (started : channel.blobLoaderStatus = .started) {status : BlobLoaderStatus} (other : status ≠ .started) :
      Safe { channel with blobLoaderStatus := status } :=
    ⟨⟨safe.harmless, fun again => absurd again other⟩, safe.alive, fun _ => other, safe.ended⟩
  cases event with
  | connect =>
    refine ⟨_, rfl, ?_⟩
    split
    · next fresh =>
      exact ⟨⟨safe.harmless, safe.loading⟩, fun _ => ⟨fresh.1, Bool.eq_false_iff.mpr fresh.2⟩, safe.gone, safe.ended⟩
    · exact safe
  | didOpenSocketStream sent =>
    refine Returns.ite (fun there => ?_) fun _ => same
    obtain ⟨later, returns, kept, -⟩ := safe.socketSend there.2 meets
    exact ⟨later, returns, kept.safe⟩
  | send frame =>
    refine Returns.ite (fun there => ?_) fun _ => same
    obtain ⟨later, returns, kept⟩ :=
      safe.send meets fun waits => there.elim (fun handle => (safe.alive handle).1) fun closed =>
      absurd (safe.ended closed) waits
    exact ⟨later, returns, kept.safe⟩
  | close fate =>
    refine Returns.ite (fun handle => ?_) fun _ => same
    obtain ⟨later, returns, kept, -⟩ := safe.startClosingHandshake meets handle
    exact ⟨later, returns, kept⟩
  | disconnect =>
    have queued : Queued { channel with client := false } := ⟨safe.harmless, safe.loading⟩
    refine Returns.ite (fun _ => ?_) fun none =>
      ⟨_, rfl, queued, fun handle => absurd handle none, fun _ => meets, safe.ended⟩
    obtain ⟨later, returns, closes⟩ := queued.didCloseSocketStream fun started => absurd started meets
    exact ⟨later, returns, closes.safe⟩
  | didReceiveSocketStreamData header frame =>
    exact Returns.ite (fun there => safe.processBuffer there.1 meets) fun _ => same
  | didCloseSocketStream =>
    refine Returns.ite (fun _ => ?_) fun _ => same
    obtain ⟨later, returns, closes⟩ := safe.toQueued.didCloseSocketStream loads
    exact ⟨later, returns, closes.safe⟩
  | didFailSocketStream =>
    refine Returns.ite (fun handle => ?_) fun _ => same
    obtain ⟨later, returns, closes⟩ := safe.didFailSocketStream (safe.alive handle).1
    exact ⟨later, returns, closes.safe⟩
  | didUpdateBufferedAmount buffered => exact ⟨_, rfl, ⟨safe.harmless, safe.loading⟩, safe.alive, safe.gone, safe.ended⟩
  | didFinishLoading =>
    refine Returns.ite (fun started => ?_) fun _ => same
    obtain ⟨later, returns, kept⟩ := (@loaded started .finished nofun).processOutgoingFrameQueue fun _ => loads started
    exact ⟨later, returns, kept.safe⟩
  | didFail =>
    exact Returns.ite (fun started => (@loaded started .failed nofun).returns_fail (loads started)) fun _ => same

/-- Every event of a run meets the condition. -/
def Careful : WebSocketChannel → List ChannelEvent → Prop
  | _, [] => True
  | channel, event :: rest => channel.meets event ∧ ∀ later, channel.step event = some later → Careful later rest

theorem Safe.run {events : List ChannelEvent} (safe : Safe channel) (careful : channel.Careful events) :
    Returns (events.foldlM WebSocketChannel.step channel) := by
  induction events generalizing channel with
  | nil => exact ⟨channel, rfl, safe⟩
  | cons event rest ih =>
    obtain ⟨later, returns, kept⟩ := safe.step careful.1
    rw [List.foldlM_cons, returns]
    exact ih kept (careful.2 later returns)

/-! ### What has ended -/

/-- The channel failed, the server closed it, or the client is gone. -/
def ended (channel : WebSocketChannel) : Bool :=
  channel.shouldDiscardReceivedData || channel.receivedClosingHandshake || !channel.client

/-- A call that returns leaves a channel that has ended. -/
def Ends (result : Option WebSocketChannel) : Prop := ∀ later ∈ result, later.ended = true

section Ends

variable {result : Option WebSocketChannel}

theorem Ends.some (now : channel.ended = true) : Ends (Option.some channel) := fun _ same => Option.some.inj same ▸ now

theorem Ends.ite {condition : Prop} [Decidable condition] {other : Option WebSocketChannel} (yes : Ends result)
    (no : Ends other) : Ends (if condition then result else other) := by
  split
  · exact yes
  · exact no

theorem Ends.bind (ends : Ends result) {next : WebSocketChannel → Option WebSocketChannel}
    (each : ∀ later, later.ended = true → Ends (next later)) : Ends (result.bind next) := by
  intro last returns
  obtain ⟨later, ran, rest⟩ := Option.bind_eq_some_iff.mp returns
  exact each later (ends later ran) last rest

theorem Ends.map (ends : Ends result) {next : WebSocketChannel → WebSocketChannel}
    (each : ∀ later, later.ended = true → (next later).ended = true) : Ends (result.map next) := by
  intro last returns
  obtain ⟨later, ran, rfl⟩ := Option.map_eq_some_iff.mp returns
  exact each later (ends later ran)

/-- The same for a call that returns an answer as well. -/
def EndsWith (result : Option (Bool × WebSocketChannel)) : Prop := Ends (result.map Prod.snd)

theorem EndsWith.bind {result : Option (Bool × WebSocketChannel)} (ends : EndsWith result)
    {next : Bool × WebSocketChannel → Option WebSocketChannel}
    (each : ∀ pair, pair.2.ended = true → Ends (next pair)) : Ends (result.bind next) := by
  intro last returns
  obtain ⟨pair, ran, rest⟩ := Option.bind_eq_some_iff.mp returns
  exact each pair (ends pair.2 (by rw [ran]; rfl)) last rest

variable (now : channel.ended = true)

include now

end Ends

end WebSocketChannel

open WebSocketChannel

/-- `fail` has a client in every run without a frame that cannot be deflated or is refused on a connection that it
finds broken, and in which the client does not disconnect while a blob is loaded. -/
theorem fail_has_client (events : List ChannelEvent) (careful : ({} : WebSocketChannel).Careful events) :
    (events.foldlM step {}).isSome := by
  have start : Safe {} := ⟨⟨nofun, nofun⟩, nofun, nofun, nofun⟩
  obtain ⟨later, returns, _⟩ := start.run careful
  rw [returns]
  rfl

/-- A socket that refuses a text fails the channel, and the client disconnects. -/
theorem fail_has_client_refused :
    ([.connect, .didOpenSocketStream .accepted, .didReceiveSocketStreamData .connected .incomplete,
      .send ⟨.string, some .refused⟩, .disconnect].foldlM step {}).isSome :=
  fail_has_client _
    ⟨trivial, fun _ first => ⟨nofun, fun _ second => ⟨nofun, fun _ third => ⟨.inr (.inl rfl), fun _ last => ⟨by
    cases first; cases second; cases third; cases last
    exact (by decide : BlobLoaderStatus.notStarted ≠ .started), fun _ _ => trivial⟩⟩⟩⟩⟩

/-- The client disconnects while a blob is loaded, or a text cannot be deflated. -/
theorem fail_without_client :
    [.connect, .didOpenSocketStream .accepted, .didReceiveSocketStreamData .connected .incomplete,
      .send ⟨.blob, some .accepted⟩, .disconnect].foldlM step {} = none ∧
    [.connect, .didOpenSocketStream .accepted, .didReceiveSocketStreamData .connected .incomplete,
      .send ⟨.string, none⟩].foldlM step {} = none := by decide

end WebNode.WebSockets
