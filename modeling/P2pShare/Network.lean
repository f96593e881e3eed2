import P2pShare.TransitionMachine
import P2pShare.OutstandingCopies

/-!
# A transfer over FIFO streams

One sender and one receiver of either kind, the streams between them, and a
fault that overwrites ciphertext inside a chunk frame but leaves its framing
alone.  A direct transfer has a stream for control messages and one for chunks;
over a relay both travel on the same stream.  A frame is read as a whole: the
bytes behind it stay where they are, by `readFrame_bytes` and
`recvMsg_frame_bytes`.
-/

namespace P2pShare

open ByteStream PathResolution TransitionMachine

/-! ## Streams -/

inductive Stream where
  | control
  | data
  deriving DecidableEq

inductive Item where
  | ctrl (message : ControlMessage)
  | chunk (frame : Frame)
  deriving DecidableEq

namespace Item

def indices : Item → List ℕ
  | ctrl _ => []
  | chunk frame => [frame.index]

/-- Other ciphertexts of the same lengths in the frame. -/
def overwrite (subs : List Bytes) : Item → Option Item
  | ctrl _ => none
  | chunk frame =>
      if subs.map List.length = frame.subs.map List.length then
        some (chunk ⟨frame.index, subs⟩)
      else none

end Item

/-! ## The two kinds of transfer -/

/-- `waitsFor` names the stream that has to be seen before a step of the setup
ends, and `hearsAtLoop` is what the receive loop makes of a control message in
the place of a chunk.  The last four fields are views for the proofs: the sender
that awaits the reply, the copies of a sender and of a loop, and the chunk that
a step of the loop hands to the disk. -/
structure NetworkKind (Sender Loop : Type) where
  sender : SenderKind Sender
  loop : LoopKind Loop
  firstSetup : Setup
  dataStream : Stream
  waitsFor : Setup → Option Stream
  wire : Frame → Bytes
  hearsAtLoop : ControlMessage → Loop → Option (Receiver Loop)
  awaiting : Sender
  orderly : Sender → Prop
  copies : FileManifest → Sender → Copies
  held : Loop → Copies
  delivers : Loop → List ℕ

def directNetwork : NetworkKind DirectSender DirectLoop where
  sender := directSenderKind
  loop := directLoopKind
  firstSetup := .acceptBi
  dataStream := .data
  waitsFor
    | .acceptBi => some .control
    | .ready _ _ => some .data
    | _ => none
  wire := Frame.bytes
  hearsAtLoop := fun _ _ => none
  awaiting := .awaitReply
  orderly := DirectSender.Orderly
  copies := DirectSender.copies
  held := DirectLoop.held
  delivers := DirectLoop.delivers

def relayNetwork : NetworkKind RelaySender RelayLoop where
  sender := relaySenderKind
  loop := relayLoopKind
  firstSetup := .recvManifest
  dataStream := .control
  waitsFor := fun _ => none
  wire := fun frame => toBe 1 1 ++ frame.bytes
  hearsAtLoop := fun message loop =>
    if loop.pc = .head then
      some (loop.afterFrame
        (relayOutcome (fun _ _ => none) loop.books.manifest (.ctrl message)))
    else none
  awaiting := .awaitReply
  orderly := RelaySender.Orderly
  copies := fun _ => RelaySender.copies
  held := RelayLoop.held
  delivers := RelayLoop.delivers

/-- What is fixed during a transfer.  `read` is what the receiver's Noise state
makes of a sub-message, and a saved state that is found is one of this
manifest. -/
structure NetworkSetting where
  noise : Noise
  read : ℕ → Bytes → Option Bytes
  msgPack : MsgPack
  manifestSource : ManifestSource
  outputDir : RawPath
  pathExists : RawPath → Bool
  files : StateFiles
  resumes : ∀ state,
    findResumable pathExists files (buildManifest manifestSource) outputDir =
      some state →
    state.manifest = buildManifest manifestSource

namespace NetworkSetting

variable (setting : NetworkSetting)

def manifest : FileManifest := buildManifest setting.manifestSource

def found : Option TransferState :=
  findResumable setting.pathExists setting.files setting.manifest
    setting.outputDir

/-- The chunks the receiver has from an earlier transfer. -/
def haveChunks : Finset ℕ :=
  match setting.found with
  | some state => state.chunksDone
  | none => ∅

end NetworkSetting

/-! ## The network -/

/-- `delivered` lists the chunks the receive loop has taken, in order. -/
structure Network (Sender Loop : Type) where
  sender : Sender
  receiver : Receiver Loop
  streams : Stream → List Item
  seen : Stream → Bool
  reports : List ControlMessage
  delivered : List ℕ

inductive NetworkEvent where
  | sender (event : SenderEvent)
  | senderHears
  | receiverProceeds
  | receiverHears
  | receiverLooksUp
  | receiverReads
  | corrupt (stream : Stream) (position : ℕ) (subs : List Bytes)

namespace Network

variable {Sender Loop : Type} (kind : NetworkKind Sender Loop)
  (setting : NetworkSetting)

def push (stream : Stream) (item : Item) (s : Network Sender Loop) :
    Network Sender Loop :=
  { s with
    streams := Function.update s.streams stream (s.streams stream ++ [item])
    seen := Function.update s.seen stream true }

def touch (stream : Stream) (s : Network Sender Loop) : Network Sender Loop :=
  { s with seen := Function.update s.seen stream true }

/-- The peer may see the data stream from when the first write to it begins. -/
def emit (s : Network Sender Loop) : SenderOutput → Network Sender Loop
  | .none => s
  | .ctrl message => s.push .control (.ctrl message)
  | .sealChunk _ _ | .finish => s.touch kind.dataStream
  | .frame index plaintext =>
      s.push kind.dataStream (.chunk (chunkFrame setting.noise index plaintext))

def pop (stream : Stream) (rest : List Item) (s : Network Sender Loop) :
    Network Sender Loop :=
  { s with streams := Function.update s.streams stream rest }

def blocked (s : Network Sender Loop) : Bool :=
  match s.receiver with
  | .setup setup =>
      match kind.waitsFor setup with
      | some stream => !s.seen stream
      | none => false
  | _ => false

def deliversNext (s : Network Sender Loop) : List ℕ :=
  match s.receiver with
  | .loop loop => kind.delivers loop
  | _ => []

def receiverMoves (s : Network Sender Loop) (receiver : Receiver Loop)
    (output : ReceiverOutput) : Network Sender Loop :=
  { s with
    receiver
    reports := s.reports ++ output.messages
    delivered := s.delivered ++ s.deliversNext kind }

def next (s : Network Sender Loop) :
    NetworkEvent → Option (Network Sender Loop)
  | .sender event =>
      if event.regular setting.manifestSource.totalSize then
        (kind.sender.step setting.manifest s.sender event).map
          fun (sender, output) => { s with sender }.emit kind setting output
      else none
  | .senderHears =>
      match s.reports with
      | message :: reports =>
          (kind.sender.step setting.manifest s.sender
            (.received (.ok message))).map fun (sender, output) =>
              { s with sender, reports }.emit kind setting output
      | [] => none
  | .receiverProceeds =>
      if s.blocked kind then none
      else
        (s.receiver.proceed kind.loop.toReceiveLoop setting.outputDir).map
          fun (receiver, output) => s.receiverMoves kind receiver output
  | .receiverHears =>
      match s.streams .control with
      | .ctrl message :: rest =>
          (s.receiver.received (.ok message)).map fun receiver =>
            { s with receiver }.pop .control rest
      | .chunk _ :: rest =>
          (s.receiver.received (.error
            (.connectionFailed "expected ctrl msg, got chunk"))).map
              fun receiver => { s with receiver }.pop .control rest
      | [] => none
  | .receiverLooksUp =>
      (s.receiver.lookup setting.outputDir setting.pathExists
        setting.files).map fun receiver => { s with receiver }
  | .receiverReads =>
      match s.receiver, s.streams kind.dataStream with
      | .loop loop, .chunk frame :: rest =>
          (kind.loop.receive setting.read setting.msgPack.decode
            (kind.wire frame) loop).map fun receiver =>
              { s with receiver }.pop kind.dataStream rest
      | .loop loop, .ctrl message :: rest =>
          (kind.hearsAtLoop message loop).map fun receiver =>
            { s with receiver }.pop kind.dataStream rest
      | _, _ => none
  | .corrupt stream position subs =>
      (s.streams stream)[position]?.bind fun item =>
        (item.overwrite subs).map fun item =>
          s.pop stream ((s.streams stream).set position item)

structure Starts (s : Network Sender Loop) : Prop where
  sender : s.sender = kind.sender.start
  receiver : s.receiver = .setup kind.firstSetup
  streams : ∀ stream, s.streams stream = []
  seen : ∀ stream, s.seen stream = false
  reports : s.reports = []
  delivered : s.delivered = []

def machine : Machine (Network Sender Loop) NetworkEvent where
  start := Starts kind
  next := next kind setting

end Network

end P2pShare
