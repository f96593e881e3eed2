import P2pShare.FrameDecoding
import P2pShare.Resume
import Mathlib.Algebra.BigOperators.Group.Finset.Basic

/-!
# The receivers

`receive_file_direct` and `receive_file_relay`, one step for each await.  A
step names the await that ended and yields the output the code produces there:
a control message, a file operation, a saved or a deleted state.  An await that
fails may still have had its effect, and `fail` says whether it had.

The two receivers differ in their loops, and frames arrive through
`DirectLoop.receive` and `RelayLoop.receive`, which decode the bytes of the
stream.
-/

namespace P2pShare

open ByteStream PathResolution

inductive FileOp where
  | createDirAll (path : RawPath)
  | create (path : RawPath)
  | setLen (path : RawPath) (length : ℕ)
  | openWrite (path : RawPath)
  | write (path : RawPath) (offset : ℕ) (bytes : Bytes)
  deriving DecidableEq

inductive ReceiverOutput where
  | none
  | ctrl (message : ControlMessage)
  | file (op : FileOp)
  | save (state : TransferState)
  | delete (state : TransferState)
  deriving DecidableEq

inductive ReceiverEvent where
  | proceed
  | fail (error : Error) (effect : Bool)
  | received (result : Except Error ControlMessage)
  | lookup (pathExists : RawPath → Bool) (files : StateFiles)

/-! ## Up to the receive loop -/

inductive Setup where
  | acceptBi
  | recvManifest
  | reject
  | lookup (manifest : FileManifest)
  | createDir (manifest : FileManifest)
  | create (manifest : FileManifest)
  | setLen (manifest : FileManifest)
  | reply (manifest : FileManifest) (state : TransferState)
      (message : ControlMessage)
  | openFile (manifest : FileManifest) (state : TransferState)
  | ready (manifest : FileManifest) (state : TransferState)
  | failed (error : Error)
  deriving DecidableEq

namespace Setup

def afterManifest : Except Error ControlMessage → Setup
  | .ok (.manifest manifest) =>
      match manifest.transferMode with
      | .streaming _ => reject
      | .bulk => lookup manifest
  | .ok other => failed (.unexpected "expected Manifest, got " other)
  | .error error => failed error

def afterLookup (manifest : FileManifest) : Option TransferState → Setup
  | some existing =>
      reply manifest existing (.resumeRequest existing.haveChunks)
  | none => createDir manifest

def proceed (outputDir : RawPath) : Setup → Option (Setup × ReceiverOutput)
  | acceptBi => some (recvManifest, .none)
  | reject =>
      some (failed (.connectionFailed "streaming mode not supported"),
        .ctrl (.error 1 "Streaming mode not implemented"))
  | createDir manifest =>
      some (create manifest, .file (.createDirAll outputDir))
  | create manifest =>
      some (setLen manifest,
        .file (.create (outputPathFor outputDir manifest)))
  | setLen manifest =>
      let path := outputPathFor outputDir manifest
      some (reply manifest (.new manifest path) .manifestAck,
        .file (.setLen path manifest.totalSize))
  | reply manifest state message =>
      some (openFile manifest state, .ctrl message)
  | openFile manifest state =>
      some (ready manifest state,
        .file (.openWrite (outputPathFor outputDir manifest)))
  | recvManifest | lookup _ | ready _ _ | failed _ => none

end Setup

/-! ## The variables of the receive loop -/

structure Books where
  manifest : FileManifest
  outputPath : RawPath
  state : TransferState
  pending : Finset ℕ
  confirmed : ℕ
  bytesDone : ℕ
  deriving DecidableEq

def initialDone (manifest : FileManifest) (state : TransferState) : ℕ :=
  ∑ index ∈ state.chunksDone, manifest.sizeOf index

namespace Books

def start (outputDir : RawPath) (manifest : FileManifest)
    (state : TransferState) : Books where
  manifest := manifest
  outputPath := outputPathFor outputDir manifest
  state := state
  pending := state.missingChunks.toFinset
  confirmed := initialDone manifest state
  bytesDone := initialDone manifest state

/-- `pending.remove`, `chunks_done.insert` and `confirmed += …`. -/
def record (books : Books) (index size : ℕ) : Books :=
  { books with
    state :=
      { books.state with chunksDone := insert index books.state.chunksDone }
    pending := books.pending.erase index
    confirmed := books.confirmed + size }

def writeOp (books : Books) (index : ℕ) (plaintext : Bytes) : FileOp :=
  .write books.outputPath (books.manifest.offset index) plaintext

end Books

/-! ## A receiver, whatever its loop -/

inductive Receiver (Loop : Type) where
  | setup (setup : Setup)
  | loop (loop : Loop)
  | returned (books : Books)
  | failed (error : Error)
  deriving DecidableEq

structure ReceiveLoop (Loop : Type) where
  start : Books → Loop
  proceed : Loop → Option (Receiver Loop × ReceiverOutput)

namespace Receiver

variable {Loop : Type} (kind : ReceiveLoop Loop) (outputDir : RawPath)

def ofSetup : Setup → Receiver Loop
  | .failed error => failed error
  | s => setup s

def proceed : Receiver Loop → Option (Receiver Loop × ReceiverOutput)
  | setup (.ready manifest state) =>
      some (.loop (kind.start (.start outputDir manifest state)), .none)
  | setup s =>
      (s.proceed outputDir).map fun (next, output) => (ofSetup next, output)
  | loop l => kind.proceed l
  | returned _ | failed _ => none

def fail (error : Error) (effect : Bool) :
    Receiver Loop → Option (Receiver Loop × ReceiverOutput)
  | returned _ | failed _ => none
  | receiver =>
      match receiver.proceed kind outputDir, effect with
      | some (_, output), true => some (failed error, output)
      | _, _ => some (failed error, .none)

def received (result : Except Error ControlMessage) :
    Receiver Loop → Option (Receiver Loop)
  | setup .recvManifest => some (ofSetup (.afterManifest result))
  | _ => none

def lookup (pathExists : RawPath → Bool) (files : StateFiles) :
    Receiver Loop → Option (Receiver Loop)
  | setup (.lookup manifest) =>
      some (ofSetup (.afterLookup manifest
        (findResumable pathExists files manifest outputDir)))
  | _ => none

def step (receiver : Receiver Loop) :
    ReceiverEvent → Option (Receiver Loop × ReceiverOutput)
  | .proceed => receiver.proceed kind outputDir
  | .fail error effect => receiver.fail kind outputDir error effect
  | .received result =>
      (receiver.received result).map fun next => (next, .none)
  | .lookup pathExists files =>
      (receiver.lookup outputDir pathExists files).map fun next =>
        (next, .none)

end Receiver

/-! ## The direct receiver -/

def ackInterval : ℕ := 4

def stateSaveInterval : ℕ := 16

inductive DirectPc where
  | head
  | nack (index : ℕ)
  | join (index : ℕ) (plaintext : Bytes)
  | spawn (index : ℕ) (plaintext : Bytes)
  | ack
  | save
  | finalJoin
  | finalSave
  | complete
  | delete
  deriving DecidableEq

/-- `writing` says that `pending_write` is `Some`. -/
structure DirectLoop where
  books : Books
  pc : DirectPc
  sinceAck : ℕ
  sinceSave : ℕ
  writing : Bool
  deriving DecidableEq

abbrev DirectReceiver := Receiver DirectLoop

namespace DirectLoop

/-- `while !pending.is_empty()`. -/
def toHead (loop : DirectLoop) : DirectLoop :=
  { loop with pc := if loop.books.pending = ∅ then .finalJoin else .head }

def start (books : Books) : DirectLoop :=
  toHead ⟨books, .head, 0, 0, false⟩

/-- The throttled state save at the end of an iteration. -/
def countSave (loop : DirectLoop) : DirectLoop :=
  let counted := { loop with sinceSave := loop.sinceSave + 1 }
  if counted.sinceSave ≥ stateSaveInterval then { counted with pc := .save }
  else counted.toHead

/-- The synchronous part of an iteration once the write has been spawned. -/
def recordChunk (loop : DirectLoop) (index : ℕ) (plaintext : Bytes) :
    DirectLoop :=
  let recorded :=
    { loop with
      books := loop.books.record index plaintext.length
      writing := true
      sinceAck := loop.sinceAck + 1 }
  if recorded.sinceAck ≥ ackInterval ∨ recorded.books.pending = ∅ then
    { recorded with pc := .ack }
  else recorded.countSave

def proceed (loop : DirectLoop) : Option (DirectReceiver × ReceiverOutput) :=
  match loop.pc with
  | .head => none
  | .nack index => some (.loop loop.toHead, .ctrl (.chunkNack index))
  | .join index plaintext =>
      some (.loop { loop with pc := .spawn index plaintext, writing := false },
        .none)
  | .spawn index plaintext =>
      some (.loop (loop.recordChunk index plaintext),
        .file (loop.books.writeOp index plaintext))
  | .ack =>
      some (.loop { loop with sinceAck := 0 }.countSave,
        .ctrl (.progress loop.books.confirmed))
  | .save =>
      some (.loop { loop with sinceSave := 0 }.toHead, .save loop.books.state)
  | .finalJoin =>
      some (.loop { loop with pc := .finalSave, writing := false }, .none)
  | .finalSave =>
      some (.loop { loop with pc := .complete }, .save loop.books.state)
  | .complete => some (.loop { loop with pc := .delete }, .ctrl .complete)
  | .delete => some (.returned loop.books, .delete loop.books.state)

/-- Where the loop goes with the outcome of a frame. -/
def afterFrame (loop : DirectLoop) : FrameOutcome → DirectReceiver
  | .failed error => .failed error
  | .skipped => .loop loop.toHead
  | .nack index => .loop { loop with pc := .nack index }
  | .accepted index plaintext => .loop { loop with pc := .join index plaintext }

/-- One frame from the data stream; `none` while bytes of it are missing. -/
def receive (read : ℕ → Bytes → Option Bytes) (input : Bytes)
    (loop : DirectLoop) : Option (DirectReceiver × Bytes) :=
  if loop.pc = .head then
    (readFrame read loop.books.manifest loop.books.pending
      loop.books.bytesDone input).map fun ((outcome, bytesDone), rest) =>
        (afterFrame { loop with books := { loop.books with bytesDone } }
          outcome, rest)
  else none

end DirectLoop

def directKind : ReceiveLoop DirectLoop := ⟨.start, DirectLoop.proceed⟩

/-! ## The relay receiver -/

inductive RelayPc where
  | head
  | nack (index : ℕ)
  | write (index : ℕ) (plaintext : Bytes)
  | ack
  | save
  | finalSave
  | complete
  | delete
  deriving DecidableEq

structure RelayLoop where
  books : Books
  pc : RelayPc
  deriving DecidableEq

abbrev RelayReceiver := Receiver RelayLoop

namespace RelayLoop

def toHead (loop : RelayLoop) : RelayLoop :=
  { loop with pc := if loop.books.pending = ∅ then .finalSave else .head }

def start (books : Books) : RelayLoop := toHead ⟨books, .head⟩

/-- `progress::advance` and the books, once the chunk is written. -/
def recordChunk (loop : RelayLoop) (index : ℕ) (plaintext : Bytes) :
    RelayLoop :=
  let recorded := loop.books.record index plaintext.length
  ⟨{ recorded with bytesDone := recorded.bytesDone + plaintext.length }, .ack⟩

/-- `chunks_done.len() % 16 == 0` decides about the save. -/
def afterAck (loop : RelayLoop) : RelayLoop :=
  if loop.books.state.chunksDone.card % stateSaveInterval = 0 then
    { loop with pc := .save }
  else loop.toHead

def proceed (loop : RelayLoop) : Option (RelayReceiver × ReceiverOutput) :=
  match loop.pc with
  | .head => none
  | .nack index => some (.loop loop.toHead, .ctrl (.chunkNack index))
  | .write index plaintext =>
      some (.loop (loop.recordChunk index plaintext),
        .file (loop.books.writeOp index plaintext))
  | .ack => some (.loop loop.afterAck, .ctrl (.progress loop.books.confirmed))
  | .save => some (.loop loop.toHead, .save loop.books.state)
  | .finalSave =>
      some (.loop { loop with pc := .complete }, .save loop.books.state)
  | .complete => some (.loop { loop with pc := .delete }, .ctrl .complete)
  | .delete => some (.returned loop.books, .delete loop.books.state)

def afterFrame (loop : RelayLoop) : FrameOutcome → RelayReceiver
  | .failed error => .failed error
  | .skipped => .loop loop.toHead
  | .nack index => .loop { loop with pc := .nack index }
  | .accepted index plaintext =>
      .loop { loop with pc := .write index plaintext }

def outcomeOf (read : ℕ → Bytes → Option Bytes) (manifest : FileManifest) :
    Except Error RelayMsg → FrameOutcome
  | .error error => .failed error
  | .ok message => relayOutcome read manifest message

/-- One message from the stream; `none` while bytes of it are missing. -/
def receive (read : ℕ → Bytes → Option Bytes)
    (decode : Bytes → Option ControlMessage) (input : Bytes)
    (loop : RelayLoop) : Option (RelayReceiver × Bytes) :=
  if loop.pc = .head then
    (recvMsg read decode input).map fun (result, rest) =>
      (afterFrame loop (outcomeOf read loop.books.manifest result), rest)
  else none

end RelayLoop

def relayKind : ReceiveLoop RelayLoop := ⟨.start, RelayLoop.proceed⟩

end P2pShare
