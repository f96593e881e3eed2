import P2pShare.FrameDecoding
import Mathlib.Algebra.BigOperators.Group.Finset.Basic

/-!
# The senders

`send_file_direct` and `send_file_relay` after `build_manifest`, one step for
each await.  Sealing a chunk and handing its frame to the transport are
separate outputs: the frame is encrypted before the `write_all` that sends it.
The variables of the two concurrent loops are one state, and the event says
which loop moves.
-/

namespace P2pShare

open ByteStream

inductive SenderOutput where
  | none
  | ctrl (message : ControlMessage)
  | sealChunk (index : ℕ) (plaintext : Bytes)
  | frame (index : ℕ) (plaintext : Bytes)
  | finish
  deriving DecidableEq

/-- `received` ends an await of `recv_ctrl`, `read` one of `read_chunk` on a
file with these bytes; `ctrlProceed` and `ctrlRead` belong to the control loop
of the relay sender.  A failed await may have had its effect. -/
inductive SenderEvent where
  | proceed
  | received (result : Except Error ControlMessage)
  | read (file : Bytes)
  | ctrlProceed
  | ctrlRead (file : Bytes)
  | fail (error : Error) (effect : Bool)

def readChunk (file : Bytes) (manifest : FileManifest) (index : ℕ) :
    Option Bytes :=
  (readExact (manifest.sizeOf index) (file.drop (manifest.offset index))).map
    Prod.fst

theorem readChunk_eq_some {file plaintext : Bytes} {manifest : FileManifest}
    {index : ℕ} (hread : readChunk file manifest index = some plaintext) :
    plaintext.length = manifest.sizeOf index ∧
      plaintext =
        (file.drop (manifest.offset index)).take (manifest.sizeOf index) := by
  unfold readChunk at hread
  rcases Option.map_eq_some_iff.mp hread with ⟨⟨bytes, rest⟩, hexact, rfl⟩
  rcases readExact_eq_some.mp hexact with ⟨hfile, hlength⟩
  refine ⟨hlength, ?_⟩
  rw [hfile, ← hlength]
  simp

/-- The range of a chunk that was read lies inside the file. -/
theorem readChunk_offset_le {file plaintext : Bytes} {manifest : FileManifest}
    {index : ℕ} (hread : readChunk file manifest index = some plaintext)
    (hpos : 0 < manifest.sizeOf index) :
    manifest.offset index + manifest.sizeOf index ≤ file.length := by
  rcases readChunk_eq_some hread with ⟨hlength, hbytes⟩
  have hle : manifest.sizeOf index ≤ file.length - manifest.offset index := by
    rw [← hlength, hbytes]
    simp
  omega

theorem readChunk_of_le {file : Bytes} {manifest : FileManifest} {index : ℕ}
    (hle :
      manifest.offset index + manifest.sizeOf index ≤ file.length) :
    readChunk file manifest index =
      some ((file.drop (manifest.offset index)).take
        (manifest.sizeOf index)) := by
  unfold readChunk readExact
  rw [if_pos (by simp; omega)]
  rfl

/-! ## The direct sender -/

/-- Where the send loop stands.  `joining` holds the frame whose write has not
ended, and `reading` says that the read-ahead has not.  `serving` is set in the
second loop, which waits for NACKs. -/
inductive SendPc where
  | readFirst
  | encode
  | joining (frame : Option (ℕ × Bytes)) (reading : Bool)
  | drain
  | retransmit (index : ℕ) (serving : Bool)
  | resend (index : ℕ) (plaintext : Bytes) (serving : Bool)
  | serve
  | finished
  deriving DecidableEq

structure Transfer where
  todo : List ℕ
  buffer : Option Bytes
  pc : SendPc
  nacks : List ℕ
  ctrlDone : Bool
  bytesDone : ℕ
  deriving DecidableEq

inductive DirectSender where
  | openBi
  | awaitReply
  | openUni (skip : Finset ℕ)
  | transfer (state : Transfer)
  | returned (bytesDone : ℕ)
  | failed (error : Error)
  deriving DecidableEq

def toSend (manifest : FileManifest) (skip : Finset ℕ) : List ℕ :=
  (List.range manifest.chunkCount).filter fun index => decide (index ∉ skip)

def skippedBytes (manifest : FileManifest) (skip : Finset ℕ) : ℕ :=
  ∑ index ∈ skip, manifest.sizeOf index

/-- The answer to the manifest: the chunks to skip. -/
def replySkip : Except Error ControlMessage → Except Error (Finset ℕ)
  | .ok .manifestAck => .ok ∅
  | .ok (.resumeRequest haveChunks) => .ok haveChunks.toFinset
  | .ok other => .error (.unexpected "unexpected response to manifest: " other)
  | .error error => .error error

namespace Transfer

def start (manifest : FileManifest) (skip : Finset ℕ) : Transfer where
  todo := toSend manifest skip
  buffer := none
  pc := .readFirst
  nacks := []
  ctrlDone := false
  bytesDone := skippedBytes manifest skip

def afterSend (serving : Bool) : SendPc := if serving then .serve else .drain

/-- The `join!` of the write and the read-ahead. -/
def joined (frame : Option (ℕ × Bytes)) (reading : Bool) : SendPc :=
  if frame = none ∧ reading = false then .drain else .joining frame reading

/-- The steps of the send loop that read no file. -/
def proceed (state : Transfer) : Option (Transfer × SenderOutput) :=
  match state.pc with
  | .readFirst =>
      if state.todo = [] then some ({ state with pc := .serve }, .none)
      else none
  | .encode =>
      match state.todo, state.buffer with
      | index :: rest, some plaintext =>
          some
            ({ state with
                todo := rest
                buffer := none
                pc := .joining (some (index, plaintext)) !rest.isEmpty },
              .sealChunk index plaintext)
      | _, _ => none
  | .joining (some (index, plaintext)) reading =>
      some ({ state with pc := joined none reading }, .frame index plaintext)
  | .joining none _ => none
  | .drain =>
      match state.nacks with
      | index :: rest =>
          some ({ state with pc := .retransmit index false, nacks := rest },
            .none)
      | [] =>
          some
            ({ state with pc := if state.todo = [] then .serve else .encode },
              .none)
  | .resend index plaintext serving =>
      some ({ state with pc := afterSend serving }, .frame index plaintext)
  | .serve =>
      match state.nacks with
      | index :: rest =>
          some ({ state with pc := .retransmit index true, nacks := rest },
            .none)
      | [] =>
          if state.ctrlDone then some ({ state with pc := .finished }, .none)
          else none
  | .retransmit _ _ | .finished => none

/-- The index whose chunk the send loop is reading. -/
def reading? (state : Transfer) : Option ℕ :=
  match state.pc with
  | .readFirst => state.todo.head?
  | .joining _ true => state.todo.head?
  | .retransmit index _ => some index
  | _ => none

def afterRead (state : Transfer) (plaintext : Bytes) :
    Transfer × SenderOutput :=
  match state.pc with
  | .readFirst => ({ state with buffer := some plaintext, pc := .encode }, .none)
  | .joining frame _ =>
      ({ state with buffer := some plaintext, pc := joined frame false }, .none)
  | .retransmit index serving =>
      ({ state with pc := .resend index plaintext serving },
        .sealChunk index plaintext)
  | _ => (state, .none)

end Transfer

/-- What the control loop makes of a message: its state, or the error it
returns. -/
def ctrlMessage (manifest : FileManifest) (state : Transfer) :
    Except Error ControlMessage → Except Error Transfer
  | .ok (.progress bytes) => .ok { state with bytesDone := bytes }
  | .ok (.chunkNack index) =>
      .ok { state with nacks := state.nacks ++ [index] }
  | .ok .complete =>
      .ok { state with ctrlDone := true, bytesDone := manifest.totalSize }
  | .ok (.error _ message) =>
      .error (.connectionFailed ("receiver: " ++ message))
  | .ok _ => .ok state
  | .error error => .error error

namespace DirectSender

variable (manifest : FileManifest)

def received (result : Except Error ControlMessage) :
    DirectSender → Option DirectSender
  | awaitReply =>
      match replySkip result with
      | .ok skip => some (.openUni skip)
      | .error error => some (.failed error)
  | transfer state =>
      if state.ctrlDone then none
      else
        match ctrlMessage manifest state result with
        | .ok next => some (.transfer next)
        | .error error => some (.failed error)
  | _ => none

def proceed : DirectSender → Option (DirectSender × SenderOutput)
  | openBi => some (.awaitReply, .ctrl (.manifest manifest))
  | openUni skip => some (.transfer (.start manifest skip), .none)
  | transfer state =>
      if state.pc = .finished ∧ state.ctrlDone then
        some (.returned state.bytesDone, .finish)
      else state.proceed.map fun (next, output) => (.transfer next, output)
  | awaitReply | returned _ | failed _ => none

def read (file : Bytes) : DirectSender → Option (DirectSender × SenderOutput)
  | transfer state =>
      state.reading?.map fun index =>
        match readChunk file manifest index with
        | none => (.failed .io, .none)
        | some plaintext =>
            let (next, output) := state.afterRead plaintext
            (.transfer next, output)
  | _ => none

def fail (error : Error) (effect : Bool) :
    DirectSender → Option (DirectSender × SenderOutput)
  | returned _ | failed _ => none
  | sender =>
      match sender.proceed manifest, effect with
      | some (_, output), true => some (failed error, output)
      | _, _ => some (failed error, .none)

def step (sender : DirectSender) :
    SenderEvent → Option (DirectSender × SenderOutput)
  | .proceed => sender.proceed manifest
  | .received result =>
      (sender.received manifest result).map fun next => (next, .none)
  | .read file => sender.read manifest file
  | .fail error effect => sender.fail manifest error effect
  | .ctrlProceed | .ctrlRead _ => none

end DirectSender

/-! ## The relay sender -/

/-- `send_one_chunk` in one of the two loops. -/
inductive Worker where
  | idle
  | reading (index : ℕ)
  | writing (index : ℕ) (plaintext : Bytes)
  deriving DecidableEq

structure RelayTransfer where
  todo : List ℕ
  sendWorker : Worker
  ctrlWorker : Worker
  ctrlDone : Bool
  bytesDone : ℕ
  deriving DecidableEq

inductive RelaySender where
  | greet
  | awaitReply
  | transfer (state : RelayTransfer)
  | returned (bytesDone : ℕ)
  | failed (error : Error)
  deriving DecidableEq

namespace Worker

def read (manifest : FileManifest) (file : Bytes) :
    Worker → Option (Option (Worker × SenderOutput))
  | reading index =>
      some ((readChunk file manifest index).map fun plaintext =>
        (writing index plaintext, .sealChunk index plaintext))
  | _ => none

def write : Worker → Option (Worker × SenderOutput)
  | writing index plaintext => some (idle, .frame index plaintext)
  | _ => none

end Worker

namespace RelayTransfer

def start (manifest : FileManifest) (skip : Finset ℕ) : RelayTransfer where
  todo := toSend manifest skip
  sendWorker := .idle
  ctrlWorker := .idle
  ctrlDone := false
  bytesDone := skippedBytes manifest skip

end RelayTransfer

namespace RelaySender

variable (manifest : FileManifest)

/-- One message in the control loop. -/
def ctrlMessage (state : RelayTransfer) :
    Except Error ControlMessage → RelaySender
  | .ok (.progress bytes) => .transfer { state with bytesDone := bytes }
  | .ok .complete =>
      .transfer
        { state with ctrlDone := true, bytesDone := manifest.totalSize }
  | .ok (.chunkNack index) =>
      .transfer { state with ctrlWorker := .reading index }
  | .ok (.error _ message) =>
      .failed (.connectionFailed ("receiver: " ++ message))
  | .ok _ => .transfer state
  | .error error => .failed error

def received (result : Except Error ControlMessage) :
    RelaySender → Option RelaySender
  | awaitReply =>
      match replySkip result with
      | .ok skip => some (.transfer (.start manifest skip))
      | .error error => some (.failed error)
  | transfer state =>
      if state.ctrlDone = false ∧ state.ctrlWorker = .idle then
        some (ctrlMessage manifest state result)
      else none
  | _ => none

def proceed : RelaySender → Option (RelaySender × SenderOutput)
  | greet =>
      match manifest.transferMode with
      | .streaming _ =>
          some (.failed (.connectionFailed "streaming mode not supported"),
            .none)
      | .bulk => some (.awaitReply, .ctrl (.manifest manifest))
  | transfer state =>
      match state.sendWorker, state.todo with
      | .idle, index :: rest =>
          some
            (.transfer
              { state with todo := rest, sendWorker := .reading index },
              .none)
      | .idle, [] =>
          if state.ctrlDone then some (.returned state.bytesDone, .finish)
          else none
      | worker, _ =>
          worker.write.map fun (next, output) =>
            (.transfer { state with sendWorker := next }, output)
  | awaitReply | returned _ | failed _ => none

/-- `send_one_chunk` of one loop has read its chunk; `update` puts the loop's
worker back. -/
def afterRead (update : Worker → RelayTransfer) :
    Option (Worker × SenderOutput) → RelaySender × SenderOutput
  | none => (failed .io, .none)
  | some (next, output) => (transfer (update next), output)

def fail (error : Error) (effect : Bool) :
    RelaySender → Option (RelaySender × SenderOutput)
  | returned _ | failed _ => none
  | sender =>
      match sender.proceed manifest, effect with
      | some (_, output), true => some (failed error, output)
      | _, _ => some (failed error, .none)

def step (sender : RelaySender) :
    SenderEvent → Option (RelaySender × SenderOutput)
  | .proceed => sender.proceed manifest
  | .received result =>
      (sender.received manifest result).map fun next => (next, .none)
  | .read file =>
      match sender with
      | transfer state =>
          (state.sendWorker.read manifest file).map
            (afterRead fun worker => { state with sendWorker := worker })
      | _ => none
  | .ctrlProceed =>
      match sender with
      | transfer state =>
          state.ctrlWorker.write.map fun (worker, output) =>
            (transfer { state with ctrlWorker := worker }, output)
      | _ => none
  | .ctrlRead file =>
      match sender with
      | transfer state =>
          (state.ctrlWorker.read manifest file).map
            (afterRead fun worker => { state with ctrlWorker := worker })
      | _ => none
  | .fail error effect => sender.fail manifest error effect

end RelaySender

end P2pShare
