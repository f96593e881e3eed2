import P2pShare.ChunkStream
import P2pShare.LastReport

/-!
# The work left in a transfer

Every step of a transfer takes away some of the work that is left, and only the
corruption of a frame adds to it.  So a transfer that meets finitely many
corruptions comes to an end.
-/

namespace P2pShare

open ByteStream PathResolution TransitionMachine

/-! ## What is on its way -/

/-- The frame that the sender makes of a chunk of this size. -/
def Frame.Clean (setting : NetworkSetting) (frame : Frame) : Prop :=
  ∃ plaintext : Bytes,
    plaintext.length = setting.manifest.sizeOf frame.index ∧
      frame = chunkFrame setting.noise frame.index plaintext

/-- A NACK stands for a retransmission. -/
def ControlMessage.work : ControlMessage → ℕ
  | .chunkNack _ => 12
  | _ => 1

/-- A frame that may be NACKed stands for its retransmission too. -/
noncomputable def Item.work (setting : NetworkSetting) : Item → ℕ
  | .ctrl _ => 1
  | .chunk frame => open Classical in if frame.Clean setting then 6 else 14

def SenderOutput.work : SenderOutput → ℕ
  | .frame _ _ => 6
  | .ctrl _ => 1
  | .none | .sealChunk _ _ | .finish => 0

theorem ControlMessage.work_pos (message : ControlMessage) :
    0 < message.work := by
  cases message with
  | chunkNack index => exact Nat.succ_pos 11
  | _ => exact Nat.one_pos

theorem Item.work_pos (setting : NetworkSetting) (item : Item) :
    0 < item.work setting := by
  cases item with
  | ctrl message => exact Nat.one_pos
  | chunk frame =>
      simp only [work]
      split <;> omega

theorem Item.work_chunk_le (setting : NetworkSetting) (frame : Frame) :
    6 ≤ (Item.chunk frame).work setting ∧
      (Item.chunk frame).work setting ≤ 14 := by
  simp only [Item.work]
  split <;> omega

/-! ## The two senders -/

def SendPc.work : SendPc → ℕ
  | .finished => 1
  | .serve => 2
  | .encode => 3
  | .readFirst | .drain => 4
  | .joining none _ => 5
  | .joining (some _) false | .resend _ _ _ => 11
  | .joining (some _) true | .retransmit _ _ => 12

def Transfer.work (state : Transfer) : ℕ :=
  10 * state.todo.length + 11 * state.nacks.length + state.pc.work

def DirectSender.work (manifest : FileManifest) : DirectSender → ℕ
  | openBi => 10 * manifest.chunkCount + 7
  | awaitReply => 10 * manifest.chunkCount + 5
  | openUni skip => 10 * (toSend manifest skip).length + 5
  | transfer state => state.work
  | returned _ | failed _ => 0

def Worker.work : Worker → ℕ
  | idle => 0
  | writing _ _ => 7
  | reading _ => 8

def RelayTransfer.work (state : RelayTransfer) : ℕ :=
  10 * state.todo.length + state.sendWorker.work + state.ctrlWorker.work + 1

def RelaySender.work (manifest : FileManifest) : RelaySender → ℕ
  | greet => 10 * manifest.chunkCount + 7
  | awaitReply => 10 * manifest.chunkCount + 5
  | transfer state => state.work
  | returned _ | failed _ => 0

theorem length_toSend_le (manifest : FileManifest) (skip : Finset ℕ) :
    (toSend manifest skip).length ≤ manifest.chunkCount := by
  have hfilter := List.length_filter_le (fun index => decide (index ∉ skip))
    (List.range manifest.chunkCount)
  rw [List.length_range] at hfilter
  exact hfilter

namespace Transfer

variable {state next : Transfer} {output : SenderOutput}

theorem work_proceed (hproceed : state.proceed = some (next, output)) :
    next.work + output.work < state.work := by
  unfold proceed at hproceed
  split at hproceed
  next hpc =>
    split at hproceed
    next htodo =>
      cases hproceed
      simp [work, SendPc.work, SenderOutput.work, hpc]
    next => contradiction
  next hpc =>
    split at hproceed
    next index rest plaintext htodo hbuffer =>
      cases hproceed
      have hreading : (SendPc.joining (some (index, plaintext))
          !rest.isEmpty).work ≤ 12 := by
        cases rest.isEmpty <;> simp [SendPc.work]
      simp only [work, SenderOutput.work, hpc, htodo, List.length_cons]
      simp only [SendPc.work] at hreading ⊢
      omega
    next => contradiction
  next index plaintext reading hpc =>
    cases hproceed
    cases reading with
    | true => simp [work, SendPc.work, SenderOutput.work, hpc, joined]
    | false => simp [work, SendPc.work, SenderOutput.work, hpc, joined]
  next => contradiction
  next hpc =>
    split at hproceed
    next index rest hnacks =>
      cases hproceed
      simp only [work, SendPc.work, SenderOutput.work, hpc, hnacks,
        List.length_cons]
      omega
    next hnacks =>
      cases hproceed
      by_cases htodo : state.todo = []
      · simp [work, SendPc.work, SenderOutput.work, hpc, htodo]
      · simp [work, SendPc.work, SenderOutput.work, hpc, htodo]
  next index plaintext serving hpc =>
    cases hproceed
    cases serving with
    | true => simp [work, SendPc.work, SenderOutput.work, hpc, afterSend]
    | false => simp [work, SendPc.work, SenderOutput.work, hpc, afterSend]
  next hpc =>
    split at hproceed
    next index rest hnacks =>
      cases hproceed
      simp only [work, SendPc.work, SenderOutput.work, hpc, hnacks,
        List.length_cons]
      omega
    next hnacks =>
      split at hproceed
      next =>
        cases hproceed
        simp [work, SendPc.work, SenderOutput.work, hpc]
      next => contradiction
  next => contradiction
  next => contradiction

theorem work_afterRead {index : ℕ} (plaintext : Bytes)
    (hreading : state.reading? = some index) :
    (state.afterRead plaintext).1.work +
        (state.afterRead plaintext).2.work < state.work := by
  unfold reading? at hreading
  split at hreading
  next hpc => simp [afterRead, hpc, work, SendPc.work, SenderOutput.work]
  next frame hpc =>
    cases frame with
    | none =>
        simp [afterRead, hpc, work, SendPc.work, SenderOutput.work, joined]
    | some frame =>
        simp [afterRead, hpc, work, SendPc.work, SenderOutput.work, joined]
  next index' serving hpc =>
    simp [afterRead, hpc, work, SendPc.work, SenderOutput.work]
  next => contradiction

theorem work_pos (state : Transfer) : 0 < state.work := by
  have hpc : 0 < state.pc.work := by
    unfold SendPc.work
    split <;> omega
  unfold work
  omega

end Transfer

namespace DirectSender

variable {manifest : FileManifest} {sender next : DirectSender}
  {output : SenderOutput}

theorem work_proceed
    (hproceed : sender.proceed manifest = some (next, output)) :
    next.work manifest + output.work < sender.work manifest := by
  cases sender with
  | openBi =>
      cases hproceed
      simp [work, SenderOutput.work]
  | awaitReply => contradiction
  | openUni skip =>
      cases hproceed
      simp [work, SenderOutput.work, Transfer.start, Transfer.work,
        SendPc.work]
  | transfer state =>
      simp only [proceed] at hproceed
      split at hproceed
      next =>
        cases hproceed
        exact state.work_pos
      next =>
        obtain ⟨⟨next', output'⟩, hstep, hresult⟩ :=
          Option.map_eq_some_iff.mp hproceed
        cases hresult
        exact Transfer.work_proceed hstep
  | returned bytesDone => contradiction
  | failed error => contradiction

theorem work_read {file : Bytes}
    (hread : sender.read manifest file = some (next, output)) :
    next.work manifest + output.work < sender.work manifest := by
  cases sender with
  | transfer state =>
      obtain ⟨index, hreading, hresult⟩ := Option.map_eq_some_iff.mp hread
      split at hresult
      next =>
        cases hresult
        exact state.work_pos
      next plaintext _ =>
        cases hresult
        exact Transfer.work_afterRead plaintext hreading
  | openBi => contradiction
  | awaitReply => contradiction
  | openUni skip => contradiction
  | returned bytesDone => contradiction
  | failed error => contradiction

theorem work_received {message : ControlMessage}
    (hreceived : sender.received manifest (.ok message) = some next) :
    next.work manifest < sender.work manifest + message.work := by
  have hmessage := message.work_pos
  cases sender with
  | awaitReply =>
      simp only [received] at hreceived
      split at hreceived
      next skip _ =>
        cases hreceived
        have hle := length_toSend_le manifest skip
        simp only [work]
        omega
      next =>
        cases hreceived
        simp only [work]
        omega
  | transfer state =>
      simp only [received] at hreceived
      split at hreceived
      next => contradiction
      next =>
        cases message with
        | chunkNack index =>
            cases hreceived
            simp only [work, Transfer.work, ControlMessage.work,
              List.length_append, List.length_singleton]
            omega
        | error code text =>
            cases hreceived
            exact Nat.add_pos_right _ hmessage
        | progress bytes =>
            cases hreceived
            exact Nat.lt_add_of_pos_right hmessage
        | complete =>
            cases hreceived
            exact Nat.lt_add_of_pos_right hmessage
        | manifest manifest =>
            cases hreceived
            exact Nat.lt_add_of_pos_right hmessage
        | manifestAck =>
            cases hreceived
            exact Nat.lt_add_of_pos_right hmessage
        | resumeRequest chunks =>
            cases hreceived
            exact Nat.lt_add_of_pos_right hmessage
  | openBi => contradiction
  | openUni skip => contradiction
  | returned bytesDone => contradiction
  | failed error => contradiction

theorem work_step {event : SenderEvent} {size : ℕ}
    (hregular : event.regular size = true)
    (hstep : sender.step manifest event = some (next, output)) :
    next.work manifest + output.work < sender.work manifest := by
  cases event with
  | proceed => exact work_proceed hstep
  | read file => exact work_read hstep
  | received result => cases hregular
  | fail error effect => cases hregular
  | ctrlProceed => cases hstep
  | ctrlRead file => cases hstep

end DirectSender

theorem Worker.work_write {worker next : Worker} {output : SenderOutput}
    (hwrite : worker.write = some (next, output)) :
    next.work + output.work < worker.work := by
  obtain ⟨index, plaintext, rfl, rfl, rfl⟩ := Worker.write_eq_some hwrite
  simp [work, SenderOutput.work]

namespace RelaySender

variable {manifest : FileManifest} {sender next : RelaySender}
  {output : SenderOutput}

theorem work_proceed
    (hproceed : sender.proceed manifest = some (next, output)) :
    next.work manifest + output.work < sender.work manifest := by
  cases sender with
  | greet =>
      simp only [proceed] at hproceed
      split at hproceed
      next =>
        cases hproceed
        simp [work, SenderOutput.work]
      next =>
        cases hproceed
        simp [work, SenderOutput.work]
  | awaitReply => contradiction
  | transfer state =>
      simp only [proceed] at hproceed
      split at hproceed
      next index rest hworker htodo =>
        cases hproceed
        simp only [work, RelayTransfer.work, Worker.work, SenderOutput.work,
          hworker, htodo, List.length_cons]
        omega
      next hworker htodo =>
        split at hproceed
        next =>
          cases hproceed
          simp only [work, RelayTransfer.work, SenderOutput.work]
          omega
        next => contradiction
      next =>
        obtain ⟨⟨worker, output'⟩, hwrite, hresult⟩ :=
          Option.map_eq_some_iff.mp hproceed
        cases hresult
        have hless := Worker.work_write hwrite
        simp only [work, RelayTransfer.work]
        omega
  | returned bytesDone => contradiction
  | failed error => contradiction

/-- `send_one_chunk` has read its chunk, in the loop whose worker `update`
sets. -/
theorem work_afterRead {state : RelayTransfer} {file : Bytes} {worker : Worker}
    {outcome : Option (Worker × SenderOutput)}
    {update : Worker → RelayTransfer}
    (hread : worker.read manifest file = some outcome)
    (hresult : afterRead update outcome = (next, output))
    (hupdate : ∀ other,
      (update other).work + worker.work = state.work + other.work) :
    next.work manifest + output.work < (transfer state).work manifest := by
  obtain ⟨index, rfl, rfl⟩ := Worker.read_eq_some hread
  cases hchunk : readChunk file manifest index with
  | none =>
      rw [hchunk] at hresult
      cases hresult
      simp only [work, RelayTransfer.work, SenderOutput.work]
      omega
  | some plaintext =>
      rw [hchunk] at hresult
      cases hresult
      have hmoves := hupdate (.writing index plaintext)
      simp only [Worker.work] at hmoves
      simp only [work, SenderOutput.work]
      omega

theorem work_received {message : ControlMessage}
    (hreceived : sender.received manifest (.ok message) = some next) :
    next.work manifest < sender.work manifest + message.work := by
  have hmessage := message.work_pos
  cases sender with
  | awaitReply =>
      simp only [received] at hreceived
      split at hreceived
      next skip _ =>
        cases hreceived
        have hle := length_toSend_le manifest skip
        simp only [work, RelayTransfer.work, RelayTransfer.start, Worker.work]
        omega
      next =>
        cases hreceived
        simp only [work]
        omega
  | transfer state =>
      simp only [received] at hreceived
      split at hreceived
      next hidle =>
        cases message with
        | chunkNack index =>
            cases hreceived
            simp only [ctrlMessage, work, RelayTransfer.work, Worker.work,
              ControlMessage.work, hidle.2]
            omega
        | error code text =>
            cases hreceived
            exact Nat.add_pos_right _ hmessage
        | progress bytes =>
            cases hreceived
            exact Nat.lt_add_of_pos_right hmessage
        | complete =>
            cases hreceived
            exact Nat.lt_add_of_pos_right hmessage
        | manifest manifest =>
            cases hreceived
            exact Nat.lt_add_of_pos_right hmessage
        | manifestAck =>
            cases hreceived
            exact Nat.lt_add_of_pos_right hmessage
        | resumeRequest chunks =>
            cases hreceived
            exact Nat.lt_add_of_pos_right hmessage
      next => contradiction
  | greet => contradiction
  | returned bytesDone => contradiction
  | failed error => contradiction

theorem work_step {event : SenderEvent} {size : ℕ}
    (hregular : event.regular size = true)
    (hstep : sender.step manifest event = some (next, output)) :
    next.work manifest + output.work < sender.work manifest := by
  cases event with
  | proceed => exact work_proceed hstep
  | received result => cases hregular
  | fail error effect => cases hregular
  | read file =>
      cases sender with
      | transfer state =>
          obtain ⟨outcome, hread, hresult⟩ := Option.map_eq_some_iff.mp hstep
          apply work_afterRead hread hresult
          intro worker
          simp only [RelayTransfer.work]
          omega
      | _ => contradiction
  | ctrlRead file =>
      cases sender with
      | transfer state =>
          obtain ⟨outcome, hread, hresult⟩ := Option.map_eq_some_iff.mp hstep
          apply work_afterRead hread hresult
          intro worker
          simp only [RelayTransfer.work]
          omega
      | _ => contradiction
  | ctrlProceed =>
      cases sender with
      | transfer state =>
          obtain ⟨⟨worker, output'⟩, hwrite, hresult⟩ :=
            Option.map_eq_some_iff.mp hstep
          cases hresult
          have hless := Worker.work_write hwrite
          simp only [work, RelayTransfer.work]
          omega
      | _ => contradiction

end RelaySender

/-! ## The two receivers -/

def DirectPc.work : DirectPc → ℕ
  | .delete => 1
  | .complete => 3
  | .finalSave => 4
  | .head | .finalJoin => 5
  | .save => 6
  | .ack => 8
  | .spawn _ _ => 9
  | .join _ _ => 10
  | .nack _ => 18

def RelayPc.work : RelayPc → ℕ
  | .delete => 1
  | .complete => 3
  | .finalSave => 4
  | .head => 5
  | .save => 6
  | .ack => 8
  | .write _ _ => 9
  | .nack _ => 18

def Setup.work : Setup → ℕ
  | .failed _ => 0
  | .reject => 2
  | .ready _ _ => 6
  | .openFile _ _ => 7
  | .reply _ _ message => 8 + message.work
  | .setLen _ => 10
  | .create _ => 11
  | .createDir _ => 12
  | .lookup _ | .recvManifest => 13
  | .acceptBi => 14

def Receiver.work {Loop : Type} (loopWork : Loop → ℕ) : Receiver Loop → ℕ
  | setup s => s.work
  | loop l => loopWork l
  | returned _ | failed _ => 0

def messagesWork (messages : List ControlMessage) : ℕ :=
  (messages.map ControlMessage.work).sum

namespace Receiver

variable {Loop : Type} {loopWork : Loop → ℕ} {receiver next : Receiver Loop}
  {outputDir : RawPath} {output : ReceiverOutput}

theorem work_ofSetup (setup : Setup) :
    (ofSetup setup : Receiver Loop).work loopWork = setup.work := by
  cases setup <;> rfl

theorem work_setup {setup other : Setup}
    (hproceed : setup.proceed outputDir = some (other, output)) :
    other.work + messagesWork output.messages < setup.work := by
  cases setup with
  | acceptBi =>
      cases hproceed
      simp [Setup.work, messagesWork, ReceiverOutput.messages]
  | reject =>
      cases hproceed
      simp [Setup.work, messagesWork, ReceiverOutput.messages,
        ControlMessage.work]
  | createDir manifest =>
      cases hproceed
      simp [Setup.work, messagesWork, ReceiverOutput.messages]
  | create manifest =>
      cases hproceed
      simp [Setup.work, messagesWork, ReceiverOutput.messages]
  | setLen manifest =>
      cases hproceed
      simp [Setup.work, messagesWork, ReceiverOutput.messages,
        ControlMessage.work]
  | reply manifest state message =>
      cases hproceed
      simp [Setup.work, messagesWork, ReceiverOutput.messages]
  | openFile manifest state =>
      cases hproceed
      simp [Setup.work, messagesWork, ReceiverOutput.messages]
  | ready manifest state => contradiction
  | recvManifest => contradiction
  | lookup manifest => contradiction
  | failed error => contradiction

theorem work_received {result : Except Error ControlMessage}
    (hreceived : receiver.received result = some next) :
    next.work loopWork ≤ receiver.work loopWork := by
  unfold received at hreceived
  split at hreceived
  next =>
    cases hreceived
    rw [work_ofSetup]
    unfold Setup.afterManifest
    split
    next manifest =>
      cases manifest.transferMode with
      | streaming config => simp [Setup.work, work]
      | bulk => simp [Setup.work, work]
    next => exact Nat.zero_le _
    next => exact Nat.zero_le _
  next => contradiction

theorem work_lookup {pathExists : RawPath → Bool} {files : StateFiles}
    (hlookup : receiver.lookup outputDir pathExists files = some next) :
    next.work loopWork < receiver.work loopWork := by
  unfold lookup at hlookup
  split at hlookup
  next manifest =>
    cases hlookup
    rw [work_ofSetup]
    unfold Setup.afterLookup
    split
    next => simp [Setup.work, work, ControlMessage.work]
    next => simp [Setup.work, work]
  next => contradiction

end Receiver

namespace DirectLoop

def work (loop : DirectLoop) : ℕ := loop.pc.work

variable {loop : DirectLoop} {receiver : DirectReceiver}
  {output : ReceiverOutput}

theorem work_toHead_le (loop : DirectLoop) : loop.toHead.work ≤ 5 := by
  unfold work
  obtain ⟨hpc, _⟩ | hpc := toHead_cases loop
  · simp [hpc, DirectPc.work]
  · simp [hpc, DirectPc.work]

theorem work_countSave_le (loop : DirectLoop) : loop.countSave.work ≤ 6 := by
  obtain hsave | hhead := countSave_cases loop
  · rw [hsave]
    exact Nat.le_refl 6
  · rw [hhead]
    exact (work_toHead_le _).trans (by omega)

theorem work_recordChunk_le (loop : DirectLoop) (index : ℕ)
    (plaintext : Bytes) : (loop.recordChunk index plaintext).work ≤ 8 := by
  obtain hack | hcount := recordChunk_cases loop index plaintext
  · rw [hack]
    exact Nat.le_refl 8
  · rw [hcount]
    exact (work_countSave_le _).trans (by omega)

theorem work_proceed (hproceed : loop.proceed = some (receiver, output)) :
    receiver.work work + messagesWork output.messages < loop.work := by
  have htoHead := work_toHead_le
  have hcountSave := work_countSave_le
  have hrecord := work_recordChunk_le
  unfold proceed at hproceed
  split at hproceed
  next => contradiction
  next index hpc =>
    cases hproceed
    have hle := htoHead loop
    simp [Receiver.work, messagesWork, ReceiverOutput.messages,
      ControlMessage.work, work, DirectPc.work, hpc] at hle ⊢
    omega
  next index plaintext hpc =>
    cases hproceed
    simp [Receiver.work, messagesWork, ReceiverOutput.messages, work,
      DirectPc.work, hpc]
  next index plaintext hpc =>
    cases hproceed
    have hle := hrecord loop index plaintext
    simp [Receiver.work, messagesWork, ReceiverOutput.messages, work,
      DirectPc.work, hpc] at hle ⊢
    omega
  next hpc =>
    cases hproceed
    have hle := hcountSave { loop with sinceAck := 0 }
    simp [Receiver.work, messagesWork, ReceiverOutput.messages,
      ControlMessage.work, work, DirectPc.work, hpc] at hle ⊢
    omega
  next hpc =>
    cases hproceed
    have hle := htoHead { loop with sinceSave := 0 }
    simp [Receiver.work, messagesWork, ReceiverOutput.messages, work,
      DirectPc.work, hpc] at hle ⊢
    omega
  next hpc =>
    cases hproceed
    simp [Receiver.work, messagesWork, ReceiverOutput.messages, work,
      DirectPc.work, hpc]
  next hpc =>
    cases hproceed
    simp [Receiver.work, messagesWork, ReceiverOutput.messages, work,
      DirectPc.work, hpc]
  next hpc =>
    cases hproceed
    simp [Receiver.work, messagesWork, ReceiverOutput.messages,
      ControlMessage.work, work, DirectPc.work, hpc]
  next hpc =>
    cases hproceed
    simp [Receiver.work, messagesWork, ReceiverOutput.messages, work,
      DirectPc.work, hpc]

end DirectLoop

namespace RelayLoop

def work (loop : RelayLoop) : ℕ := loop.pc.work

variable {loop : RelayLoop} {receiver : RelayReceiver}
  {output : ReceiverOutput}

theorem work_toHead_le (loop : RelayLoop) : loop.toHead.work ≤ 5 := by
  unfold work
  obtain ⟨hpc, _⟩ | hpc := toHead_cases loop
  · simp [hpc, RelayPc.work]
  · simp [hpc, RelayPc.work]

theorem work_afterAck_le (loop : RelayLoop) : loop.afterAck.work ≤ 6 := by
  obtain hsave | hhead := afterAck_cases loop
  · rw [hsave]
    exact Nat.le_refl 6
  · rw [hhead]
    exact (work_toHead_le _).trans (by omega)

theorem work_proceed (hproceed : loop.proceed = some (receiver, output)) :
    receiver.work work + messagesWork output.messages < loop.work := by
  have htoHead := work_toHead_le loop
  have hafterAck := work_afterAck_le loop
  unfold proceed at hproceed
  split at hproceed
  next => contradiction
  next index hpc =>
    cases hproceed
    simp [Receiver.work, messagesWork, ReceiverOutput.messages,
      ControlMessage.work, work, RelayPc.work, hpc] at htoHead ⊢
    omega
  next index plaintext hpc =>
    cases hproceed
    simp [Receiver.work, messagesWork, ReceiverOutput.messages, work,
      RelayPc.work, hpc, recordChunk]
  next hpc =>
    cases hproceed
    simp [Receiver.work, messagesWork, ReceiverOutput.messages,
      ControlMessage.work, work, RelayPc.work, hpc] at hafterAck ⊢
    omega
  next hpc =>
    cases hproceed
    simp [Receiver.work, messagesWork, ReceiverOutput.messages, work,
      RelayPc.work, hpc] at htoHead ⊢
    omega
  next hpc =>
    cases hproceed
    simp [Receiver.work, messagesWork, ReceiverOutput.messages, work,
      RelayPc.work, hpc]
  next hpc =>
    cases hproceed
    simp [Receiver.work, messagesWork, ReceiverOutput.messages,
      ControlMessage.work, work, RelayPc.work, hpc]
  next hpc =>
    cases hproceed
    simp [Receiver.work, messagesWork, ReceiverOutput.messages, work,
      RelayPc.work, hpc]

end RelayLoop

/-! ## A clean frame is not NACKed -/

/-- The receiver's cipher undoes the sender's. -/
def NetworkSetting.Reads (setting : NetworkSetting) : Prop :=
  ∀ nonce plain,
    setting.read nonce (setting.noise.cipher nonce plain) = some plain

namespace Frame.Clean

variable {setting : NetworkSetting} {frame : Frame}

theorem frameOutcome (hclean : frame.Clean setting) (hreads : setting.Reads)
    (pending : Finset ℕ) (bytesDone : ℕ) :
    (frameOutcome setting.read setting.manifest pending bytesDone frame).1 =
        .skipped ∨
      ∃ plaintext,
        (P2pShare.frameOutcome setting.read setting.manifest pending bytesDone
          frame).1 = .accepted frame.index plaintext := by
  by_cases hpending : frame.index ∈ pending
  · obtain ⟨plaintext, hlength, hframe⟩ := hclean
    have hsubs : frame.subs =
        subCiphertexts setting.noise frame.index plaintext :=
      congrArg Frame.subs hframe
    refine Or.inr ⟨plaintext, ?_⟩
    unfold P2pShare.frameOutcome finishFrame
    rw [hsubs, decide_eq_true hpending, takeSubs_subCiphertexts hreads]
    simp [hlength]
  · exact Or.inl (frameOutcome_of_not_pending _ _ hpending)

theorem relayOutcome (hclean : frame.Clean setting) (hreads : setting.Reads)
    {bound : ℕ} (hframed : frame.WellFramed bound) :
    ∃ plaintext, relayOutcome setting.read setting.manifest
      (.chunk frame.index (payload frame.subs)) =
        .accepted frame.index plaintext := by
  obtain ⟨plaintext, hlength, hframe⟩ := hclean
  have hsubs : frame.subs =
      subCiphertexts setting.noise frame.index plaintext :=
    congrArg Frame.subs hframe
  have hdecrypt := decryptChunk_payload setting.read 0 frame.index
    hframed.count_lt hframed.sub_le
  rw [hsubs, takeSubs_subCiphertexts hreads] at hdecrypt
  refine ⟨plaintext, ?_⟩
  simp only [P2pShare.relayOutcome, hsubs]
  dsimp only at hdecrypt
  rw [hdecrypt]
  simp [hlength]

end Frame.Clean

/-! ## The work of a kind of transfer -/

structure Workload (Sender Loop : Type) where
  sender : Sender → ℕ
  loop : Loop → ℕ

def directWork (manifest : FileManifest) : Workload DirectSender DirectLoop where
  sender := DirectSender.work manifest
  loop := DirectLoop.work

def relayWork (manifest : FileManifest) : Workload RelaySender RelayLoop where
  sender := RelaySender.work manifest
  loop := RelayLoop.work

/-- What a step of a party takes from its work. -/
structure WorkLaws {Sender Loop : Type} (kind : NetworkKind Sender Loop)
    (setting : NetworkSetting) (load : Workload Sender Loop) : Prop where
  start : load.sender kind.sender.start ≤ 10 * setting.manifest.chunkCount + 7
  step : ∀ {sender event next output},
    event.regular setting.manifestSource.totalSize = true →
    kind.sender.step setting.manifest sender event = some (next, output) →
    load.sender next + output.work < load.sender sender
  hears : ∀ {sender message next output},
    kind.sender.step setting.manifest sender (.received (.ok message)) =
      some (next, output) →
    output = .none ∧ load.sender next < load.sender sender + message.work
  loop_start : ∀ books, load.loop (kind.loop.start books) ≤ 5
  proceed : ∀ {loop receiver output},
    kind.loop.proceed loop = some (receiver, output) →
    receiver.work load.loop + messagesWork output.messages < load.loop loop
  receive : ∀ {frame loop receiver},
    (kind.loop.books loop).manifest = setting.manifest →
    frame.WellFramed (maxPayload setting.manifest) →
    kind.loop.receive setting.read setting.msgPack.decode (kind.wire frame)
      loop = some receiver →
    receiver.work load.loop < load.loop loop + (Item.chunk frame).work setting

theorem DirectLoop.work_receive {setting : NetworkSetting}
    (hreads : setting.Reads) {frame : Frame} {loop : DirectLoop}
    {receiver : DirectReceiver} {rest : Bytes}
    (hmanifest : loop.books.manifest = setting.manifest)
    (hframed : frame.WellFramed (maxPayload setting.manifest))
    (hreceive : loop.receive setting.read frame.bytes =
      some (receiver, rest)) :
    receiver.work work < loop.work + (Item.chunk frame).work setting := by
  have hbytes := readFrame_bytes setting.read loop.books.pending
    loop.books.bytesDone hframed []
  rw [List.append_nil, ← hmanifest] at hbytes
  obtain ⟨hlow, _⟩ := Item.work_chunk_le setting frame
  unfold receive at hreceive
  split at hreceive
  next hhead =>
    have hloop : loop.work = 5 := by simp [work, hhead, DirectPc.work]
    rw [hbytes, Option.map_some, Option.some.injEq, Prod.mk.injEq] at hreceive
    obtain ⟨rfl, _⟩ := hreceive
    rw [hloop]
    cases houtcome : (frameOutcome setting.read loop.books.manifest
        loop.books.pending loop.books.bytesDone frame).1 with
    | failed error =>
        simp only [afterFrame, Receiver.work]
        omega
    | skipped =>
        simp only [afterFrame, Receiver.work]
        exact (work_toHead_le _).trans_lt (by omega)
    | accepted index plaintext =>
        simp only [afterFrame, Receiver.work, work, DirectPc.work]
        omega
    | nack index =>
        have hdirty : ¬ frame.Clean setting := by
          intro hclean
          rw [hmanifest] at houtcome
          obtain hskipped | ⟨plaintext, haccepted⟩ :=
            hclean.frameOutcome hreads loop.books.pending loop.books.bytesDone
          · rw [hskipped] at houtcome
            contradiction
          · rw [haccepted] at houtcome
            contradiction
        simp only [afterFrame, Receiver.work, work, DirectPc.work, Item.work,
          if_neg hdirty]
        omega
  next => contradiction

theorem RelayLoop.work_receive {setting : NetworkSetting}
    (hreads : setting.Reads) {frame : Frame} {loop : RelayLoop}
    {receiver : RelayReceiver} {rest : Bytes} {bound : ℕ}
    (hmanifest : loop.books.manifest = setting.manifest)
    (hframed : frame.WellFramed bound)
    (hreceive : loop.receive setting.read setting.msgPack.decode
      (toBe 1 1 ++ frame.bytes) = some (receiver, rest)) :
    receiver.work work < loop.work + (Item.chunk frame).work setting := by
  have hbytes := recvMsg_frame_bytes setting.read setting.msgPack.decode
    hframed []
  rw [List.append_nil] at hbytes
  obtain ⟨hlow, _⟩ := Item.work_chunk_le setting frame
  unfold receive at hreceive
  split at hreceive
  next hhead =>
    have hloop : loop.work = 5 := by simp [work, hhead, RelayPc.work]
    rw [hbytes, Option.map_some, Option.some.injEq, Prod.mk.injEq] at hreceive
    obtain ⟨rfl, _⟩ := hreceive
    rw [hloop]
    simp only [outcomeOf]
    obtain hnack | ⟨plaintext, haccepted⟩ := relayOutcome_chunk setting.read
      loop.books.manifest frame.index (payload frame.subs)
    · have hdirty : ¬ frame.Clean setting := by
        intro hclean
        obtain ⟨plaintext, haccepted⟩ := hclean.relayOutcome hreads hframed
        rw [hmanifest, haccepted] at hnack
        contradiction
      rw [hnack]
      simp only [afterFrame, Receiver.work, work, RelayPc.work, Item.work,
        if_neg hdirty]
      omega
    · rw [haccepted]
      simp only [afterFrame, Receiver.work, work, RelayPc.work]
      omega
  next => contradiction

theorem directWork_laws {setting : NetworkSetting} (hreads : setting.Reads) :
    WorkLaws directNetwork setting (directWork setting.manifest) where
  start := Nat.le_refl _
  step := DirectSender.work_step
  hears := by
    intro sender message next output hstep
    obtain ⟨next', hreceived, hresult⟩ := Option.map_eq_some_iff.mp hstep
    cases hresult
    exact ⟨rfl, DirectSender.work_received hreceived⟩
  loop_start := fun _ => DirectLoop.work_toHead_le _
  proceed := DirectLoop.work_proceed
  receive := by
    intro frame loop receiver hmanifest hframed hreceive
    obtain ⟨⟨receiver', rest⟩, hloop, hresult⟩ :=
      Option.map_eq_some_iff.mp hreceive
    cases hresult
    exact DirectLoop.work_receive hreads hmanifest hframed hloop

theorem relayWork_laws {setting : NetworkSetting} (hreads : setting.Reads) :
    WorkLaws relayNetwork setting (relayWork setting.manifest) where
  start := Nat.le_refl _
  step := RelaySender.work_step
  hears := by
    intro sender message next output hstep
    obtain ⟨next', hreceived, hresult⟩ := Option.map_eq_some_iff.mp hstep
    cases hresult
    exact ⟨rfl, RelaySender.work_received hreceived⟩
  loop_start := fun _ => RelayLoop.work_toHead_le _
  proceed := RelayLoop.work_proceed
  receive := by
    intro frame loop receiver hmanifest hframed hreceive
    obtain ⟨⟨receiver', rest⟩, hloop, hresult⟩ :=
      Option.map_eq_some_iff.mp hreceive
    cases hresult
    exact RelayLoop.work_receive hreads hmanifest hframed hloop

/-! ## The work left in a network -/

/-- What a corruption adds. -/
def NetworkEvent.credit : NetworkEvent → ℕ
  | .corrupt _ _ _ => 9
  | _ => 0

namespace Network

variable {Sender Loop : Type} {kind : NetworkKind Sender Loop}
  {setting : NetworkSetting} {load : Workload Sender Loop}
  {s t : Network Sender Loop}

/-- What the sender holds is as long as the chunk it is of. -/
def Exact (kind : NetworkKind Sender Loop) (setting : NetworkSetting)
    (s : Network Sender Loop) : Prop :=
  ∀ index plaintext, kind.sender.holds s.sender index plaintext →
    plaintext.length = setting.manifest.sizeOf index

theorem exact_of_step (hlaws : kind.Laws setting) (hexact : Exact kind setting s)
    {event : SenderEvent} {next : Sender} {output : SenderOutput}
    (hstep : kind.sender.step setting.manifest s.sender event =
      some (next, output)) :
    ∀ index plaintext, kind.sender.holds next index plaintext →
      plaintext.length = setting.manifest.sizeOf index := by
  intro index plaintext hholds
  obtain hheld | ⟨file, _, hread⟩ :=
    (hlaws.sender.stepFacts_of_step hstep).holds index plaintext hholds
  · exact hexact index plaintext hheld
  · exact (readChunk_eq_some hread).1

theorem exact_next (hlaws : kind.Laws setting) (hexact : Exact kind setting s)
    {event : NetworkEvent} (hnext : next kind setting s event = some t) :
    Exact kind setting t := by
  cases moves_of_next hnext with
  | sends _ hstep =>
      unfold Exact
      rw [emit_sender]
      exact exact_of_step hlaws hexact hstep
  | hears _ hstep =>
      unfold Exact
      rw [emit_sender]
      exact exact_of_step hlaws hexact hstep
  | proceeds _ _ => exact hexact
  | receives _ _ => exact hexact
  | looksUp _ => exact hexact
  | reads _ _ _ => exact hexact
  | readsCtrl _ _ _ => exact hexact
  | corrupts _ _ => exact hexact

/-! ### Streams -/

noncomputable def itemsWork (setting : NetworkSetting) (items : List Item) : ℕ :=
  (items.map (Item.work setting)).sum

noncomputable def streamsWork (setting : NetworkSetting)
    (streams : Stream → List Item) : ℕ :=
  itemsWork setting (streams .control) + itemsWork setting (streams .data)

variable (setting) in
theorem streamsWork_update (streams : Stream → List Item) (stream : Stream)
    (items : List Item) :
    streamsWork setting (Function.update streams stream items) +
        itemsWork setting (streams stream) =
      streamsWork setting streams + itemsWork setting items := by
  cases stream with
  | control =>
      simp only [streamsWork, Function.update_self, ne_eq, reduceCtorEq,
        not_false_eq_true, Function.update_of_ne]
      omega
  | data =>
      simp only [streamsWork, Function.update_self, ne_eq, reduceCtorEq,
        not_false_eq_true, Function.update_of_ne]
      omega

theorem itemsWork_cons (item : Item) (rest : List Item) :
    itemsWork setting (item :: rest) =
      item.work setting + itemsWork setting rest := by
  rw [itemsWork, List.map_cons, List.sum_cons]
  rfl

theorem itemsWork_snoc (items : List Item) (item : Item) :
    itemsWork setting (items ++ [item]) =
      itemsWork setting items + item.work setting := by
  simp [itemsWork]

variable (setting) in
theorem itemsWork_set {items : List Item} {position : ℕ} {item : Item}
    (other : Item) (hitem : items[position]? = some item) :
    itemsWork setting (items.set position other) + item.work setting =
      itemsWork setting items + other.work setting := by
  induction items generalizing position with
  | nil => simp at hitem
  | cons first rest ih =>
      cases position with
      | zero =>
          simp only [List.getElem?_cons_zero, Option.some.injEq] at hitem
          subst first
          rw [List.set_cons_zero, itemsWork_cons, itemsWork_cons]
          omega
      | succ position =>
          have hrest := ih hitem
          rw [List.set_cons_succ, itemsWork_cons, itemsWork_cons]
          omega

/-! ### Steps -/

noncomputable def work (load : Workload Sender Loop) (setting : NetworkSetting)
    (s : Network Sender Loop) : ℕ :=
  load.sender s.sender + s.receiver.work load.loop +
    streamsWork setting s.streams + messagesWork s.reports

theorem streamsWork_emit {output : SenderOutput}
    (hclean : ∀ index plaintext, output = .frame index plaintext →
      plaintext.length = setting.manifest.sizeOf index) :
    streamsWork setting (s.emit kind setting output).streams =
      streamsWork setting s.streams + output.work := by
  cases output with
  | none => rfl
  | sealChunk index plaintext => rfl
  | finish => rfl
  | ctrl message =>
      have hupdate := streamsWork_update setting s.streams
        .control (s.streams .control ++ [.ctrl message])
      rw [itemsWork_snoc] at hupdate
      simp only [emit, push, SenderOutput.work, Item.work] at hupdate ⊢
      omega
  | frame index plaintext =>
      have hframe : (chunkFrame setting.noise index plaintext).Clean setting :=
        ⟨plaintext, hclean index plaintext rfl, rfl⟩
      have hupdate := streamsWork_update setting s.streams
        kind.dataStream (s.streams kind.dataStream ++
          [.chunk (chunkFrame setting.noise index plaintext)])
      rw [itemsWork_snoc] at hupdate
      simp only [emit, push, SenderOutput.work, Item.work, if_pos hframe]
        at hupdate ⊢
      omega

variable (setting) in
theorem streamsWork_pop {stream : Stream} {item : Item} {rest : List Item}
    (hstream : s.streams stream = item :: rest) :
    streamsWork setting (Function.update s.streams stream rest) +
        item.work setting = streamsWork setting s.streams := by
  have hupdate := streamsWork_update setting s.streams stream rest
  rw [hstream, itemsWork_cons] at hupdate
  omega

theorem work_proceeds (hload : WorkLaws kind setting load)
    {receiver : Receiver Loop} {output : ReceiverOutput}
    (hproceed : s.receiver.proceed kind.loop.toReceiveLoop setting.outputDir =
      some (receiver, output)) :
    receiver.work load.loop + messagesWork output.messages <
      s.receiver.work load.loop := by
  cases hreceiver : s.receiver with
  | setup setup =>
      rw [hreceiver] at hproceed
      obtain ⟨manifest, state, rfl, rfl, rfl⟩ | ⟨other, hsetup, rfl⟩ :=
        Receiver.setup_proceed hproceed
      · have hstart := hload.loop_start
          (.start setting.outputDir manifest state)
        simp only [Receiver.work, Setup.work, messagesWork,
          ReceiverOutput.messages, List.map_nil, List.sum_nil]
        omega
      · rw [Receiver.work_ofSetup]
        exact Receiver.work_setup hsetup
  | loop loop =>
      rw [hreceiver] at hproceed
      exact hload.proceed hproceed
  | returned books =>
      rw [hreceiver] at hproceed
      contradiction
  | failed error =>
      rw [hreceiver] at hproceed
      contradiction

theorem messagesWork_append (left right : List ControlMessage) :
    messagesWork (left ++ right) = messagesWork left + messagesWork right := by
  simp [messagesWork]

/-- Each step takes some of the work, and a corruption adds less than its
credit. -/
theorem work_next (hlaws : kind.Laws setting)
    (hload : WorkLaws kind setting load) (hsound : Sound kind setting s)
    (hexact : Exact kind setting s) {event : NetworkEvent}
    (hnext : next kind setting s event = some t) :
    t.work load setting < s.work load setting + event.credit := by
  cases moves_of_next hnext with
  | @sends event sender output hregular hstep =>
      have hless := hload.step hregular hstep
      have hstreams : streamsWork setting
          ({ s with sender }.emit kind setting output).streams =
            streamsWork setting s.streams + output.work := by
        apply streamsWork_emit
        rintro index plaintext rfl
        exact hexact index plaintext (hlaws.frame_holds hregular hstep)
      unfold work
      rw [hstreams, emit_sender, emit_receiver, emit_reports]
      dsimp only
      omega
  | @hears message reports sender output hreports hstep =>
      obtain ⟨rfl, hless⟩ := hload.hears hstep
      have hmessages : messagesWork s.reports =
          message.work + messagesWork reports := by
        rw [hreports, messagesWork, List.map_cons, List.sum_cons]
        rfl
      unfold work
      simp only [emit, hmessages]
      omega
  | @proceeds receiver output _ hproceed =>
      have hless := work_proceeds hload hproceed
      unfold work
      simp only [receiverMoves, messagesWork_append]
      omega
  | @receives item rest receiver result hstream hreceived =>
      have hle : receiver.work load.loop ≤ s.receiver.work load.loop :=
        Receiver.work_received hreceived
      have hitem := item.work_pos setting
      have hpop := streamsWork_pop setting hstream
      unfold work
      simp only [pop]
      omega
  | @looksUp receiver hlookup =>
      have hless : receiver.work load.loop < s.receiver.work load.loop :=
        Receiver.work_lookup hlookup
      unfold work
      dsimp only
      omega
  | @reads loop frame rest receiver hloop hstream hreceive =>
      have hknows := hsound.receiver
      rw [hloop] at hknows
      have hstage : s.receiver.stage = .answered := by
        rw [hloop]
        rfl
      have hframed := hsound.framed_of_answered hstage kind.dataStream
        (.chunk frame) (by rw [hstream]; exact List.mem_cons_self)
      have hless := hload.receive hknows.2.1 hframed hreceive
      have hpop := streamsWork_pop setting hstream
      have hbefore : s.receiver.work load.loop = load.loop loop := by
        rw [hloop]
        rfl
      unfold work
      simp only [pop]
      omega
  | readsCtrl hloop hstream _ =>
      exact (hsound.no_readsCtrl hloop hstream).elim
  | @corrupts stream position subs item other hitem hoverwrite =>
      obtain ⟨⟨frame, rfl⟩, hindices, _⟩ := Item.overwrite_eq_some hoverwrite
      obtain ⟨frame', rfl⟩ : ∃ frame', other = .chunk frame' := by
        cases other with
        | ctrl message => contradiction
        | chunk frame' => exact ⟨frame', rfl⟩
      have hset := itemsWork_set setting (.chunk frame') hitem
      have hupdate := streamsWork_update setting s.streams stream
        ((s.streams stream).set position (.chunk frame'))
      obtain ⟨hlow, _⟩ := Item.work_chunk_le setting frame
      obtain ⟨_, hhigh⟩ := Item.work_chunk_le setting frame'
      unfold work
      simp only [pop, NetworkEvent.credit]
      omega

/-- A transfer takes a bounded number of steps, and each corruption adds at most
nine. -/
theorem length_le_of_run (hlaws : kind.Laws setting)
    (hload : WorkLaws kind setting load) (hstart : Starts kind s)
    {events : List NetworkEvent}
    (hrun : (machine kind setting).runFrom s events = some t) :
    events.length ≤ 10 * setting.manifest.chunkCount + 21 +
      Machine.total NetworkEvent.credit events := by
  have hexact : Exact kind setting s := by
    intro index plaintext hholds
    rw [hstart.sender] at hholds
    exact absurd hholds (hlaws.sender.start_holds index plaintext)
  have hstep : ∀ u event v, Sound kind setting u ∧ Exact kind setting u →
      (machine kind setting).next u event = some v →
      (Sound kind setting v ∧ Exact kind setting v) ∧
        work load setting v < work load setting u + event.credit := by
    rintro u event v ⟨hsound, hexact⟩ hnext
    exact ⟨⟨sound_next hlaws hsound hnext, exact_next hlaws hexact hnext⟩,
      work_next hlaws hload hsound hexact hnext⟩
  have hlength := Machine.length_le_of_credit hrun
    ⟨sound_of_starts hlaws hstart, hexact⟩ hstep
  have hwork : s.work load setting ≤
      10 * setting.manifest.chunkCount + 21 := by
    have hsender := hload.start
    have hreceiver : s.receiver.work load.loop ≤ 14 := by
      rw [hstart.receiver]
      obtain hfirst | hfirst := hlaws.firstSetup
      · rw [hfirst]
        exact Nat.le_refl 14
      · rw [hfirst]
        exact Nat.le_succ 13
    unfold work
    simp only [streamsWork, hstart.streams, hstart.reports, hstart.sender]
    simp only [itemsWork, messagesWork, List.map_nil, List.sum_nil]
    omega
  omega

end Network

end P2pShare
