import P2pShare.RelayView

/-!
# Relay privacy

A relay transfer with the frames each party has written.  For two transfers with
the same number of frames and the same NACKs the masked streams are compared:
they show the lengths of the encoded manifest and reply, which chunks are sent
and how long they are, and in how many bytes each progress count fits.
-/

namespace P2pShare

open ByteStream PathResolution TransitionMachine

namespace NetworkSetting

variable (setting : NetworkSetting)

/-- The state with which the receive loop begins. -/
def startState : TransferState :=
  match setting.found with
  | some existing => existing
  | none =>
      .new setting.manifest (outputPathFor setting.outputDir setting.manifest)

def reply : ControlMessage :=
  match setting.found with
  | some existing => .resumeRequest existing.haveChunks
  | none => .manifestAck

/-- The chunks that are sent, in their order. -/
def missing : List ℕ := toSend setting.manifest setting.startState.chunksDone

/-- The count that is reported once these chunks have arrived. -/
def confirmed (delivered : List ℕ) : ℕ :=
  initialDone setting.manifest setting.startState +
    (delivered.map setting.manifest.sizeOf).sum

/-- The counts that are reported while these chunks arrive in this order. -/
def confirmedCounts (delivered : List ℕ) : List ℕ :=
  (List.range delivered.length).map fun position =>
    setting.confirmed (delivered.take (position + 1))

/-- The length of an encoded message. -/
def packed (message : ControlMessage) : ℕ :=
  (setting.msgPack.encode message).length

variable {setting}

theorem replySkip_reply :
    replySkip (.ok setting.reply) = .ok setting.startState.chunksDone := by
  unfold reply startState
  cases setting.found with
  | none => rfl
  | some existing =>
      simp only [replySkip, TransferState.haveChunks, Finset.sort_toFinset]

theorem startState_manifest : setting.startState.manifest = setting.manifest := by
  unfold startState
  cases hfound : setting.found with
  | none => rfl
  | some existing => exact setting.resumes existing hfound

theorem afterLookup_found :
    Setup.afterLookup setting.manifest setting.found =
        .reply setting.manifest setting.startState setting.reply ∨
      Setup.afterLookup setting.manifest setting.found =
          .createDir setting.manifest ∧
        setting.startState = .new setting.manifest
          (outputPathFor setting.outputDir setting.manifest) ∧
        setting.reply = .manifestAck := by
  unfold startState reply
  cases setting.found with
  | none => exact Or.inr ⟨rfl, rfl, rfl⟩
  | some existing => exact Or.inl rfl

theorem mem_missing {index : ℕ} :
    index ∈ setting.missing ↔ index ∈ setting.startState.missingChunks := by
  rw [missing, mem_toSend, TransferState.mem_missingChunks, startState_manifest]

theorem confirmedCounts_concat (delivered : List ℕ) (index : ℕ) :
    setting.confirmedCounts (delivered ++ [index]) =
      setting.confirmedCounts delivered ++
        [setting.confirmed (delivered ++ [index])] := by
  unfold confirmedCounts
  rw [List.length_append, List.length_singleton, List.range_succ,
    List.map_append]
  congr 1
  · apply List.map_congr_left
    intro position hposition
    have hlt := List.mem_range.mp hposition
    rw [List.take_append_of_le_length hlt]
  · have hall : (delivered ++ [index]).take (delivered.length + 1) =
        delivered ++ [index] :=
      List.take_of_length_le (by simp)
    rw [List.map_singleton, hall]

theorem confirmed_concat (delivered : List ℕ) (index : ℕ) :
    setting.confirmed (delivered ++ [index]) =
      setting.confirmed delivered + setting.manifest.sizeOf index := by
  unfold confirmed
  rw [List.map_append, List.sum_append, List.map_singleton, List.sum_singleton,
    Nat.add_assoc]

end NetworkSetting

/-! ## A transfer and its frames -/

structure ObservedTransfer where
  network : Network RelaySender RelayLoop
  forward : List RelayFrame
  backward : List ControlMessage

/-- The control loop of the relay sender writes the frame. -/
def SenderEvent.fromCtrlLoop : SenderEvent → Bool
  | .ctrlProceed => true
  | _ => false

namespace ObservedTransfer

variable (setting : NetworkSetting)

def framesOf (move : SenderEvent) : SenderOutput → List RelayFrame
  | .ctrl message => [.ctrl message]
  | .frame index plaintext => [.chunk index plaintext move.fromCtrlLoop]
  | .none | .sealChunk _ _ | .finish => []

def senderWrites (s : ObservedTransfer) (move : SenderEvent) :
    List RelayFrame :=
  match s.network.sender.step setting.manifest move with
  | some (_, output) => framesOf move output
  | none => []

def receiverWrites (s : ObservedTransfer) : List ControlMessage :=
  match s.network.receiver.proceed relayKind setting.outputDir with
  | some (_, output) => output.messages
  | none => []

def next (s : ObservedTransfer) (event : NetworkEvent) :
    Option ObservedTransfer :=
  (Network.next relayNetwork setting s.network event).map fun network =>
    match event with
    | .sender move =>
        { s with network, forward := s.forward ++ s.senderWrites setting move }
    | .receiverProceeds =>
        { s with network, backward := s.backward ++ s.receiverWrites setting }
    | _ => { s with network }

structure Starts (s : ObservedTransfer) : Prop where
  network : Network.Starts relayNetwork s.network
  forward : s.forward = []
  backward : s.backward = []

def machine : Machine ObservedTransfer NetworkEvent where
  start := Starts
  next := next setting

/-! ### What the relay compares -/

/-- The masked bytes in the two directions. -/
def view (s : ObservedTransfer) : Option Bytes × Option Bytes :=
  (streamBytes maskedNoise setting.msgPack 0 s.forward,
    streamBytes maskedNoise setting.msgPack 0 (s.backward.map .ctrl))

/-- Both parties have returned, and every message was encrypted. -/
structure Completed (s : ObservedTransfer) : Prop where
  sender : ∃ bytesDone, s.network.sender = .returned bytesDone
  receiver : ∃ books, s.network.receiver = .returned books
  forward : (s.view setting).1.isSome
  backward : (s.view setting).2.isSome

/-- The chunk that a retransmission or a NACK names. -/
def answered : RelayFrame → Option ℕ
  | .chunk index _ true => some index
  | _ => none

def nacked : ControlMessage → Option ℕ
  | .chunkNack index => some index
  | _ => none

/-- The transfers have the same number of frames in each direction, and the same
NACKs and retransmissions in the same places. -/
structure SamePattern (s t : ObservedTransfer) : Prop where
  forward : s.forward.map answered = t.forward.map answered
  backward : s.backward.map nacked = t.backward.map nacked

/-- The files, and what the receivers already have of them, agree in all that
the relay can see. -/
structure Alike (a b : NetworkSetting) (s t : ObservedTransfer) : Prop where
  manifest : a.packed (.manifest a.manifest) = b.packed (.manifest b.manifest)
  reply : a.packed a.reply = b.packed b.reply
  missing : a.missing = b.missing
  sizes : ∀ index ∈ a.missing,
    a.manifest.sizeOf index = b.manifest.sizeOf index
  progress :
    (a.confirmedCounts s.network.delivered).map
        (fun bytes => a.packed (.progress bytes)) =
      (b.confirmedCounts t.network.delivered).map
        (fun bytes => b.packed (.progress bytes))

/-! ## What the parties have written -/

/-- The chunks of the first pass, in order. -/
def firstPass (frames : List RelayFrame) : List ℕ :=
  frames.filterMap fun frame =>
    match frame with
    | .chunk index _ false => some index
    | _ => none

def progressCounts (messages : List ControlMessage) : List ℕ :=
  messages.filterMap fun message =>
    match message with
    | .progress bytes => some bytes
    | _ => none

/-- A frame of a chunk that is sent, of the size the manifest gives it. -/
def SizedChunk : RelayFrame → Prop
  | .chunk index plaintext _ =>
      index ∈ setting.missing ∧
        plaintext.length = setting.manifest.sizeOf index
  | .ctrl _ => False

def SizedWorker (worker : Worker) : Prop :=
  ∀ index plaintext, worker = .writing index plaintext →
    plaintext.length = setting.manifest.sizeOf index

def SenderWrote (forward : List RelayFrame) : RelaySender → Prop
  | .greet => forward = []
  | .awaitReply => forward = [.ctrl (.manifest setting.manifest)]
  | .transfer state =>
      (∃ chunks, forward = .ctrl (.manifest setting.manifest) :: chunks ∧
        (∀ frame ∈ chunks, SizedChunk setting frame) ∧
        firstPass chunks ++
            (state.sendWorker.reads ++ state.sendWorker.writes) ++ state.todo =
          setting.missing) ∧
        SizedWorker setting state.sendWorker ∧
        SizedWorker setting state.ctrlWorker
  | .returned _ =>
      ∃ chunks, forward = .ctrl (.manifest setting.manifest) :: chunks ∧
        (∀ frame ∈ chunks, SizedChunk setting frame) ∧
        firstPass chunks = setting.missing
  | .failed _ => True

/-- The NACKs and progress reports of the receive loop. -/
structure Reported (reports : List ControlMessage) (counts : List ℕ) : Prop where
  kinds : ∀ message ∈ reports, message ≠ .complete ∧ IsReport message
  progress : progressCounts reports = counts

/-- The messages of a loop, with the report that is about to be sent. -/
structure LoopWrote (backward : List ControlMessage) (delivered : List ℕ)
    (loop : RelayLoop) : Prop where
  confirmed : loop.books.confirmed = setting.confirmed delivered
  sized : ∀ index plaintext, loop.pc = .write index plaintext →
    plaintext.length = setting.manifest.sizeOf index
  wrote : ∃ reports counts,
    backward = setting.reply :: reports ++
        (if loop.pc = .delete then [.complete] else []) ∧
      Reported reports counts ∧
      counts ++ (if loop.pc = .ack then [loop.books.confirmed] else []) =
        setting.confirmedCounts delivered

def ReceiverWrote (backward : List ControlMessage) (delivered : List ℕ) :
    RelayReceiver → Prop
  | .setup (.reply _ state message) =>
      backward = [] ∧ delivered = [] ∧ state = setting.startState ∧
        message = setting.reply
  | .setup (.openFile _ state) | .setup (.ready _ state) =>
      backward = [setting.reply] ∧ delivered = [] ∧
        state = setting.startState
  | .setup .acceptBi | .setup .recvManifest | .setup (.lookup _) =>
      backward = [] ∧ delivered = []
  | .setup (.createDir _) | .setup (.create _) | .setup (.setLen _) =>
      backward = [] ∧ delivered = [] ∧
        setting.startState = .new setting.manifest
          (outputPathFor setting.outputDir setting.manifest) ∧
        setting.reply = .manifestAck
  | .setup .reject | .setup (.failed _) | .failed _ => True
  | .loop loop => LoopWrote setting backward delivered loop
  | .returned _ =>
      ∃ reports, backward = setting.reply :: reports ++ [.complete] ∧
        Reported reports (setting.confirmedCounts delivered)

structure Wrote (s : ObservedTransfer) : Prop where
  sender : SenderWrote setting s.forward s.network.sender
  receiver : ReceiverWrote setting s.backward s.network.delivered
    s.network.receiver
  unheard : s.network.sender = .greet ∨ s.network.sender = .awaitReply →
    s.network.reports = s.backward
  outstanding : ∀ index ∈ s.network.receiver.outstanding RelayLoop.books,
    index ∈ setting.missing

/-! ## Steps of the sender -/

section Sender

variable {setting : NetworkSetting} {forward : List RelayFrame}
  {sender next : RelaySender} {state : RelayTransfer} {output : SenderOutput}

theorem firstPass_append (left right : List RelayFrame) :
    firstPass (left ++ right) = firstPass left ++ firstPass right :=
  List.filterMap_append ..

theorem sizedWorker_idle : SizedWorker setting .idle := by
  intro index plaintext hidle
  contradiction

theorem sizedWorker_reading (index : ℕ) :
    SizedWorker setting (.reading index) := by
  intro other plaintext hreading
  contradiction

/-- The transfer goes on, and the frames of the step have been written. -/
theorem senderWrote_transfer {next : RelayTransfer} {fresh : List RelayFrame}
    (hwrote : SenderWrote setting forward (.transfer state))
    (hsized : ∀ frame ∈ fresh, SizedChunk setting frame)
    (hpass : firstPass fresh ++
        (next.sendWorker.reads ++ next.sendWorker.writes) ++ next.todo =
      (state.sendWorker.reads ++ state.sendWorker.writes) ++ state.todo)
    (hsend : SizedWorker setting next.sendWorker)
    (hctrl : SizedWorker setting next.ctrlWorker) :
    SenderWrote setting (forward ++ fresh) (.transfer next) := by
  rcases hwrote.1 with ⟨chunks, rfl, hchunks, hmissing⟩
  refine ⟨⟨chunks ++ fresh, rfl, ?_, ?_⟩, hsend, hctrl⟩
  · intro frame hframe
    rcases List.mem_append.mp hframe with hold | hnew
    · exact hchunks frame hold
    · exact hsized frame hnew
  · rw [← hmissing, firstPass_append]
    simp only [List.append_assoc] at hpass ⊢
    rw [hpass]

theorem senderWrote_proceed
    (hmissing : ∀ index, 0 < sender.copies.count index →
      index ∈ setting.missing)
    (hwrote : SenderWrote setting forward sender)
    (hproceed : sender.proceed setting.manifest = some (next, output)) :
    SenderWrote setting (forward ++ framesOf .proceed output) next := by
  cases sender with
  | greet =>
      cases hproceed
      have hempty : forward = [] := hwrote
      subst hempty
      rfl
  | awaitReply => contradiction
  | returned bytesDone => contradiction
  | failed error => contradiction
  | transfer state =>
      unfold RelaySender.proceed at hproceed
      dsimp only at hproceed
      split at hproceed
      next index rest hworker htodo =>
        cases hproceed
        apply senderWrote_transfer hwrote
        · intro frame hframe
          contradiction
        · simp [framesOf, firstPass, hworker, htodo, Worker.reads, Worker.writes]
        · exact sizedWorker_reading index
        · exact hwrote.2.2
      next hworker htodo =>
        split at hproceed
        · cases hproceed
          rcases hwrote.1 with ⟨chunks, rfl, hchunks, hpass⟩
          refine ⟨chunks, List.append_nil _, hchunks, ?_⟩
          rw [← hpass]
          simp [hworker, htodo, Worker.reads, Worker.writes]
        · contradiction
      next =>
        rcases Option.map_eq_some_iff.mp hproceed with
          ⟨⟨worker, output'⟩, hwrite, hresult⟩
        cases hresult
        cases hworker : state.sendWorker with
        | idle =>
            rw [hworker] at hwrite
            contradiction
        | reading index =>
            rw [hworker] at hwrite
            contradiction
        | writing index plaintext =>
            rw [hworker] at hwrite
            cases hwrite
            have hcopy : 0 < (RelaySender.transfer state).copies.count index := by
              simp [RelaySender.copies, RelayTransfer.count_copies, hworker,
                Worker.holds, Worker.reads, Worker.writes]
            apply senderWrote_transfer hwrote
            · intro frame hframe
              rw [framesOf, List.mem_singleton] at hframe
              subst hframe
              exact ⟨hmissing index hcopy, hwrote.2.1 index plaintext hworker⟩
            · simp [framesOf, firstPass, hworker, Worker.reads, Worker.writes,
                SenderEvent.fromCtrlLoop]
            · exact sizedWorker_idle
            · exact hwrote.2.2

/-- A worker that has read its chunk. -/
theorem sizedWorker_read {worker worker' : Worker} {file : Bytes}
    (hread : worker.read setting.manifest file = some (some (worker', output))) :
    SizedWorker setting worker' ∧ (∀ move, framesOf move output = []) ∧
      worker'.reads ++ worker'.writes = worker.reads ++ worker.writes := by
  cases worker with
  | idle => contradiction
  | writing index plaintext => contradiction
  | reading index =>
      simp only [Worker.read, Option.some.injEq, Option.map_eq_some_iff] at hread
      rcases hread with ⟨plaintext, hchunk, hresult⟩
      cases hresult
      refine ⟨?_, fun _ => rfl, rfl⟩
      intro index' plaintext' hwriting
      cases hwriting
      exact (readChunk_eq_some hchunk).1

theorem senderWrote_step {move : SenderEvent}
    (hregular : move.regular setting.manifestSource.totalSize = true)
    (hmissing : ∀ index, 0 < sender.copies.count index →
      index ∈ setting.missing)
    (hwrote : SenderWrote setting forward sender)
    (hstep : sender.step setting.manifest move = some (next, output)) :
    SenderWrote setting (forward ++ framesOf move output) next := by
  cases move with
  | received result => contradiction
  | fail error effect => contradiction
  | proceed => exact senderWrote_proceed hmissing hwrote hstep
  | read file =>
      cases sender with
      | transfer state =>
          rcases Option.map_eq_some_iff.mp hstep with ⟨result, hread, hafter⟩
          cases result with
          | none =>
              cases hafter
              trivial
          | some found =>
              rcases found with ⟨worker, output'⟩
              cases hafter
              rcases sizedWorker_read hread with ⟨hsized, hframes, hindices⟩
              rw [hframes]
              apply senderWrote_transfer hwrote
              · intro frame hframe
                contradiction
              · simp only [firstPass, List.filterMap_nil, List.nil_append,
                  hindices]
              · exact hsized
              · exact hwrote.2.2
      | _ => contradiction
  | ctrlProceed =>
      cases sender with
      | transfer state =>
          rcases Option.map_eq_some_iff.mp hstep with
            ⟨⟨worker, output'⟩, hwrite, hresult⟩
          cases hresult
          cases hworker : state.ctrlWorker with
          | idle =>
              rw [hworker] at hwrite
              contradiction
          | reading index =>
              rw [hworker] at hwrite
              contradiction
          | writing index plaintext =>
              rw [hworker] at hwrite
              cases hwrite
              have hcopy :
                  0 < (RelaySender.transfer state).copies.count index := by
                simp [RelaySender.copies, RelayTransfer.count_copies, hworker,
                  Worker.holds, Worker.reads, Worker.writes]
              apply senderWrote_transfer hwrote
              · intro frame hframe
                rw [framesOf, List.mem_singleton] at hframe
                subst hframe
                exact ⟨hmissing index hcopy, hwrote.2.2 index plaintext hworker⟩
              · simp [framesOf, firstPass, SenderEvent.fromCtrlLoop]
              · exact hwrote.2.1
              · exact sizedWorker_idle
      | _ => contradiction
  | ctrlRead file =>
      cases sender with
      | transfer state =>
          rcases Option.map_eq_some_iff.mp hstep with ⟨result, hread, hafter⟩
          cases result with
          | none =>
              cases hafter
              trivial
          | some found =>
              rcases found with ⟨worker, output'⟩
              cases hafter
              rcases sizedWorker_read hread with ⟨hsized, hframes, _⟩
              rw [hframes]
              apply senderWrote_transfer hwrote
              · intro frame hframe
                contradiction
              · rfl
              · exact hwrote.2.1
              · exact hsized
      | _ => contradiction

/-- The reply sets the chunks of the first pass; a later message may hand the
control loop a chunk. -/
theorem senderWrote_received {message : ControlMessage}
    (hreply : sender = .awaitReply → message = setting.reply)
    (hwrote : SenderWrote setting forward sender)
    (hstep : sender.step setting.manifest (.received (.ok message)) =
      some (next, output)) :
    SenderWrote setting forward next := by
  rcases Option.map_eq_some_iff.mp hstep with ⟨next', hreceived, hresult⟩
  cases hresult
  cases sender with
  | greet => contradiction
  | returned bytesDone => contradiction
  | failed error => contradiction
  | awaitReply =>
      have hskip := @NetworkSetting.replySkip_reply setting
      rw [hreply rfl] at hreceived
      simp only [RelaySender.received, hskip, Option.some.injEq] at hreceived
      subst hreceived
      have hforward : forward = [.ctrl (.manifest setting.manifest)] := hwrote
      refine ⟨⟨[], hforward, ?_, rfl⟩, sizedWorker_idle, sizedWorker_idle⟩
      intro frame hframe
      contradiction
  | transfer state =>
      simp only [RelaySender.received] at hreceived
      split at hreceived
      next =>
        cases hreceived
        cases message with
        | chunkNack index =>
            exact ⟨hwrote.1, hwrote.2.1, sizedWorker_reading index⟩
        | error code text => trivial
        | _ => exact hwrote
      next => contradiction

end Sender

/-! ## Steps of the receiver -/

section Receiver

variable {setting : NetworkSetting} {backward : List ControlMessage}
  {delivered : List ℕ} {loop next : RelayLoop} {receiver : RelayReceiver}
  {output : ReceiverOutput}

/-- Nothing is held and no report is due. -/
def Calm (loop : RelayLoop) : Prop :=
  loop.pc ≠ .delete ∧ loop.pc ≠ .ack ∧
    ∀ index plaintext, loop.pc ≠ .write index plaintext

theorem calm_toHead (loop : RelayLoop) : Calm loop.toHead := by
  unfold Calm
  rcases loop.toHead_cases with ⟨hpc, _⟩ | hpc
  · simp [hpc]
  · simp [hpc]

theorem calm_afterAck (loop : RelayLoop) : Calm loop.afterAck := by
  rcases loop.afterAck_cases with hsave | hhead
  · simp [Calm, hsave]
  · rw [hhead]
    exact calm_toHead loop

theorem append_messages_of_silent
    (hsilent : ∀ message, output ≠ .ctrl message) :
    backward ++ output.messages = backward := by
  cases output with
  | ctrl message => exact absurd rfl (hsilent message)
  | _ => exact List.append_nil backward

theorem progressCounts_append (left right : List ControlMessage) :
    progressCounts (left ++ right) =
      progressCounts left ++ progressCounts right :=
  List.filterMap_append ..

theorem Reported.append {reports messages : List ControlMessage}
    {counts fresh : List ℕ} (hreported : Reported reports counts)
    (hkinds : ∀ message ∈ messages, message ≠ .complete ∧ IsReport message)
    (hfresh : progressCounts messages = fresh) :
    Reported (reports ++ messages) (counts ++ fresh) where
  kinds := by
    intro message hmessage
    rcases List.mem_append.mp hmessage with hold | hnew
    · exact hreported.kinds message hold
    · exact hkinds message hnew
  progress := by
    rw [progressCounts_append, hreported.progress, hfresh]

/-- A step that reports nothing but NACKs and delivers nothing. -/
theorem LoopWrote.calm {messages : List ControlMessage}
    (hwrote : LoopWrote setting backward delivered loop)
    (hbooks : next.books = loop.books) (hpc : loop.pc ≠ .delete)
    (hack : loop.pc ≠ .ack) (hcalm : Calm next)
    (hkinds : ∀ message ∈ messages, message ≠ .complete ∧ IsReport message)
    (hcounts : progressCounts messages = []) :
    LoopWrote setting (backward ++ messages) delivered next := by
  rcases hwrote.wrote with ⟨reports, counts, hbackward, hreported, htotal⟩
  rw [if_neg hpc, List.append_nil] at hbackward
  rw [if_neg hack, List.append_nil] at htotal
  have hmore := hreported.append hkinds hcounts
  rw [List.append_nil] at hmore
  refine ⟨?_, ?_, reports ++ messages, counts, ?_, hmore, ?_⟩
  · rw [hbooks]
    exact hwrote.confirmed
  · intro index plaintext hwrite
    exact absurd hwrite (hcalm.2.2 index plaintext)
  · rw [hbackward, if_neg hcalm.1, List.append_nil, List.cons_append]
  · rw [if_neg hcalm.2.1, List.append_nil, htotal]

theorem receiverWrote_loop
    (hwrote : LoopWrote setting backward delivered loop)
    (hproceed : loop.proceed = some (receiver, output)) :
    ReceiverWrote setting (backward ++ output.messages)
      (delivered ++ loop.delivers) receiver := by
  unfold RelayLoop.proceed at hproceed
  split at hproceed
  next => contradiction
  next index hpc =>
    cases hproceed
    have hnone : loop.delivers = [] := by simp [RelayLoop.delivers, hpc]
    rw [hnone, List.append_nil]
    apply hwrote.calm
    · rfl
    · simp [hpc]
    · simp [hpc]
    · exact calm_toHead loop
    · simp [ReceiverOutput.messages, IsReport]
    · rfl
  next index plaintext hpc =>
    cases hproceed
    have hone : loop.delivers = [index] := by simp [RelayLoop.delivers, hpc]
    have hlength := hwrote.sized index plaintext hpc
    rcases hwrote.wrote with ⟨reports, counts, hbackward, hreported, htotal⟩
    rw [if_neg (by simp [hpc]), List.append_nil] at hbackward
    rw [if_neg (by simp [hpc]), List.append_nil] at htotal
    have hconfirmed : loop.books.confirmed + plaintext.length =
        setting.confirmed (delivered ++ [index]) := by
      rw [hwrote.confirmed, hlength, NetworkSetting.confirmed_concat]
    rw [hone]
    refine ⟨hconfirmed, ?_, reports, counts, ?_, hreported, ?_⟩
    · intro other bytes hwrite
      contradiction
    · rw [hbackward, append_messages_of_silent (by simp)]
      exact (List.append_nil _).symm
    · rw [NetworkSetting.confirmedCounts_concat, htotal, ← hconfirmed]
      rfl
  next hpc =>
    cases hproceed
    have hnone : loop.delivers = [] := by simp [RelayLoop.delivers, hpc]
    have hcalm := calm_afterAck loop
    rcases hwrote.wrote with ⟨reports, counts, hbackward, hreported, htotal⟩
    rw [if_neg (by simp [hpc]), List.append_nil] at hbackward
    rw [if_pos hpc] at htotal
    rw [hnone, List.append_nil]
    refine ⟨?_, ?_, reports ++ [.progress loop.books.confirmed],
      counts ++ [loop.books.confirmed], ?_, ?_, ?_⟩
    · rw [RelayLoop.afterAck_books]
      exact hwrote.confirmed
    · intro index plaintext hwrite
      exact absurd hwrite (hcalm.2.2 index plaintext)
    · rw [hbackward, if_neg hcalm.1, List.append_nil]
      rfl
    · exact hreported.append (by simp [IsReport]) rfl
    · rw [if_neg hcalm.2.1, List.append_nil, htotal]
  next hpc =>
    cases hproceed
    have hnone : loop.delivers = [] := by simp [RelayLoop.delivers, hpc]
    rw [hnone, List.append_nil]
    apply hwrote.calm
    · rfl
    · simp [hpc]
    · simp [hpc]
    · exact calm_toHead loop
    · simp [ReceiverOutput.messages]
    · rfl
  next hpc =>
    cases hproceed
    have hnone : loop.delivers = [] := by simp [RelayLoop.delivers, hpc]
    rw [hnone, List.append_nil]
    apply hwrote.calm
    · rfl
    · simp [hpc]
    · simp [hpc]
    · simp [Calm]
    · simp [ReceiverOutput.messages]
    · rfl
  next hpc =>
    cases hproceed
    have hnone : loop.delivers = [] := by simp [RelayLoop.delivers, hpc]
    rcases hwrote.wrote with ⟨reports, counts, hbackward, hreported, htotal⟩
    rw [if_neg (by simp [hpc]), List.append_nil] at hbackward
    rw [if_neg (by simp [hpc]), List.append_nil] at htotal
    rw [hnone, List.append_nil]
    refine ⟨hwrote.confirmed, ?_, reports, counts, ?_, hreported, ?_⟩
    · intro index plaintext hwrite
      contradiction
    · rw [hbackward, if_pos rfl]
      rfl
    · rw [if_neg (by simp), List.append_nil, htotal]
  next hpc =>
    cases hproceed
    have hnone : loop.delivers = [] := by simp [RelayLoop.delivers, hpc]
    rcases hwrote.wrote with ⟨reports, counts, hbackward, hreported, htotal⟩
    rw [if_pos hpc] at hbackward
    rw [if_neg (by simp [hpc]), List.append_nil] at htotal
    rw [hnone, List.append_nil, append_messages_of_silent (by simp)]
    exact ⟨reports, hbackward, by rw [← htotal]; exact hreported⟩

theorem receiverWrote_setup {setup : Setup}
    (hsound : Receiver.Sound relayLoopKind setting.manifest (.setup setup))
    (hwrote : ReceiverWrote setting backward delivered (.setup setup))
    (hproceed : Receiver.proceed relayKind setting.outputDir (.setup setup) =
      some (receiver, output)) :
    ReceiverWrote setting (backward ++ output.messages) delivered receiver := by
  cases setup with
  | acceptBi =>
      cases hproceed
      rw [append_messages_of_silent (by simp)]
      exact hwrote
  | recvManifest => contradiction
  | reject =>
      cases hproceed
      trivial
  | lookup manifest => contradiction
  | createDir manifest =>
      cases hproceed
      rw [append_messages_of_silent (by simp)]
      exact hwrote
  | create manifest =>
      cases hproceed
      rw [append_messages_of_silent (by simp)]
      exact hwrote
  | setLen manifest =>
      cases hproceed
      have hmanifest : manifest = setting.manifest := hsound
      subst hmanifest
      rcases hwrote with ⟨hbackward, hdelivered, hstart, hreply⟩
      rw [append_messages_of_silent (by simp)]
      exact ⟨hbackward, hdelivered, hstart.symm, hreply.symm⟩
  | reply manifest state message =>
      cases hproceed
      rcases hwrote with ⟨hbackward, hdelivered, hstate, hmessage⟩
      refine ⟨?_, hdelivered, hstate⟩
      rw [hbackward, hmessage]
      rfl
  | openFile manifest state =>
      cases hproceed
      rw [append_messages_of_silent (by simp)]
      exact hwrote
  | ready manifest state =>
      cases hproceed
      rcases hsound with ⟨hmanifest, _⟩
      rcases hwrote with ⟨hbackward, hdelivered, hstate⟩
      have hcalm := calm_toHead
        ⟨Books.start setting.outputDir manifest state, .head⟩
      rw [append_messages_of_silent (by simp), hbackward, hdelivered]
      refine ⟨?_, ?_, [], [], ?_, ⟨?_, rfl⟩, ?_⟩
      · rw [hmanifest, hstate]
        rfl
      · intro index plaintext hwrite
        exact absurd hwrite (hcalm.2.2 index plaintext)
      · exact (congrArg _ (if_neg hcalm.1)).symm
      · intro message hmessage
        contradiction
      · exact if_neg hcalm.2.1
  | failed error => contradiction

theorem receiverWrote_received {result : Except Error ControlMessage}
    (hwrote : ReceiverWrote setting backward delivered receiver)
    {receiver' : RelayReceiver}
    (hreceived : receiver.received result = some receiver') :
    ReceiverWrote setting backward delivered receiver' := by
  cases receiver with
  | loop loop => contradiction
  | returned books => contradiction
  | failed error => contradiction
  | setup setup =>
      cases setup with
      | recvManifest =>
          cases hreceived
          cases result with
          | error error => trivial
          | ok message =>
              cases message with
              | manifest manifest =>
                  unfold Setup.afterManifest
                  dsimp only
                  cases manifest.transferMode with
                  | bulk => exact hwrote
                  | streaming config => trivial
              | _ => trivial
      | _ => contradiction

theorem receiverWrote_lookup {receiver' : RelayReceiver}
    (hsound : receiver.Sound relayLoopKind setting.manifest)
    (hwrote : ReceiverWrote setting backward delivered receiver)
    (hlookup : receiver.lookup setting.outputDir setting.pathExists
      setting.files = some receiver') :
    ReceiverWrote setting backward delivered receiver' := by
  cases receiver with
  | loop loop => contradiction
  | returned books => contradiction
  | failed error => contradiction
  | setup setup =>
      cases setup with
      | lookup manifest =>
          have hmanifest : manifest = setting.manifest := hsound
          subst hmanifest
          rcases hwrote with ⟨hbackward, hdelivered⟩
          have hfound : Receiver.ofSetup (Setup.afterLookup setting.manifest
              setting.found) = receiver' :=
            Option.some.inj hlookup
          rcases @NetworkSetting.afterLookup_found setting with
            hreply | ⟨hcreate, hstart, hreply⟩
          · rw [hreply] at hfound
            subst hfound
            exact ⟨hbackward, hdelivered, rfl, rfl⟩
          · rw [hcreate] at hfound
            subst hfound
            exact ⟨hbackward, hdelivered, hstart, hreply⟩
      | _ => contradiction

theorem receiverWrote_receive {read : ℕ → Bytes → Option Bytes}
    {decode : Bytes → Option ControlMessage} {input rest : Bytes}
    (hmanifest : loop.books.manifest = setting.manifest)
    (hwrote : LoopWrote setting backward delivered loop)
    (hreceive : loop.receive read decode input = some (receiver, rest)) :
    ReceiverWrote setting backward delivered receiver := by
  have hfacts := RelayLoop.receive_cases hreceive
  unfold RelayLoop.receive at hreceive
  split at hreceive
  next hpc =>
    rcases Option.map_eq_some_iff.mp hreceive with
      ⟨⟨result, rest'⟩, hmessage, hresult⟩
    cases hresult
    have hdelete : loop.pc ≠ .delete := by simp [hpc]
    have hack : loop.pc ≠ .ack := by simp [hpc]
    have hquiet : ∀ next : RelayLoop, next.books = loop.books → Calm next →
        LoopWrote setting backward delivered next := by
      intro next hbooks hcalm
      have hcalmed := hwrote.calm hbooks hdelete hack hcalm
        (fun message hmessage => absurd hmessage List.not_mem_nil) rfl
      rw [List.append_nil] at hcalmed
      exact hcalmed
    cases houtcome : RelayLoop.outcomeOf read loop.books.manifest result with
    | failed error => trivial
    | skipped => exact hquiet _ rfl (calm_toHead loop)
    | nack index => exact hquiet _ rfl (by simp [Calm])
    | accepted index plaintext =>
        rw [houtcome] at hfacts
        rcases hfacts with ⟨error, hfailed⟩ | ⟨next, hnext, _, hfacts⟩
        · contradiction
        · cases hnext
          have hlength := hfacts.holding index plaintext rfl
          rcases hwrote.wrote with ⟨reports, counts, hbackward, hreported, htotal⟩
          rw [if_neg hdelete] at hbackward
          rw [if_neg hack] at htotal
          refine ⟨hwrote.confirmed, ?_, reports, counts, hbackward, hreported,
            htotal⟩
          intro index' plaintext' hwrite
          cases hwrite
          rw [← hmanifest]
          exact hlength.1
  next => contradiction

end Receiver

/-! ## Steps of the transfer -/

section Transfer

variable {setting : NetworkSetting} {s t : ObservedTransfer}

/-- Before the receive loop a receiver misses what it is sent. -/
theorem mem_missing_of_setup {setup : Setup} {backward : List ControlMessage}
    {delivered : List ℕ} {index : ℕ}
    (hwrote : ReceiverWrote setting backward delivered (.setup setup))
    (hindex : index ∈
      Receiver.outstanding RelayLoop.books (.setup setup)) :
    index ∈ setting.missing := by
  rw [NetworkSetting.mem_missing, ← List.mem_toFinset]
  cases setup with
  | reply manifest state message =>
      rw [← hwrote.2.2.1]
      exact hindex
  | openFile manifest state =>
      rw [← hwrote.2.2]
      exact hindex
  | ready manifest state =>
      rw [← hwrote.2.2]
      exact hindex
  | _ => exact absurd hindex (Finset.notMem_empty index)

theorem mem_missing_of_copy
    (hsound : Network.Sound relayNetwork setting s.network)
    (hs : Wrote setting s) {index : ℕ}
    (hcopy : 0 < s.network.sender.copies.count index) :
    index ∈ setting.missing := by
  apply hs.outstanding
  apply hsound.mem_outstanding
  have hcount := @Network.count_allCopies _ _ relayNetwork setting s.network index
  have hsender : (relayNetwork.copies setting.manifest
      s.network.sender).count index = s.network.sender.copies.count index := rfl
  omega

/-- A sender that has heard a message has its reply. -/
theorem heard_of_received {sender next : RelaySender}
    {message : ControlMessage} {output : SenderOutput}
    (hstep : sender.step setting.manifest (.received (.ok message)) =
      some (next, output)) :
    output = .none ∧ ¬ (next = .greet ∨ next = .awaitReply) := by
  rcases Option.map_eq_some_iff.mp hstep with ⟨next', hreceived, hresult⟩
  cases hresult
  refine ⟨rfl, ?_⟩
  cases sender with
  | awaitReply =>
      simp only [RelaySender.received] at hreceived
      split at hreceived <;> cases hreceived <;> simp
  | transfer state =>
      simp only [RelaySender.received] at hreceived
      split at hreceived
      · cases hreceived
        cases message <;> simp [RelaySender.ctrlMessage]
      · contradiction
  | _ => contradiction

theorem wrote_sender (hsound : Network.Sound relayNetwork setting s.network)
    (hs : Wrote setting s) {move : SenderEvent} {sender : RelaySender}
    {output : SenderOutput}
    (hregular : move.regular setting.manifestSource.totalSize = true)
    (hstep : s.network.sender.step setting.manifest move =
      some (sender, output)) :
    Wrote setting
      { s with
        network := { s.network with sender }.emit relayNetwork setting output
        forward := s.forward ++ s.senderWrites setting move } := by
  have hwrites : s.senderWrites setting move = framesOf move output := by
    unfold senderWrites
    rw [hstep]
  have hcopies := fun index => @mem_missing_of_copy setting s hsound hs index
  rw [hwrites]
  constructor
  · simpa using senderWrote_step hregular hcopies hs.sender hstep
  · simp only [Network.emit_receiver, Network.emit_delivered]
    exact hs.receiver
  · intro hunheard
    simp only [Network.emit_sender, Network.emit_reports] at hunheard ⊢
    apply hs.unheard
    cases hsound.phase with
    | silent hsender _ _ _ => exact Or.inl hsender
    | announced hsender _ _ _ _ => exact Or.inr hsender
    | deciding hsender _ _ _ => exact Or.inr hsender
    | answered reply rest hsender _ _ _ _ _ => exact Or.inr hsender
    | running hreplied _ _ _ =>
        have hindices : ∀ index, 0 < s.network.sender.copies.count index →
            index < setting.manifest.chunkCount := by
          intro index hindex
          exact (mem_toSend.mp (hcopies index hindex)).1
        rcases RelaySender.replied_step hsound.orderly hreplied hregular
          hindices hstep with ⟨_, hkeeps, _⟩
        rcases hunheard with rfl | rfl
        · exact absurd hkeeps id
        · exact absurd hkeeps id
  · intro index hindex
    simp only [Network.emit_receiver] at hindex
    exact hs.outstanding index hindex

theorem wrote_senderHears
    (hsound : Network.Sound relayNetwork setting s.network)
    (hs : Wrote setting s) {message : ControlMessage}
    {reports : List ControlMessage} {sender : RelaySender}
    {output : SenderOutput}
    (hreports : s.network.reports = message :: reports)
    (hstep : s.network.sender.step setting.manifest
      (.received (.ok message)) = some (sender, output)) :
    Wrote setting
      { s with
        network :=
          { s.network with sender, reports }.emit relayNetwork setting
            output } := by
  rcases heard_of_received hstep with ⟨rfl, hheard⟩
  have hreply : s.network.sender = .awaitReply → message = setting.reply := by
    intro hsender
    have hbackward := hs.unheard (Or.inr hsender)
    rw [hreports] at hbackward
    have hwrote := hs.receiver
    have hreceiver := hsound.receiver
    rw [← hbackward] at hwrote
    cases hr : s.network.receiver with
    | failed error =>
        rw [hr] at hreceiver
        exact absurd hreceiver id
    | returned books =>
        rw [hr] at hwrote
        rcases hwrote with ⟨reports', hmessages, _⟩
        exact (List.cons.inj hmessages).1
    | loop loop =>
        rw [hr] at hwrote
        rcases hwrote.wrote with ⟨reports', _, hmessages, _⟩
        exact (List.cons.inj hmessages).1
    | setup setup =>
        rw [hr] at hwrote hreceiver
        cases setup with
        | reject => exact absurd hreceiver id
        | failed error => exact absurd hreceiver id
        | openFile manifest state => exact (List.cons.inj hwrote.1).1
        | ready manifest state => exact (List.cons.inj hwrote.1).1
        | _ => exact absurd hwrote.1 (List.cons_ne_nil _ _)
  constructor
  · exact senderWrote_received hreply hs.sender hstep
  · exact hs.receiver
  · exact fun hunheard => absurd hunheard hheard
  · exact hs.outstanding

theorem wrote_receiverProceeds
    (hsound : Network.Sound relayNetwork setting s.network)
    (hs : Wrote setting s) {receiver : RelayReceiver} {output : ReceiverOutput}
    (hproceed : s.network.receiver.proceed relayKind setting.outputDir =
      some (receiver, output)) :
    Wrote setting
      { s with
        network := s.network.receiverMoves relayNetwork receiver output
        backward := s.backward ++ s.receiverWrites setting } := by
  have hwrites : s.receiverWrites setting = output.messages := by
    unfold receiverWrites
    rw [hproceed]
  have hwrote := hs.receiver
  have hreceiver := hsound.receiver
  have hstays : ReceiverWrote setting (s.backward ++ output.messages)
        (s.network.delivered ++ s.network.deliversNext relayNetwork) receiver ∧
      ∀ index ∈ receiver.outstanding RelayLoop.books,
        index ∈ setting.missing := by
    cases hr : s.network.receiver with
    | failed error =>
        rw [hr] at hproceed
        contradiction
    | returned books =>
        rw [hr] at hproceed
        contradiction
    | loop loop =>
        rw [hr] at hproceed hwrote
        have hnext : s.network.deliversNext relayNetwork = loop.delivers := by
          unfold Network.deliversNext
          rw [hr]
          rfl
        rw [hnext]
        refine ⟨receiverWrote_loop hwrote hproceed, ?_⟩
        intro index hindex
        apply hs.outstanding
        rcases RelayLoop.move setting.manifest hproceed with
          ⟨pending, hpending, hmove⟩
        unfold Receiver.outstanding at hindex ⊢
        rw [hpending] at hindex
        rw [hr]
        exact ((hmove.pending index).mp hindex).1
    | setup setup =>
        rw [hr] at hproceed hwrote hreceiver
        have hnext : s.network.deliversNext relayNetwork = [] := by
          unfold Network.deliversNext
          rw [hr]
        have hwrote' := receiverWrote_setup hreceiver hwrote hproceed
        rw [hnext, List.append_nil]
        refine ⟨hwrote', ?_⟩
        intro index hindex
        cases setup with
        | recvManifest => contradiction
        | lookup manifest => contradiction
        | failed error => contradiction
        | reject =>
            cases hproceed
            exact absurd hindex (Finset.notMem_empty index)
        | ready manifest state =>
            cases hproceed
            exact mem_missing_of_setup hwrote hindex
        | _ =>
            cases hproceed
            exact mem_missing_of_setup hwrote' hindex
  rw [hwrites]
  constructor
  · exact hs.sender
  · exact hstays.1
  · intro hunheard
    have hreports := hs.unheard hunheard
    exact congrArg (fun messages => messages ++ output.messages) hreports
  · exact hstays.2

/-- The receiver has changed, and neither side has written. -/
theorem wrote_receiver (hs : Wrote setting s) {network : Network RelaySender RelayLoop}
    (hsender : network.sender = s.network.sender)
    (hreports : network.reports = s.network.reports)
    (hdelivered : network.delivered = s.network.delivered)
    (hwrote : ReceiverWrote setting s.backward s.network.delivered
      network.receiver)
    (houtstanding : ∀ index ∈ network.receiver.outstanding RelayLoop.books,
      index ∈ setting.missing) :
    Wrote setting { s with network } where
  sender := by
    rw [hsender]
    exact hs.sender
  receiver := by
    rw [hdelivered]
    exact hwrote
  unheard := by
    rw [hsender, hreports]
    exact hs.unheard
  outstanding := houtstanding

theorem missing_of_ofSetup {setup : Setup} {receiver : RelayReceiver}
    {backward : List ControlMessage} {delivered : List ℕ}
    (hreceiver : Receiver.ofSetup setup = receiver)
    (hwrote : ReceiverWrote setting backward delivered receiver) :
    ∀ index ∈ receiver.outstanding RelayLoop.books,
      index ∈ setting.missing := by
  intro index hindex
  subst hreceiver
  cases setup with
  | failed error => exact absurd hindex (Finset.notMem_empty index)
  | _ => exact mem_missing_of_setup hwrote hindex

theorem received_ofSetup {result : Except Error ControlMessage}
    {receiver receiver' : RelayReceiver}
    (hreceived : receiver.received result = some receiver') :
    ∃ setup, Receiver.ofSetup setup = receiver' := by
  cases receiver with
  | setup setup =>
      cases setup with
      | recvManifest => exact ⟨_, Option.some.inj hreceived⟩
      | _ => contradiction
  | _ => contradiction

theorem lookup_ofSetup {receiver receiver' : RelayReceiver}
    (hlookup : receiver.lookup setting.outputDir setting.pathExists
      setting.files = some receiver') :
    ∃ setup, Receiver.ofSetup setup = receiver' := by
  cases receiver with
  | setup setup =>
      cases setup with
      | lookup manifest => exact ⟨_, Option.some.inj hlookup⟩
      | _ => contradiction
  | _ => contradiction

theorem wrote_receiverReads
    (hsound : Network.Sound relayNetwork setting s.network)
    (hs : Wrote setting s) {network : Network RelaySender RelayLoop}
    (hnext : Network.next relayNetwork setting s.network .receiverReads =
      some network) :
    Wrote setting { s with network } := by
  have hwrote := hs.receiver
  have hreceiver := hsound.receiver
  simp only [Network.next] at hnext
  split at hnext
  next loop frame rest hloop hstream =>
    rw [hloop] at hwrote hreceiver
    rcases Option.map_eq_some_iff.mp hnext with ⟨receiver, hreceive, rfl⟩
    rcases Option.map_eq_some_iff.mp hreceive with
      ⟨⟨receiver', rest'⟩, hread, rfl⟩
    apply wrote_receiver hs
    · rfl
    · rfl
    · rfl
    · exact receiverWrote_receive hreceiver.2.1 hwrote hread
    · intro index hindex
      rcases RelayLoop.receive_cases hread with ⟨error, hfailed⟩ |
        ⟨next, hnext', _, hfacts⟩
      · dsimp only [Network.pop] at hindex
        rw [hfailed] at hindex
        exact absurd hindex (Finset.notMem_empty index)
      · dsimp only [Network.pop] at hindex
        rw [hnext'] at hindex
        apply hs.outstanding
        rw [hloop]
        have hpending : next.books.pending = loop.books.pending := hfacts.pending
        have hin : index ∈ next.books.pending := hindex
        rw [hpending] at hin
        exact hin
  next loop message rest hloop hstream =>
    rcases Option.map_eq_some_iff.mp hnext with ⟨receiver, hhears, rfl⟩
    have hfailed : ∃ error, receiver = .failed error := by
      simp only [relayNetwork] at hhears
      split at hhears
      · cases hhears
        exact ⟨_, rfl⟩
      · contradiction
    rcases hfailed with ⟨error, rfl⟩
    apply wrote_receiver hs
    · rfl
    · rfl
    · rfl
    · trivial
    · exact fun index hindex => absurd hindex (Finset.notMem_empty index)
  next => contradiction

theorem wrote_next (hsound : Network.Sound relayNetwork setting s.network)
    (hs : Wrote setting s) {event : NetworkEvent}
    (hnext : next setting s event = some t) : Wrote setting t := by
  rcases Option.map_eq_some_iff.mp hnext with ⟨network, hnetwork, rfl⟩
  cases event with
  | sender move =>
      simp only [Network.next] at hnetwork
      split at hnetwork
      next hregular =>
        rcases Option.map_eq_some_iff.mp hnetwork with
          ⟨⟨sender, output⟩, hstep, rfl⟩
        exact wrote_sender hsound hs hregular hstep
      next => contradiction
  | senderHears =>
      simp only [Network.next] at hnetwork
      split at hnetwork
      next message reports hreports =>
        rcases Option.map_eq_some_iff.mp hnetwork with
          ⟨⟨sender, output⟩, hstep, rfl⟩
        exact wrote_senderHears hsound hs hreports hstep
      next => contradiction
  | receiverProceeds =>
      simp only [Network.next] at hnetwork
      split at hnetwork
      next => contradiction
      next =>
        rcases Option.map_eq_some_iff.mp hnetwork with
          ⟨⟨receiver, output⟩, hproceed, rfl⟩
        exact wrote_receiverProceeds hsound hs hproceed
  | receiverHears =>
      simp only [Network.next] at hnetwork
      split at hnetwork
      next message rest hstream =>
        rcases Option.map_eq_some_iff.mp hnetwork with
          ⟨receiver, hreceived, rfl⟩
        have hwrote := receiverWrote_received hs.receiver hreceived
        rcases received_ofSetup hreceived with ⟨setup, hsetup⟩
        apply wrote_receiver hs
        · rfl
        · rfl
        · rfl
        · exact hwrote
        · exact missing_of_ofSetup hsetup hwrote
      next frame rest hstream =>
        rcases Option.map_eq_some_iff.mp hnetwork with
          ⟨receiver, hreceived, rfl⟩
        have hwrote := receiverWrote_received hs.receiver hreceived
        rcases received_ofSetup hreceived with ⟨setup, hsetup⟩
        apply wrote_receiver hs
        · rfl
        · rfl
        · rfl
        · exact hwrote
        · exact missing_of_ofSetup hsetup hwrote
      next => contradiction
  | receiverLooksUp =>
      simp only [Network.next] at hnetwork
      rcases Option.map_eq_some_iff.mp hnetwork with ⟨receiver, hlookup, rfl⟩
      have hwrote := receiverWrote_lookup hsound.receiver hs.receiver hlookup
      rcases lookup_ofSetup hlookup with ⟨setup, hsetup⟩
      apply wrote_receiver hs
      · rfl
      · rfl
      · rfl
      · exact hwrote
      · exact missing_of_ofSetup hsetup hwrote
  | receiverReads => exact wrote_receiverReads hsound hs hnetwork
  | corrupt stream position subs =>
      simp only [Network.next] at hnetwork
      rcases Option.bind_eq_some_iff.mp hnetwork with ⟨item, _, hresult⟩
      rcases Option.map_eq_some_iff.mp hresult with ⟨item', _, rfl⟩
      apply wrote_receiver hs
      · rfl
      · rfl
      · rfl
      · exact hs.receiver
      · exact hs.outstanding

theorem next_network {event : NetworkEvent}
    (hnext : next setting s event = some t) :
    Network.next relayNetwork setting s.network event = some t.network := by
  rcases Option.map_eq_some_iff.mp hnext with ⟨network, hnetwork, rfl⟩
  rw [hnetwork]
  cases event <;> rfl

theorem sound_wrote_of_reachable (hreach : (machine setting).Reachable s) :
    Network.Sound relayNetwork setting s.network ∧ Wrote setting s := by
  have hlaws := relayNetwork_laws setting
  apply hreach.invariant
  · intro s₀ hstart
    refine ⟨Network.sound_of_starts hlaws hstart.network, ?_⟩
    constructor
    · rw [hstart.network.sender, hstart.forward]
      rfl
    · rw [hstart.network.receiver, hstart.backward, hstart.network.delivered]
      exact ⟨rfl, rfl⟩
    · intro _
      rw [hstart.network.reports, hstart.backward]
    · rw [hstart.network.receiver]
      exact fun index hindex => absurd hindex (Finset.notMem_empty index)
  · intro u event v hu hnext
    exact ⟨Network.sound_next hlaws hu.1 (next_network hnext),
      wrote_next hu.1 hu.2 hnext⟩

end Transfer

/-! ## Comparing two transfers -/

section Compare

variable {a b : NetworkSetting} {s t : ObservedTransfer}
  {chunks others : List RelayFrame} {msgPack : MsgPack}

theorem framed_of_sizedChunk {frame : RelayFrame} (hsized : SizedChunk a frame) :
    frame.Framed := by
  cases frame with
  | ctrl message => trivial
  | chunk index plaintext again =>
      rcases hsized with ⟨hmissing, hlength⟩
      have hindex := (mem_toSend.mp hmissing).1
      have hcount := a.manifest.chunkCount_lt
      refine ⟨_, chunkFrame_wellFramed maskedNoise a.manifestSource
        (hindex.trans hcount) ?_⟩
      rw [hlength]
      exact FileManifest.sizeOf_le_chunkSize index

theorem exists_shape_of_firstPass {index : ℕ}
    (hindex : index ∈ firstPass chunks) :
    ∃ length, .chunk index length ∈ chunks.map (RelayFrame.shape msgPack) := by
  rcases List.mem_filterMap.mp hindex with ⟨frame, hframe, hfirst⟩
  split at hfirst
  next other plaintext =>
    cases hfirst
    exact ⟨_, List.mem_map_of_mem hframe⟩
  next => contradiction

theorem length_of_shape (hsized : ∀ frame ∈ chunks, SizedChunk a frame)
    {index length : ℕ}
    (hshape : .chunk index length ∈ chunks.map (RelayFrame.shape msgPack)) :
    length = a.manifest.sizeOf index := by
  rcases List.mem_map.mp hshape with ⟨frame, hframe, hequal⟩
  have hframeSized := hsized frame hframe
  cases frame with
  | ctrl message => exact absurd hframeSized id
  | chunk other plaintext again =>
      simp only [RelayFrame.shape, FrameShape.chunk.injEq] at hequal
      rcases hequal with ⟨rfl, rfl⟩
      exact hframeSized.2

/-- Frames of the same shapes with the same retransmissions make the same first
pass. -/
theorem firstPass_of_shapes (hsized : ∀ frame ∈ chunks, SizedChunk a frame)
    (hsized' : ∀ frame ∈ others, SizedChunk b frame)
    (hanswered : chunks.map answered = others.map answered)
    (hshapes : chunks.map (RelayFrame.shape msgPack) =
      others.map (RelayFrame.shape msgPack)) :
    firstPass chunks = firstPass others := by
  induction chunks generalizing others with
  | nil =>
      have hnil := (List.map_eq_nil_iff.mp hshapes.symm)
      rw [hnil]
  | cons frame rest ih =>
      cases others with
      | nil => simp at hshapes
      | cons other rest' =>
          rw [List.map_cons, List.map_cons, List.cons.injEq] at hanswered hshapes
          have hrest := ih
            (fun later hlater => hsized later (List.mem_cons_of_mem _ hlater))
            (fun later hlater => hsized' later (List.mem_cons_of_mem _ hlater))
            hanswered.2 hshapes.2
          have hframe := hsized frame List.mem_cons_self
          have hother := hsized' other List.mem_cons_self
          cases frame with
          | ctrl message => exact absurd hframe id
          | chunk index plaintext again =>
              cases other with
              | ctrl message => exact absurd hother id
              | chunk index' plaintext' again' =>
                  have hindex := hshapes.1
                  simp only [RelayFrame.shape, FrameShape.chunk.injEq] at hindex
                  have hagain := hanswered.1
                  cases again <;> cases again' <;>
                    simp_all [answered, firstPass]

/-- The same first pass, the same retransmissions and the same sizes make frames
of the same shapes. -/
theorem shapes_of_firstPass (hsized : ∀ frame ∈ chunks, SizedChunk a frame)
    (hsized' : ∀ frame ∈ others, SizedChunk b frame)
    (hsizes : ∀ index ∈ a.missing,
      a.manifest.sizeOf index = b.manifest.sizeOf index)
    (hanswered : chunks.map answered = others.map answered)
    (hpass : firstPass chunks = firstPass others) :
    chunks.map (RelayFrame.shape msgPack) =
      others.map (RelayFrame.shape msgPack) := by
  induction chunks generalizing others with
  | nil =>
      have hnil := List.map_eq_nil_iff.mp hanswered.symm
      rw [hnil]
  | cons frame rest ih =>
      cases others with
      | nil => simp at hanswered
      | cons other rest' =>
          rw [List.map_cons, List.map_cons, List.cons.injEq] at hanswered
          have hlater := ih
            (fun later hlater => hsized later (List.mem_cons_of_mem _ hlater))
            (fun later hlater => hsized' later (List.mem_cons_of_mem _ hlater))
            hanswered.2
          have hframe := hsized frame List.mem_cons_self
          have hother := hsized' other List.mem_cons_self
          cases frame with
          | ctrl message => exact absurd hframe id
          | chunk index plaintext again =>
              cases other with
              | ctrl message => exact absurd hother id
              | chunk index' plaintext' again' =>
                  have hsame : index = index' ∧
                      firstPass rest = firstPass rest' := by
                    have hagain := hanswered.1
                    cases again <;> cases again' <;>
                      simp_all [answered, firstPass]
                  rcases hsame with ⟨rfl, hrest⟩
                  have hlength : plaintext.length = plaintext'.length := by
                    rw [hframe.2, hother.2, hsizes index hframe.1]
                  rw [List.map_cons, List.map_cons, hlater hrest]
                  simp only [RelayFrame.shape, hlength]

theorem forward_shapes_iff (hsized : ∀ frame ∈ chunks, SizedChunk a frame)
    (hsized' : ∀ frame ∈ others, SizedChunk b frame)
    (hanswered : chunks.map answered = others.map answered)
    (hpass : firstPass chunks = a.missing)
    (hpass' : firstPass others = b.missing) :
    chunks.map (RelayFrame.shape msgPack) =
        others.map (RelayFrame.shape msgPack) ↔
      a.missing = b.missing ∧ ∀ index ∈ a.missing,
        a.manifest.sizeOf index = b.manifest.sizeOf index := by
  constructor
  · intro hshapes
    have hsame := firstPass_of_shapes hsized hsized' hanswered hshapes
    refine ⟨by rw [← hpass, hsame, hpass'], ?_⟩
    intro index hindex
    rw [← hpass] at hindex
    rcases @exists_shape_of_firstPass chunks msgPack index hindex with
      ⟨length, hshape⟩
    rw [← length_of_shape hsized hshape]
    rw [hshapes] at hshape
    exact length_of_shape hsized' hshape
  · rintro ⟨hmissing, hsizes⟩
    apply shapes_of_firstPass hsized hsized' hsizes hanswered
    rw [hpass, hpass', hmissing]

/-- With the same NACKs, reports have the same lengths as far as the progress
counts do. -/
theorem reports_iff {reports messages : List ControlMessage}
    (hkinds : ∀ message ∈ reports, message ≠ .complete ∧ IsReport message)
    (hkinds' : ∀ message ∈ messages, message ≠ .complete ∧ IsReport message)
    (hnacked : reports.map nacked = messages.map nacked)
    (size : ControlMessage → ℕ) :
    reports.map size = messages.map size ↔
      (progressCounts reports).map (fun bytes => size (.progress bytes)) =
        (progressCounts messages).map (fun bytes => size (.progress bytes)) := by
  induction reports generalizing messages with
  | nil =>
      have hnil := List.map_eq_nil_iff.mp hnacked.symm
      rw [hnil]
      exact iff_of_true rfl rfl
  | cons report rest ih =>
      cases messages with
      | nil => simp at hnacked
      | cons message rest' =>
          rw [List.map_cons, List.map_cons, List.cons.injEq] at hnacked
          have hlater := ih
            (fun later hlater => hkinds later (List.mem_cons_of_mem _ hlater))
            (fun later hlater => hkinds' later (List.mem_cons_of_mem _ hlater))
            hnacked.2
          have hreport := hkinds report List.mem_cons_self
          have hmessage := hkinds' message List.mem_cons_self
          have hhead := hnacked.1
          rw [List.map_cons, List.map_cons, List.cons.injEq, hlater]
          cases report with
          | chunkNack index =>
              cases message with
              | chunkNack index' =>
                  cases hhead
                  simp [progressCounts]
              | _ => contradiction
          | progress bytes =>
              cases message with
              | chunkNack index' => contradiction
              | progress bytes' => simp [progressCounts]
              | complete => exact absurd rfl hmessage.1
              | _ => exact absurd hmessage.2 id
          | complete => exact absurd rfl hreport.1
          | _ => exact absurd hreport.2 id

theorem backward_shapes_iff {reports messages : List ControlMessage}
    {counts counts' : List ℕ} (hcodec : a.msgPack = b.msgPack)
    (hreported : Reported reports counts)
    (hreported' : Reported messages counts')
    (hnacked : (a.reply :: reports ++ [ControlMessage.complete]).map nacked =
      (b.reply :: messages ++ [ControlMessage.complete]).map nacked) :
    ((a.reply :: reports ++ [ControlMessage.complete]).map RelayFrame.ctrl).map
          (RelayFrame.shape a.msgPack) =
        ((b.reply :: messages ++ [ControlMessage.complete]).map RelayFrame.ctrl).map
          (RelayFrame.shape b.msgPack) ↔
      a.packed a.reply = b.packed b.reply ∧
        counts.map (fun bytes => a.packed (.progress bytes)) =
          counts'.map (fun bytes => b.packed (.progress bytes)) := by
  have hsame : a.packed = b.packed := by
    funext message
    unfold NetworkSetting.packed
    rw [hcodec]
  have hshape : ∀ (setting : NetworkSetting) (list : List ControlMessage),
      (list.map RelayFrame.ctrl).map (RelayFrame.shape setting.msgPack) =
        (list.map setting.packed).map FrameShape.ctrl := by
    intro setting list
    rw [List.map_map, List.map_map]
    rfl
  have hinjective : Function.Injective FrameShape.ctrl := by
    intro left right hequal
    exact FrameShape.ctrl.inj hequal
  simp only [List.cons_append, List.map_cons, List.map_append, List.map_nil,
    List.cons.injEq] at hnacked
  have hreports := reports_iff hreported.kinds hreported'.kinds
    (List.append_cancel_right hnacked.2) b.packed
  rw [hreported.progress, hreported'.progress] at hreports
  rw [hshape, hshape, (List.map_injective_iff.mpr hinjective).eq_iff, hsame,
    List.cons_append, List.cons_append, List.map_cons, List.map_cons,
    List.cons.injEq, List.map_append, List.map_append, List.append_left_inj,
    hreports]

/-! ### Completed transfers -/

theorem forward_of_completed (hs : Wrote a s) (hcompleted : Completed a s) :
    ∃ chunks, s.forward = .ctrl (.manifest a.manifest) :: chunks ∧
      (∀ frame ∈ chunks, SizedChunk a frame) ∧ firstPass chunks = a.missing := by
  rcases hcompleted.sender with ⟨bytesDone, hsender⟩
  have hwrote := hs.sender
  rw [hsender] at hwrote
  exact hwrote

theorem backward_of_completed (hs : Wrote a s) (hcompleted : Completed a s) :
    ∃ reports, s.backward = a.reply :: reports ++ [.complete] ∧
      Reported reports (a.confirmedCounts s.network.delivered) := by
  rcases hcompleted.receiver with ⟨books, hreceiver⟩
  have hwrote := hs.receiver
  rw [hreceiver] at hwrote
  exact hwrote

theorem view_eq_iff (hcodec : a.msgPack = b.msgPack) (hs : Wrote a s)
    (ht : Wrote b t) (hcompleted : Completed a s) (hcompleted' : Completed b t)
    (hpattern : SamePattern s t) :
    s.view a = t.view b ↔ Alike a b s t := by
  rcases forward_of_completed hs hcompleted with
    ⟨chunks, hforward, hsized, hpass⟩
  rcases forward_of_completed ht hcompleted' with
    ⟨others, hforward', hsized', hpass'⟩
  rcases backward_of_completed hs hcompleted with
    ⟨reports, hbackward, hreported⟩
  rcases backward_of_completed ht hcompleted' with
    ⟨messages, hbackward', hreported'⟩
  have hframed : ∀ frame ∈ s.forward, frame.Framed := by
    intro frame hframe
    rw [hforward] at hframe
    rcases List.mem_cons.mp hframe with rfl | hchunk
    · trivial
    · exact framed_of_sizedChunk (hsized frame hchunk)
  have hframed' : ∀ frame ∈ t.forward, frame.Framed := by
    intro frame hframe
    rw [hforward'] at hframe
    rcases List.mem_cons.mp hframe with rfl | hchunk
    · trivial
    · exact framed_of_sizedChunk (hsized' frame hchunk)
  have hctrl : ∀ (list : List ControlMessage), ∀ frame ∈ list.map RelayFrame.ctrl,
      frame.Framed := by
    intro list frame hframe
    rcases List.mem_map.mp hframe with ⟨message, _, rfl⟩
    trivial
  have hanswered := hpattern.forward
  have hnacked := hpattern.backward
  rw [hforward, hforward', List.map_cons, List.map_cons, List.cons.injEq]
    at hanswered
  rw [hbackward, hbackward'] at hnacked
  have hsent := hcompleted.forward
  have hsent' := hcompleted.backward
  have hchunks := @forward_shapes_iff a b chunks others b.msgPack hsized hsized'
    hanswered.2 hpass hpass'
  have hreports := backward_shapes_iff hcodec hreported hreported' hnacked
  rw [← hbackward, ← hbackward', hcodec] at hreports
  unfold view at hsent hsent' ⊢
  rw [hcodec] at hsent hsent' ⊢
  rw [Prod.mk.injEq,
    streamBytes_eq_iff hframed hframed' hsent hcompleted'.forward,
    streamBytes_eq_iff (hctrl _) (hctrl _) hsent' hcompleted'.backward,
    hreports, hforward, hforward', List.map_cons, List.map_cons,
    List.cons.injEq, hchunks]
  simp only [RelayFrame.shape, FrameShape.ctrl.injEq]
  constructor
  · rintro ⟨⟨hmanifest, hmissing, hsizes⟩, hreply, hprogress⟩
    refine ⟨?_, hreply, hmissing, hsizes, hprogress⟩
    unfold NetworkSetting.packed
    rw [hcodec]
    exact hmanifest
  · intro halike
    have hmanifest := halike.manifest
    unfold NetworkSetting.packed at hmanifest
    rw [hcodec] at hmanifest
    exact ⟨⟨hmanifest, halike.missing, halike.sizes⟩, halike.reply,
      halike.progress⟩

end Compare

end ObservedTransfer

/-- Two completed transfers with the same pattern of frames look alike to the
relay exactly if their files agree in the lengths that it sees. -/
theorem relay_views_equal_iff (a b : NetworkSetting)
    (hcodec : a.msgPack = b.msgPack) (s t : ObservedTransfer)
    (hs : (ObservedTransfer.machine a).Reachable s)
    (ht : (ObservedTransfer.machine b).Reachable t)
    (hcompleted : s.Completed a) (hcompleted' : t.Completed b)
    (hpattern : ObservedTransfer.SamePattern s t) :
    s.view a = t.view b ↔ ObservedTransfer.Alike a b s t :=
  ObservedTransfer.view_eq_iff hcodec
    (ObservedTransfer.sound_wrote_of_reachable hs).2
    (ObservedTransfer.sound_wrote_of_reachable ht).2 hcompleted hcompleted'
    hpattern

/-! ## Two files of three bytes -/

/-- The file has a name one letter longer. -/
def longerNameSource : ManifestSource := { sampleSource with filename := "ab" }

def viewSetting (source : ManifestSource) : NetworkSetting where
  noise := lookupNoise
  read := tagRead
  msgPack := rmpSerde
  manifestSource := source
  outputDir := ['d']
  pathExists := fun _ => false
  files := fun _ => .absent
  resumes := by
    intro state hfound
    simp [findResumable] at hfound

theorem viewSetting_msgPack (source : ManifestSource) :
    (viewSetting source).msgPack = rmpSerde := rfl

theorem viewSetting_packed (source : ManifestSource) :
    (viewSetting source).packed (.manifest (viewSetting source).manifest) =
      (rmpSerde.encode (.manifest (buildManifest source))).length := rfl

namespace ObservedTransfer

def fresh : ObservedTransfer := ⟨Network.fresh relayNetwork, [], []⟩

theorem starts_fresh : Starts fresh :=
  ⟨Network.starts_fresh relayNetwork, rfl, rfl⟩

/-- A whole transfer of a file with these bytes. -/
def wholeTransfer (source : ManifestSource) (file : Bytes) :
    Option ObservedTransfer :=
  (machine (viewSetting source)).runFrom fresh
    ([.sender .proceed, .receiverHears, .receiverLooksUp] ++
      List.replicate 6 .receiverProceeds ++
      [.senderHears, .sender .proceed, .sender (.read file), .sender .proceed,
        .receiverReads] ++ List.replicate 5 .receiverProceeds ++
      [.senderHears, .senderHears, .sender .proceed])

def hasReturned : RelayReceiver → Bool
  | .returned _ => true
  | _ => false

/-- Where the transfer of one chunk ends. -/
def summary (s : ObservedTransfer) :
    RelaySender × Bool × List RelayFrame × List ControlMessage :=
  (s.network.sender, hasReturned s.network.receiver, s.forward, s.backward)

theorem wholeTransfer_sample :
    (wholeTransfer sampleSource [1, 2, 3]).map summary =
      some (.returned 3, true,
        [.ctrl (.manifest (buildManifest sampleSource)),
          .chunk 0 [1, 2, 3] false],
        [.manifestAck, .progress 3, .complete]) := by
  decide +kernel

theorem wholeTransfer_longerName :
    (wholeTransfer longerNameSource [4, 5, 6]).map summary =
      some (.returned 3, true,
        [.ctrl (.manifest (buildManifest longerNameSource)),
          .chunk 0 [4, 5, 6] false],
        [.manifestAck, .progress 3, .complete]) := by
  decide +kernel

theorem streamBytes_isSome {msgPack : MsgPack} {frames : List RelayFrame}
    (hfits : ∀ message, .ctrl message ∈ frames →
      (msgPack.encode message).length ≤ maxPlain) (nonce : ℕ) :
    (streamBytes maskedNoise msgPack nonce frames).isSome := by
  induction frames generalizing nonce with
  | nil => rfl
  | cons frame rest ih =>
      have hrest := ih (fun message hmessage =>
        hfits message (List.mem_cons_of_mem _ hmessage)) (frame.nonceAfter nonce)
      rcases Option.isSome_iff_exists.mp hrest with ⟨tail, htail⟩
      have hframe : ∃ bytes, frame.bytes maskedNoise msgPack nonce =
          some bytes := by
        cases frame with
        | ctrl message =>
            have hlength := hfits message List.mem_cons_self
            unfold RelayFrame.bytes relayCtrlBytes
            dsimp only
            rw [ctrlBytes_eq, if_pos hlength]
            exact ⟨_, rfl⟩
        | chunk index plaintext again => exact ⟨_, RelayFrame.bytes_chunk _ _ _ _⟩
      rcases hframe with ⟨bytes, hbytes⟩
      unfold streamBytes
      rw [hbytes, Option.bind_some, htail]
      rfl

theorem sample_manifest_length :
    (rmpSerde.encode (.manifest (buildManifest sampleSource))).length = 163 ∧
      (rmpSerde.encode (.manifest (buildManifest longerNameSource))).length =
        164 := by
  have hfits := @ControlMessage.manifest_fits sampleSource (by decide) (by decide)
  have hfits' := @ControlMessage.manifest_fits longerNameSource (by decide)
    (by decide)
  rw [rmpSerde_isRmpSerde.length_encode hfits,
    rmpSerde_isRmpSerde.length_encode hfits']
  decide +kernel

theorem sample_report_length {message : ControlMessage}
    (hmessage :
      message ∈ [ControlMessage.manifestAck, .progress 3, .complete]) :
    (rmpSerde.encode message).length ≤ maxPlain := by
  have hack : ControlMessage.manifestAck.Fits := trivial
  have hcomplete : ControlMessage.complete.Fits := trivial
  have hprogress : (ControlMessage.progress 3).Fits :=
    ⟨by decide, by decide, MessagePack.uint_fits (by norm_num)⟩
  simp only [List.mem_cons, List.not_mem_nil, or_false] at hmessage
  rcases hmessage with rfl | rfl | rfl
  · rw [rmpSerde_isRmpSerde.length_encode hack]
    decide
  · rw [rmpSerde_isRmpSerde.length_encode hprogress]
    decide
  · rw [rmpSerde_isRmpSerde.length_encode hcomplete]
    decide

/-- A transfer of one chunk whose manifest fits in a message is complete. -/
theorem completed_of_summary {source : ManifestSource} {s : ObservedTransfer}
    {file : Bytes}
    (hmanifest :
      (rmpSerde.encode (.manifest (buildManifest source))).length ≤ maxPlain)
    (hsummary : s.summary = (.returned 3, true,
      [.ctrl (.manifest (buildManifest source)), .chunk 0 file false],
      [.manifestAck, .progress 3, .complete])) :
    s.Completed (viewSetting source) := by
  simp only [summary, Prod.mk.injEq] at hsummary
  rcases hsummary with ⟨hsender, hreceiver, hforward, hbackward⟩
  refine ⟨⟨3, hsender⟩, ?_, ?_, ?_⟩
  · cases hr : s.network.receiver with
    | returned books => exact ⟨books, rfl⟩
    | _ =>
        rw [hr] at hreceiver
        exact absurd hreceiver Bool.false_ne_true
  · unfold view
    rw [hforward, viewSetting_msgPack]
    apply streamBytes_isSome
    intro message hmessage
    simp only [List.mem_cons, RelayFrame.ctrl.injEq, reduceCtorEq,
      List.not_mem_nil, or_false] at hmessage
    rw [hmessage]
    exact hmanifest
  · unfold view
    rw [hbackward, viewSetting_msgPack]
    apply streamBytes_isSome
    intro message hmessage
    rcases List.mem_map.mp hmessage with ⟨other, hother, hequal⟩
    cases hequal
    exact sample_report_length hother

/-- Two transfers with the same pattern of frames whose manifests differ in
length. -/
theorem exists_sample_transfers :
    ∃ s t, (machine (viewSetting sampleSource)).Reachable s ∧
      (machine (viewSetting longerNameSource)).Reachable t ∧
      s.Completed (viewSetting sampleSource) ∧
      t.Completed (viewSetting longerNameSource) ∧ SamePattern s t ∧
      ¬ Alike (viewSetting sampleSource) (viewSetting longerNameSource) s t := by
  rcases Option.map_eq_some_iff.mp wholeTransfer_sample with ⟨s, hs, hsummary⟩
  rcases Option.map_eq_some_iff.mp wholeTransfer_longerName with
    ⟨t, ht, hsummary'⟩
  rcases sample_manifest_length with ⟨hlength, hlength'⟩
  have hfits : 164 ≤ maxPlain := by decide
  have hcompleted := completed_of_summary (by omega) hsummary
  have hcompleted' := completed_of_summary (by omega) hsummary'
  simp only [summary, Prod.mk.injEq] at hsummary hsummary'
  refine ⟨s, t, Machine.Reachable.of_runFrom starts_fresh hs,
    Machine.Reachable.of_runFrom starts_fresh ht, hcompleted, hcompleted',
    ⟨?_, ?_⟩, ?_⟩
  · rw [hsummary.2.2.1, hsummary'.2.2.1]
    rfl
  · rw [hsummary.2.2.2, hsummary'.2.2.2]
  · intro halike
    have hmanifest := halike.manifest
    rw [viewSetting_packed, viewSetting_packed, hlength, hlength'] at hmanifest
    exact absurd hmanifest (by norm_num)

end ObservedTransfer

theorem relay_views_equal_sample :
    ∃ s t : ObservedTransfer,
      (s.view (viewSetting sampleSource) = t.view (viewSetting longerNameSource) ↔
        ObservedTransfer.Alike (viewSetting sampleSource)
          (viewSetting longerNameSource) s t) ∧
        ObservedTransfer.SamePattern s t := by
  rcases ObservedTransfer.exists_sample_transfers with
    ⟨s, t, hs, ht, hcompleted, hcompleted', hpattern, _⟩
  exact ⟨s, t, relay_views_equal_iff (viewSetting sampleSource)
    (viewSetting longerNameSource) rfl s t hs ht hcompleted hcompleted'
    hpattern, hpattern⟩

/-- The relay tells a file with a name of one letter from one with a name of
two. -/
theorem relay_sees_length_of_name :
    ∃ s t : ObservedTransfer,
      (ObservedTransfer.machine (viewSetting sampleSource)).Reachable s ∧
        (ObservedTransfer.machine (viewSetting longerNameSource)).Reachable t ∧
        s.Completed (viewSetting sampleSource) ∧
        t.Completed (viewSetting longerNameSource) ∧
        ObservedTransfer.SamePattern s t ∧
        s.view (viewSetting sampleSource) ≠
          t.view (viewSetting longerNameSource) := by
  rcases ObservedTransfer.exists_sample_transfers with
    ⟨s, t, hs, ht, hcompleted, hcompleted', hpattern, hdiffer⟩
  have hcodec : (viewSetting sampleSource).msgPack =
      (viewSetting longerNameSource).msgPack := rfl
  have hview := ObservedTransfer.view_eq_iff hcodec
    (ObservedTransfer.sound_wrote_of_reachable hs).2
    (ObservedTransfer.sound_wrote_of_reachable ht).2 hcompleted hcompleted'
    hpattern
  exact ⟨s, t, hs, ht, hcompleted, hcompleted', hpattern,
    fun hsame => hdiffer (hview.mp hsame)⟩

end P2pShare
