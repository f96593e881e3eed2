import P2pShare.DirectEnding
import P2pShare.TransferWork

/-!
# Transfers that complete

A transfer in which nothing can happen any more is over: the receiver has every
chunk, and both sides have returned.  With the bound on the length of a run, a
transfer completes however its steps are ordered, as long as the connection
corrupts finitely many frames.
-/

namespace P2pShare

open ByteStream PathResolution TransitionMachine

namespace Network

variable {Sender Loop : Type}

/-- Nothing can happen but a corruption. -/
def Rests (kind : NetworkKind Sender Loop) (setting : NetworkSetting)
    (s : Network Sender Loop) : Prop :=
  ∀ event, event.lossless = true → next kind setting s event = none

/-- Both sides have returned well, and no chunk is missing. -/
structure Over (kind : NetworkKind Sender Loop) (s : Network Sender Loop) :
    Prop where
  received : ∃ books, s.receiver = .returned books ∧ books.pending = ∅
  sent : kind.sender.returnedOk s.sender

namespace Rests

variable {kind : NetworkKind Sender Loop} {setting : NetworkSetting}
  {s : Network Sender Loop}

theorem step_eq_none (hrests : Rests kind setting s) {event : SenderEvent}
    (hregular : event.regular setting.manifestSource.totalSize = true) :
    kind.sender.step setting.manifest s.sender event = none := by
  have hnone := hrests (.sender event) rfl
  simp only [next, if_pos hregular] at hnone
  exact Option.map_eq_none_iff.mp hnone

/-- A read of the file ends. -/
theorem read_eq_none (hrests : Rests kind setting s) :
    ∃ file, kind.sender.step setting.manifest s.sender (.read file) = none ∧
      kind.sender.step setting.manifest s.sender (.ctrlRead file) = none := by
  let file : Bytes := List.replicate setting.manifestSource.totalSize 0
  have hlength : file.length = setting.manifestSource.totalSize :=
    List.length_replicate
  have hregular : (file.length == setting.manifestSource.totalSize) = true :=
    beq_iff_eq.mpr hlength
  exact ⟨file, hrests.step_eq_none hregular, hrests.step_eq_none hregular⟩

theorem reports_eq_nil (hrests : Rests kind setting s)
    (hhears : ∀ message, (kind.sender.step setting.manifest s.sender
      (.received (.ok message))).isSome) : s.reports = [] := by
  cases hreports : s.reports with
  | nil => rfl
  | cons message rest =>
      have hnone := hrests .senderHears rfl
      simp only [next, hreports] at hnone
      have hstep := hhears message
      rw [Option.map_eq_none_iff.mp hnone] at hstep
      contradiction

theorem proceed_eq_none (hrests : Rests kind setting s)
    (hopen : s.blocked kind = false) :
    s.receiver.proceed kind.loop.toReceiveLoop setting.outputDir = none := by
  have hnone := hrests .receiverProceeds rfl
  simp only [next, hopen, Bool.false_eq_true, if_false] at hnone
  exact Option.map_eq_none_iff.mp hnone

end Rests

end Network

/-! ## The relay receiver -/

namespace RelayLoop

/-- The loop waits for a frame only while it misses a chunk. -/
def WaitsForChunk (loop : RelayLoop) : Prop :=
  loop.pc = .head → loop.books.pending ≠ ∅

theorem toHead_waits (loop : RelayLoop) : loop.toHead.WaitsForChunk := by
  intro hhead hpending
  rw [toHead_books] at hpending
  simp [toHead, hpending] at hhead

theorem afterAck_waits (loop : RelayLoop) : loop.afterAck.WaitsForChunk := by
  obtain hsave | hhead := afterAck_cases loop
  · rw [hsave]
    intro hpc
    cases hpc
  · rw [hhead]
    exact toHead_waits loop

/-- Away from the head the loop moves on its own. -/
theorem proceed_isSome {loop : RelayLoop} (hhead : loop.pc ≠ .head) :
    loop.proceed.isSome := by
  unfold proceed
  cases hpc : loop.pc with
  | head => exact absurd hpc hhead
  | _ => rfl

end RelayLoop

abbrev RelayState := Network RelaySender RelayLoop

namespace Receiver

def WaitsForChunk : RelayReceiver → Prop
  | loop l => l.WaitsForChunk
  | _ => True

variable {outputDir : RawPath} {receiver next : RelayReceiver}
  {output : ReceiverOutput}

theorem waits_ofSetup (setup : Setup) :
    (ofSetup setup : RelayReceiver).WaitsForChunk := by
  cases setup <;> exact True.intro

theorem waits_proceed
    (hproceed : receiver.proceed relayKind outputDir = some (next, output)) :
    next.WaitsForChunk := by
  cases receiver with
  | setup setup =>
      obtain ⟨manifest, state, _, rfl, _⟩ | ⟨other, _, rfl⟩ :=
        setup_proceed hproceed
      · exact RelayLoop.toHead_waits _
      · exact waits_ofSetup other
  | loop loop =>
      have hloop : loop.proceed = some (next, output) := hproceed
      unfold RelayLoop.proceed at hloop
      split at hloop
      next => contradiction
      next index hpc =>
        cases hloop
        exact RelayLoop.toHead_waits loop
      next index plaintext hpc =>
        cases hloop
        intro hhead
        cases hhead
      next hpc =>
        cases hloop
        exact RelayLoop.afterAck_waits loop
      next hpc =>
        cases hloop
        exact RelayLoop.toHead_waits loop
      next hpc =>
        cases hloop
        intro hhead
        cases hhead
      next hpc =>
        cases hloop
        intro hhead
        cases hhead
      next hpc =>
        cases hloop
        exact True.intro
  | returned books => contradiction
  | failed error => contradiction

theorem waits_receive {read : ℕ → Bytes → Option Bytes}
    {decode : Bytes → Option ControlMessage} {loop : RelayLoop}
    {input rest : Bytes}
    (hreceive : loop.receive read decode input = some (next, rest)) :
    next.WaitsForChunk := by
  unfold RelayLoop.receive at hreceive
  split at hreceive
  next hhead =>
    obtain ⟨⟨result, rest'⟩, _, hresult⟩ := Option.map_eq_some_iff.mp hreceive
    have hnext : loop.afterFrame
        (RelayLoop.outcomeOf read loop.books.manifest result) = next :=
      congrArg Prod.fst hresult
    rw [← hnext]
    cases RelayLoop.outcomeOf read loop.books.manifest result with
    | failed error => exact True.intro
    | skipped => exact RelayLoop.toHead_waits loop
    | nack index =>
        intro hpc
        cases hpc
    | accepted index plaintext =>
        intro hpc
        cases hpc
  next => contradiction

theorem waits_received {result : Except Error ControlMessage}
    (hreceived : receiver.received result = some next) :
    next.WaitsForChunk := by
  unfold received at hreceived
  split at hreceived
  next =>
    cases hreceived
    exact waits_ofSetup _
  next => contradiction

theorem waits_lookup {pathExists : RawPath → Bool} {files : StateFiles}
    (hlookup : receiver.lookup outputDir pathExists files = some next) :
    next.WaitsForChunk := by
  unfold lookup at hlookup
  split at hlookup
  next =>
    cases hlookup
    exact waits_ofSetup _
  next => contradiction

end Receiver

namespace Network

variable {setting : NetworkSetting} {s t : RelayState}

/-- A relay transfer uses one stream, and its loop waits only for chunks. -/
structure OneStream (s : RelayState) : Prop where
  receiver : s.receiver.WaitsForChunk
  data : s.streams .data = []

theorem data_emit (output : SenderOutput) (hdata : s.streams .data = []) :
    (s.emit relayNetwork setting output).streams .data = [] := by
  cases output with
  | none => exact hdata
  | sealChunk index plaintext => exact hdata
  | finish => exact hdata
  | ctrl message => simpa [emit, push] using hdata
  | frame index plaintext => simpa [emit, push, relayNetwork] using hdata

theorem data_pop {rest : List Item} (hdata : s.streams .data = []) :
    (s.pop .control rest).streams .data = [] := by
  simpa [pop] using hdata

theorem oneStream_next (hsound : Sound relayNetwork setting s)
    (hone : OneStream s) {event : NetworkEvent}
    (hnext : next relayNetwork setting s event = some t) : OneStream t := by
  cases moves_of_next hnext with
  | sends _ _ =>
      constructor
      · rw [emit_receiver]
        exact hone.receiver
      · exact data_emit _ hone.data
  | hears _ _ =>
      constructor
      · rw [emit_receiver]
        exact hone.receiver
      · exact data_emit _ hone.data
  | proceeds _ hproceed =>
      exact ⟨Receiver.waits_proceed hproceed, hone.data⟩
  | receives _ hreceived =>
      exact ⟨Receiver.waits_received hreceived, data_pop hone.data⟩
  | looksUp hlookup => exact ⟨Receiver.waits_lookup hlookup, hone.data⟩
  | reads _ _ hreceive =>
      obtain ⟨⟨receiver', rest⟩, hloop, hresult⟩ :=
        Option.map_eq_some_iff.mp hreceive
      have hwaits := Receiver.waits_receive hloop
      have hreceiver : receiver' = _ := hresult
      rw [hreceiver] at hwaits
      exact ⟨hwaits, data_pop hone.data⟩
  | readsCtrl hloop hstream _ => exact (hsound.no_readsCtrl hloop hstream).elim
  | @corrupts stream position subs item other hitem _ =>
      cases stream with
      | control => exact ⟨hone.receiver, data_pop hone.data⟩
      | data =>
          rw [hone.data] at hitem
          contradiction

theorem oneStream_of_reachable
    (hreach : (machine relayNetwork setting).Reachable s) : OneStream s := by
  have hboth : Sound relayNetwork setting s ∧ OneStream s := by
    apply hreach.invariant
    · intro s₀ hstart
      refine ⟨sound_of_starts (relayNetwork_laws setting) hstart, ?_,
        hstart.streams .data⟩
      rw [hstart.receiver]
      exact True.intro
    · rintro u event v ⟨hsound, hone⟩ hnext
      exact ⟨sound_next (relayNetwork_laws setting) hsound hnext,
        oneStream_next hsound hone hnext⟩
  exact hboth.2

/-! ## A relay transfer at rest -/

/-- A relay sender that cannot move waits for a message, or has returned. -/
theorem Rests.relay_sender (hrests : Rests relayNetwork setting s)
    (horderly : s.sender.Orderly) :
    s.sender ≠ .greet ∧ (∀ index, s.sender.copies.count index = 0) ∧
      (s.sender.SawComplete → s.sender.ReturnedOk) ∧
      (¬ s.sender.SawComplete → s.reports = []) := by
  have hstep : ∀ event : SenderEvent,
      event.regular setting.manifestSource.totalSize = true →
      s.sender.step setting.manifest event = none := by
    intro event hregular
    exact hrests.step_eq_none hregular
  have hproceed := hstep .proceed rfl
  have hctrl := hstep .ctrlProceed rfl
  obtain ⟨file, hread, hctrlRead⟩ := hrests.read_eq_none
  have hhears : (∀ message,
      (s.sender.received setting.manifest (.ok message)).isSome) →
      s.reports = [] := by
    intro hreceived
    apply hrests.reports_eq_nil
    intro message
    have hsome := hreceived message
    rw [← Option.isSome_map] at hsome
    exact hsome
  cases hsender : s.sender with
  | greet =>
      rw [hsender] at hproceed
      simp only [RelaySender.step, RelaySender.proceed] at hproceed
      split at hproceed
      next => contradiction
      next => contradiction
  | awaitReply =>
      refine ⟨RelaySender.noConfusion, fun index => rfl, False.elim,
        fun _ => hhears ?_⟩
      intro message
      rw [hsender]
      simp only [RelaySender.received]
      split
      next => rfl
      next => rfl
  | transfer state =>
      rw [hsender] at hproceed hctrl hread hctrlRead horderly
      have hsendRead : state.sendWorker.read setting.manifest file = none :=
        Option.map_eq_none_iff.mp hread
      have hctrlRead : state.ctrlWorker.read setting.manifest file = none :=
        Option.map_eq_none_iff.mp hctrlRead
      have hctrlWrite : state.ctrlWorker.write = none :=
        Option.map_eq_none_iff.mp hctrl
      have hctrlIdle : state.ctrlWorker = .idle := by
        cases hworker : state.ctrlWorker with
        | idle => rfl
        | reading index =>
            rw [hworker] at hctrlRead
            contradiction
        | writing index plaintext =>
            rw [hworker] at hctrlWrite
            contradiction
      have hsendIdle : state.sendWorker = .idle := by
        cases hworker : state.sendWorker with
        | idle => rfl
        | reading index =>
            rw [hworker] at hsendRead
            contradiction
        | writing index plaintext =>
            simp [RelaySender.step, RelaySender.proceed, hworker,
              Worker.write] at hproceed
      have htodo : state.todo = [] := by
        cases hqueue : state.todo with
        | nil => rfl
        | cons index rest =>
            simp [RelaySender.step, RelaySender.proceed, hsendIdle, hqueue]
              at hproceed
      have hdone : state.ctrlDone = false := by
        simpa [RelaySender.step, RelaySender.proceed, hsendIdle, htodo]
          using hproceed
      refine ⟨RelaySender.noConfusion, fun index => ?_, fun hsaw => ?_,
        fun _ => hhears ?_⟩
      · simp [RelaySender.copies, RelayTransfer.count_copies, htodo,
          hsendIdle, hctrlIdle, Worker.holds, Worker.reads, Worker.writes]
      · have hsaw : state.ctrlDone = true := hsaw
        rw [hdone] at hsaw
        contradiction
      · intro message
        rw [hsender]
        simp [RelaySender.received, hdone, hctrlIdle]
  | returned bytesDone =>
      exact ⟨RelaySender.noConfusion, fun index => rfl,
        fun _ => ⟨bytesDone, rfl⟩, fun hnot => absurd True.intro hnot⟩
  | failed error =>
      rw [hsender] at horderly
      exact horderly.elim

/-- The receiver of a relay transfer at rest does not miss a chunk. -/
theorem Rests.relay_loop (hrests : Rests relayNetwork setting s)
    (hsound : Sound relayNetwork setting s) (hone : OneStream s)
    (hended : Ended relayNetwork s) {loop : RelayLoop}
    (hloop : s.receiver = .loop loop) : False := by
  have hopen : s.blocked relayNetwork = false := by
    simp [blocked, hloop]
  have hproceed := hrests.proceed_eq_none hopen
  rw [hloop] at hproceed
  have hnone : loop.proceed = none := hproceed
  by_cases hhead : loop.pc = .head
  · have hwaiting : loop.WaitsForChunk := by
      have hreceiver := hone.receiver
      rw [hloop] at hreceiver
      exact hreceiver
    obtain ⟨index, hpending⟩ :=
      Finset.nonempty_iff_ne_empty.mpr (hwaiting hhead)
    have hincomplete : ¬ s.receiver.Completed relayNetwork.loop := by
      rw [hloop]
      intro hcompleted
      have hdelete : loop.pc = .delete := hcompleted
      rw [hhead] at hdelete
      contradiction
    obtain ⟨_, hcopies, _, hreports⟩ := hrests.relay_sender hsound.orderly
    have hempty := hreports (hended.before hincomplete).2
    have hbalance := hsound.balance index
    have hmissing : index ∈ s.receiver.outstanding relayNetwork.loop.books := by
      rw [hloop]
      exact hpending
    have hheld : (s.receiver.copies setting.manifest relayNetwork.held).count
        index = 0 := by
      rw [hloop]
      simp [Receiver.copies, relayNetwork, RelayLoop.held, hhead]
    have hsender : (relayNetwork.copies setting.manifest s.sender).count
        index = 0 := hcopies index
    rw [if_pos hmissing, count_allCopies, hempty, hheld, hsender,
      count_messageCopies_nil] at hbalance
    have hframes : s.frames.count index = 1 := by omega
    have hstage : s.receiver.stage = .answered := by
      rw [hloop]
      rfl
    cases hcontrol : s.streams .control with
    | nil => simp [frames, hcontrol, hone.data] at hframes
    | cons item rest =>
        have hframed := hsound.framed_of_answered hstage .control item
        rw [hcontrol] at hframed
        have hfirst := hframed List.mem_cons_self
        cases item with
        | ctrl message => exact hfirst
        | chunk frame =>
            have hbytes := recvMsg_frame_bytes setting.read
              setting.msgPack.decode hfirst []
            rw [List.append_nil] at hbytes
            have hreads := hrests .receiverReads rfl
            simp [next, hloop, relayNetwork, hcontrol, relayLoopKind,
              RelayLoop.receive, hhead, hbytes] at hreads
  · have hsome := RelayLoop.proceed_isSome hhead
    rw [hnone] at hsome
    contradiction

/-- A relay transfer at rest is over. -/
theorem relay_over (hrests : Rests relayNetwork setting s)
    (hreach : (machine relayNetwork setting).Reachable s) :
    Over relayNetwork s := by
  have hsound := sound_of_reachable (relayNetwork_laws setting) hreach
  have hone := oneStream_of_reachable hreach
  have hended := ended_of_reachable (relayNetwork_laws setting)
    (relayCounter_laws setting.manifest) hreach
  obtain ⟨hgreeted, _, hreturns, hreports⟩ :=
    hrests.relay_sender hsound.orderly
  have hknows := hsound.receiver
  cases hreceiver : s.receiver with
  | setup setup =>
      rw [hreceiver] at hknows
      have hproceed := hrests.proceed_eq_none (by
        simp [blocked, hreceiver, relayNetwork])
      rw [hreceiver] at hproceed
      cases setup with
      | recvManifest =>
          have hunheard : s.receiver.stage = .unheard := by
            rw [hreceiver]
            rfl
          obtain ⟨hsender, _⟩ | ⟨_, hcontrol, _⟩ :=
            (hsound.phase_of_unheard hunheard).1
          · exact absurd hsender hgreeted
          · have hnone := hrests .receiverHears rfl
            simp [next, hcontrol, hreceiver, Receiver.received] at hnone
      | lookup m =>
          have hnone := hrests .receiverLooksUp rfl
          simp [next, hreceiver, Receiver.lookup] at hnone
      | reject => exact hknows.elim
      | failed error => exact hknows.elim
      | acceptBi => contradiction
      | createDir m => contradiction
      | create m => contradiction
      | setLen m => contradiction
      | reply m state message => contradiction
      | openFile m state => contradiction
      | ready m state => contradiction
  | loop loop => exact (hrests.relay_loop hsound hone hended hreceiver).elim
  | returned books =>
      have hcompleted : s.receiver.Completed relayNetwork.loop := by
        rw [hreceiver]
        exact True.intro
      have hcleared := hended.cleared hcompleted
      rw [hreceiver] at hcleared
      refine ⟨⟨books, hreceiver, hcleared⟩, hreturns ?_⟩
      obtain ⟨_, hsaw⟩ | ⟨hquiet, before, hbefore, _⟩ := hended.after hcompleted
      · exact hsaw
      · have hempty := hreports hquiet
        rw [hbefore] at hempty
        simp at hempty
  | failed error =>
      rw [hreceiver] at hknows
      exact hknows.elim

/-! ## A direct transfer at rest -/

variable {u : DirectState}

/-- A direct transfer at rest in which a chunk was missing is over. -/
theorem direct_over (hrests : Rests directNetwork setting u)
    (hmissing : ∃ index < setting.manifest.chunkCount,
      index ∉ setting.haveChunks)
    (hreach : (machine directNetwork setting).Reachable u) :
    Over directNetwork u := by
  obtain ⟨hsound, hsettled⟩ := settled_of_reachable hreach
  have hended := (ends_of_reachable hreach).ended
  have hsent : u.receiver.SentComplete := by
    by_contra hincomplete
    exact not_waits_of_missing hrests hsound hsettled hincomplete hmissing
  obtain ⟨books, hreturned⟩ : ∃ books, u.receiver = .returned books := by
    cases hreceiver : u.receiver with
    | returned books => exact ⟨books, rfl⟩
    | loop loop =>
        have hproceed := hrests.proceed_eq_none (by simp [blocked, hreceiver])
        rw [hreceiver] at hsent hproceed
        have hdelete : loop.pc = .delete := hsent
        obtain ⟨receiver, output, hsome⟩ := DirectLoop.proceed_eq_some
          (show loop.pc ≠ .head by rw [hdelete]; simp)
        have hnone : loop.proceed = none := hproceed
        rw [hsome] at hnone
        contradiction
    | setup setup =>
        rw [hreceiver] at hsent
        exact hsent.elim
    | failed error =>
        rw [hreceiver] at hsent
        exact hsent.elim
  have hcompleted : u.receiver.Completed directNetwork.loop := by
    rw [hreturned]
    exact True.intro
  have hcleared := hended.cleared hcompleted
  rw [hreturned] at hcleared
  refine ⟨⟨books, hreturned, hcleared⟩, ?_⟩
  have hemptied := (finale_of_reachable hreach hreturned).sender
  have horderly := hsound.orderly
  have hregular : SenderEvent.proceed.regular
      setting.manifestSource.totalSize = true := rfl
  have hstep : u.sender.step setting.manifest .proceed = none :=
    hrests.step_eq_none hregular
  cases hsender : u.sender with
  | returned bytesDone => exact ⟨bytesDone, rfl⟩
  | failed error =>
      rw [hsender] at horderly
      exact horderly.elim
  | openBi =>
      rw [hsender] at hemptied
      exact hemptied.elim
  | awaitReply =>
      rw [hsender] at hemptied
      exact hemptied.elim
  | openUni skip =>
      rw [hsender] at hemptied
      exact hemptied.elim
  | transfer state =>
      rw [hsender] at hemptied hstep
      have hdone : state.ctrlDone = true := by
        obtain ⟨_, hsaw⟩ | ⟨_, before, hbefore, _⟩ := hended.after hcompleted
        · rw [hsender] at hsaw
          exact hsaw
        · by_contra hnot
          have hempty := hrests.reports_eq_nil (by
            intro message
            rw [hsender]
            simp only [directNetwork, directSenderKind, DirectSender.step,
              DirectSender.received, if_neg hnot]
            split <;> rfl)
          rw [hbefore] at hempty
          simp at hempty
      have hproceed : state.proceed = none := by
        simp only [DirectSender.step, DirectSender.proceed] at hstep
        split at hstep
        next => contradiction
        next => exact Option.map_eq_none_iff.mp hstep
      have hfinished := Transfer.Emptied.halted hemptied hproceed hdone
      simp [DirectSender.step, DirectSender.proceed, hfinished, hdone] at hstep

end Network

/-! ## Every transfer completes -/

def corruptions (events : List NetworkEvent) : ℕ :=
  events.countP fun event => !event.lossless

theorem total_credit (events : List NetworkEvent) :
    Machine.total NetworkEvent.credit events = 9 * corruptions events := by
  induction events with
  | nil => rfl
  | cons event rest ih =>
      have hcount : corruptions (event :: rest) =
          corruptions rest + if event.lossless then 0 else 1 := by
        unfold corruptions
        rw [List.countP_cons]
        cases event <;> rfl
      have hcredit : event.credit = 9 * if event.lossless then 0 else 1 := by
        cases event <;> rfl
      rw [Machine.total, ih, hcount, hcredit]
      omega

/-- A transfer takes at most ten steps for each chunk and nine for each
corruption, beside those of its ends; and where nothing can happen any more, it
is over.  A direct transfer has to have something to send. -/
theorem transfer_completes (setting : NetworkSetting) (hreads : setting.Reads) :
    (∀ events s, (Network.machine relayNetwork setting).runFrom
        (Network.fresh relayNetwork) events = some s →
      events.length ≤
          10 * setting.manifest.chunkCount + 21 + 9 * corruptions events ∧
        (Network.Rests relayNetwork setting s → Network.Over relayNetwork s)) ∧
    ∀ events s, (Network.machine directNetwork setting).runFrom
        (Network.fresh directNetwork) events = some s →
      events.length ≤
          10 * setting.manifest.chunkCount + 21 + 9 * corruptions events ∧
        ((∃ index < setting.manifest.chunkCount,
            index ∉ setting.haveChunks) →
          Network.Rests directNetwork setting s →
          Network.Over directNetwork s) := by
  constructor
  · intro events s hrun
    constructor
    · have hlength := Network.length_le_of_run (relayNetwork_laws setting)
        (relayWork_laws hreads) (Network.starts_fresh relayNetwork) hrun
      rw [total_credit] at hlength
      exact hlength
    · intro hrests
      exact Network.relay_over hrests (Machine.Reachable.of_runFrom
        (Network.starts_fresh relayNetwork) hrun)
  · intro events s hrun
    constructor
    · have hlength := Network.length_le_of_run (directNetwork_laws setting)
        (directWork_laws hreads) (Network.starts_fresh directNetwork) hrun
      rw [total_credit] at hlength
      exact hlength
    · intro hmissing hrests
      exact Network.direct_over hrests hmissing (Machine.Reachable.of_runFrom
        (Network.starts_fresh directNetwork) hrun)

theorem transfer_completes_sample :
    (∀ events s, (Network.machine relayNetwork fifoSetting).runFrom
        (Network.fresh relayNetwork) events = some s →
      events.length ≤ 31 + 9 * corruptions events ∧
        (Network.Rests relayNetwork fifoSetting s →
          Network.Over relayNetwork s)) ∧
    ∀ events s, (Network.machine directNetwork fifoSetting).runFrom
        (Network.fresh directNetwork) events = some s →
      events.length ≤ 31 + 9 * corruptions events ∧
        (Network.Rests directNetwork fifoSetting s →
          Network.Over directNetwork s) := by
  have hreads : fifoSetting.Reads := tagRead_lookupNoise
  have hcount : 10 * fifoSetting.manifest.chunkCount + 21 = 31 := by
    decide +kernel
  have hmissing : ∃ index < fifoSetting.manifest.chunkCount,
      index ∉ fifoSetting.haveChunks := by
    refine ⟨0, ?_, ?_⟩
    · decide +kernel
    · decide +kernel
  obtain ⟨hrelay, hdirect⟩ := transfer_completes fifoSetting hreads
  rw [hcount] at hrelay hdirect
  refine ⟨hrelay, ?_⟩
  intro events s hrun
  obtain ⟨hlength, hover⟩ := hdirect events s hrun
  exact ⟨hlength, hover hmissing⟩

end P2pShare
