import P2pShare.DirectLiveness
import P2pShare.LastReport

/-!
# The end of a direct transfer

When the receiver has returned, every chunk was accepted, so that the sender
has nothing left to send, and `Complete` is the last report or was heard.
-/

namespace P2pShare

open ByteStream PathResolution TransitionMachine

/-! ## When the data stream is open -/

/-- The output goes to the data stream. -/
def SenderOutput.onData : SenderOutput → Bool
  | .sealChunk _ _ | .frame _ _ | .finish => true
  | .none | .ctrl _ => false

namespace DirectSender

/-- The data stream has been opened. -/
def Opened : DirectSender → Prop
  | transfer _ | returned _ => True
  | _ => False

variable {manifest : FileManifest} {sender next : DirectSender}
  {output : SenderOutput}

theorem opened_proceed
    (hproceed : sender.proceed manifest = some (next, output)) :
    (sender.Opened → next.Opened) ∧
      (output.onData = true → next.Opened) := by
  cases sender with
  | openBi =>
      cases hproceed
      exact ⟨fun hopened => hopened, fun hdata => Bool.noConfusion hdata⟩
  | awaitReply => contradiction
  | openUni skip =>
      cases hproceed
      exact ⟨fun _ => trivial, fun _ => trivial⟩
  | transfer state =>
      simp only [proceed] at hproceed
      split at hproceed
      next =>
        cases hproceed
        exact ⟨fun _ => trivial, fun _ => trivial⟩
      next =>
        obtain ⟨⟨next', output'⟩, _, hresult⟩ :=
          Option.map_eq_some_iff.mp hproceed
        cases hresult
        exact ⟨fun _ => trivial, fun _ => trivial⟩
  | returned bytesDone => contradiction
  | failed error => contradiction

theorem opened_read {file : Bytes} (horderly : next.Orderly)
    (hread : sender.read manifest file = some (next, output)) :
    next.Opened := by
  cases sender with
  | transfer state =>
      obtain ⟨index, _, hresult⟩ := Option.map_eq_some_iff.mp hread
      cases hchunk : readChunk file manifest index with
      | none =>
          rw [hchunk] at hresult
          cases hresult
          exact horderly.elim
      | some plaintext =>
          rw [hchunk] at hresult
          have hnext : .transfer (state.afterRead plaintext).1 = next :=
            congrArg Prod.fst hresult
          rw [← hnext]
          exact True.intro
  | openBi => contradiction
  | awaitReply => contradiction
  | openUni skip => contradiction
  | returned bytesDone => contradiction
  | failed error => contradiction

/-- Whatever touches the data stream comes after it was opened. -/
theorem opened_step {size : ℕ} {event : SenderEvent}
    (hregular : event.regular size = true) (horderly : next.Orderly)
    (hstep : sender.step manifest event = some (next, output)) :
    (sender.Opened → next.Opened) ∧
      (output.onData = true → next.Opened) := by
  cases event with
  | proceed => exact opened_proceed hstep
  | read file =>
      have hopened := opened_read horderly hstep
      exact ⟨fun _ => hopened, fun _ => hopened⟩
  | ctrlProceed => cases hstep
  | ctrlRead file => cases hstep
  | received result => cases hregular
  | fail error effect => cases hregular

theorem opened_received {result : Except Error ControlMessage}
    (hopened : sender.Opened) (horderly : next.Orderly)
    (hreceived : sender.received manifest result = some next) :
    next.Opened := by
  cases sender with
  | transfer state =>
      simp only [received] at hreceived
      split at hreceived
      next => contradiction
      next =>
        split at hreceived
        next =>
          cases hreceived
          trivial
        next =>
          cases hreceived
          exact horderly.elim
  | returned bytesDone => contradiction
  | openBi => exact hopened.elim
  | awaitReply => exact hopened.elim
  | openUni skip => exact hopened.elim
  | failed error => exact hopened.elim

end DirectSender

/-! ## When the receive loop has ended -/

namespace Receiver

/-- The receive loop has been entered. -/
def Started : DirectReceiver → Prop
  | loop _ | returned _ => True
  | _ => False

variable {outputDir : RawPath} {receiver next : DirectReceiver}
  {output : ReceiverOutput}

theorem not_started_ofSetup (setup : Setup) :
    ¬ (ofSetup setup : DirectReceiver).Started := by
  cases setup <;> exact id

theorem started_proceed
    (hproceed : receiver.proceed directKind outputDir = some (next, output))
    (hstarted : next.Started) :
    receiver.Started ∨
      ∃ manifest state, receiver = .setup (.ready manifest state) := by
  cases receiver with
  | setup setup =>
      obtain ⟨manifest, state, rfl, _⟩ | ⟨other, _, rfl⟩ :=
        setup_proceed hproceed
      · exact Or.inr ⟨manifest, state, rfl⟩
      · exact absurd hstarted (not_started_ofSetup other)
  | loop loop => exact Or.inl True.intro
  | returned books => contradiction
  | failed error => contradiction

/-- The control stream is read before the loop starts. -/
theorem not_started_received {result : Except Error ControlMessage}
    (hreceived : receiver.received result = some next) : ¬ next.Started := by
  unfold received at hreceived
  split at hreceived
  next =>
    cases hreceived
    exact not_started_ofSetup _
  next => contradiction

theorem not_started_lookup {pathExists : RawPath → Bool} {files : StateFiles}
    (hlookup : receiver.lookup outputDir pathExists files = some next) :
    ¬ next.Started := by
  unfold lookup at hlookup
  split at hlookup
  next =>
    cases hlookup
    exact not_started_ofSetup _
  next => contradiction

end Receiver

namespace Network

variable {setting : NetworkSetting} {s t : DirectState}

/-! ## What the two ends have said -/

/-- The data stream is used after it was opened, and the conversation ends with
`Complete`. -/
structure Ends (s : DirectState) : Prop where
  opened : s.seen .data = true ∨ s.receiver.Started → s.sender.Opened
  ended : Ended directNetwork s

theorem opened_of_starts (hstart : Starts directNetwork s) :
    s.seen .data = true ∨ s.receiver.Started → s.sender.Opened := by
  rintro (hseen | hstarted)
  · rw [hstart.seen] at hseen
    contradiction
  · rw [hstart.receiver] at hstarted
    exact hstarted.elim

theorem seen_of_emit {output : SenderOutput}
    (hseen : (s.emit directNetwork setting output).seen .data = true) :
    s.seen .data = true ∨ output.onData = true := by
  cases output with
  | none => exact Or.inl hseen
  | ctrl message => exact Or.inl (by simpa [emit, push] using hseen)
  | sealChunk index plaintext => exact Or.inr rfl
  | frame index plaintext => exact Or.inr rfl
  | finish => exact Or.inr rfl

/-- A receiver that does not start its loop leaves the sender alone. -/
theorem opened_of_quiet
    (hopened : s.seen .data = true ∨ s.receiver.Started → s.sender.Opened)
    (hsender : t.sender = s.sender) (hseen : t.seen = s.seen)
    (hstarted : t.receiver.Started → s.receiver.Started) :
    t.seen .data = true ∨ t.receiver.Started → t.sender.Opened := by
  rw [hsender, hseen]
  rintro (hbefore | hnow)
  · exact hopened (Or.inl hbefore)
  · exact hopened (Or.inr (hstarted hnow))

theorem opened_next (hsound : Sound directNetwork setting s)
    (hopened : s.seen .data = true ∨ s.receiver.Started → s.sender.Opened)
    {event : NetworkEvent}
    (hnext : next directNetwork setting s event = some t) :
    t.seen .data = true ∨ t.receiver.Started → t.sender.Opened := by
  have hafter := sound_next (directNetwork_laws setting) hsound hnext
  cases moves_of_next hnext with
  | @sends event sender output hregular hstep =>
      have horderly := hafter.orderly
      rw [emit_sender] at horderly
      obtain ⟨hkeeps, hdata⟩ :=
        DirectSender.opened_step hregular horderly hstep
      rw [emit_receiver, emit_sender]
      rintro (hseen | hstarted)
      · obtain hbefore | hnow := seen_of_emit hseen
        · exact hkeeps (hopened (Or.inl hbefore))
        · exact hdata hnow
      · exact hkeeps (hopened (Or.inr hstarted))
  | @hears message reports sender output _ hstep =>
      have horderly := hafter.orderly
      rw [emit_sender] at horderly
      obtain ⟨sender', hreceived, hresult⟩ := Option.map_eq_some_iff.mp hstep
      rw [Prod.mk.injEq] at hresult
      obtain ⟨rfl, rfl⟩ := hresult
      intro hopen
      exact DirectSender.opened_received (hopened hopen) horderly hreceived
  | @proceeds receiver output hopen hproceed =>
      rintro (hseen | hstarted)
      · exact hopened (Or.inl hseen)
      · obtain hbefore | ⟨manifest, state, hready⟩ :=
          Receiver.started_proceed hproceed hstarted
        · exact hopened (Or.inr hbefore)
        · have hseen : s.seen .data = true := by
            simpa [blocked, hready, directNetwork] using hopen
          exact hopened (Or.inl hseen)
  | receives _ hreceived =>
      have hnot := Receiver.not_started_received hreceived
      exact opened_of_quiet hopened rfl rfl fun hnow => absurd hnow hnot
  | looksUp hlookup =>
      have hnot := Receiver.not_started_lookup hlookup
      exact opened_of_quiet hopened rfl rfl fun hnow => absurd hnow hnot
  | reads hloop _ _ =>
      refine opened_of_quiet hopened rfl rfl fun _ => ?_
      rw [hloop]
      exact True.intro
  | readsCtrl hloop hstream _ => exact (hsound.no_readsCtrl hloop hstream).elim
  | corrupts _ _ => exact hopened

theorem ends_of_reachable (hreach : (machine directNetwork setting).Reachable s) :
    Ends s := by
  have hopened : Sound directNetwork setting s ∧
      (s.seen .data = true ∨ s.receiver.Started → s.sender.Opened) := by
    apply hreach.invariant
    · intro s₀ hstart
      exact ⟨sound_of_starts (directNetwork_laws setting) hstart,
        opened_of_starts hstart⟩
    · rintro u event v ⟨hsound, hopened⟩ hnext
      exact ⟨sound_next (directNetwork_laws setting) hsound hnext,
        opened_next hsound hopened hnext⟩
  exact ⟨hopened.2, ended_of_reachable (directNetwork_laws setting)
    (directCounter_laws setting.manifest) hreach⟩

end Network

/-! ## When the receiver has returned -/

namespace Transfer

/-- Nothing is left to send or to resend. -/
def Emptied (state : Transfer) : Prop :=
  state.todo = [] ∧ state.nacks = [] ∧
    (state.pc = .readFirst ∨ state.pc = .drain ∨ state.pc = .serve ∨
      state.pc = .finished)

variable {state next : Transfer} {output : SenderOutput}

theorem emptied_of_idle (hprimed : state.Primed) (htodo : state.todo = [])
    (hnacks : state.nacks = []) (hsent : state.beingSent = []) :
    state.Emptied := by
  refine ⟨htodo, hnacks, ?_⟩
  unfold Primed at hprimed
  unfold beingSent at hsent
  cases hpc : state.pc with
  | readFirst => exact Or.inl rfl
  | encode =>
      rw [hpc] at hprimed
      exact absurd htodo hprimed.1
  | joining frame reading =>
      rw [hpc] at hprimed hsent
      cases reading with
      | true => exact absurd htodo (hprimed.1 rfl)
      | false =>
          cases frame with
          | none => exact absurd rfl (hprimed.2 rfl).1
          | some frame => cases hsent
  | drain => exact Or.inr (Or.inl rfl)
  | retransmit index serving =>
      rw [hpc] at hsent
      cases hsent
  | resend index plaintext serving =>
      rw [hpc] at hsent
      cases hsent
  | serve => exact Or.inr (Or.inr (Or.inl rfl))
  | finished => exact Or.inr (Or.inr (Or.inr rfl))

/-- The steps that are left to the send loop. -/
def stepsLeft (state : Transfer) : ℕ :=
  match state.pc with
  | .finished => 1
  | .serve => 2
  | _ => 3

theorem Emptied.proceed (hemptied : state.Emptied)
    (hproceed : state.proceed = some (next, output)) :
    next.Emptied ∧ next.ctrlDone = state.ctrlDone ∧ output = .none ∧
      next.stepsLeft < state.stepsLeft := by
  obtain ⟨htodo, hnacks, hpc | hpc | hpc | hpc⟩ := hemptied
  · simp only [Transfer.proceed, hpc, htodo] at hproceed
    cases hproceed
    simp [Emptied, stepsLeft, hnacks, hpc]
  · simp only [Transfer.proceed, hpc, hnacks, htodo] at hproceed
    cases hproceed
    simp [Emptied, stepsLeft, hpc]
  · simp only [Transfer.proceed, hpc, hnacks] at hproceed
    split at hproceed
    next hdone =>
      cases hproceed
      simp [Emptied, stepsLeft, htodo, hpc]
    next => contradiction
  · simp only [Transfer.proceed, hpc] at hproceed
    contradiction

theorem Emptied.reading (hemptied : state.Emptied) : state.reading? = none := by
  obtain ⟨htodo, _, hpc | hpc | hpc | hpc⟩ := hemptied
  · simp [reading?, hpc, htodo]
  · simp [reading?, hpc]
  · simp [reading?, hpc]
  · simp [reading?, hpc]

/-- A send loop that cannot go on waits for the control loop. -/
theorem Emptied.halted (hemptied : state.Emptied)
    (hproceed : state.proceed = none) (hdone : state.ctrlDone = true) :
    state.pc = .finished := by
  obtain ⟨htodo, hnacks, hpc | hpc | hpc | hpc⟩ := hemptied
  · simp [Transfer.proceed, hpc, htodo] at hproceed
  · simp [Transfer.proceed, hpc, hnacks] at hproceed
  · simp [Transfer.proceed, hpc, hnacks, hdone] at hproceed
  · exact hpc

end Transfer

namespace DirectSender

def Emptied : DirectSender → Prop
  | transfer state => state.Emptied
  | returned _ | failed _ => True
  | _ => False

def stepsLeft : DirectSender → ℕ
  | transfer state => state.stepsLeft
  | _ => 0

end DirectSender

namespace Network

variable {setting : NetworkSetting} {s t : DirectState}

/-- What the sender has still to hear does not make it send. -/
structure Finale (s : DirectState) : Prop where
  returned : ∃ books, s.receiver = .returned books
  sender : s.sender.Emptied
  reports : ∀ message ∈ s.reports,
    message = .complete ∨ ∃ bytes, message = .progress bytes
  failed : ∀ error, s.sender = .failed error → s.reports = []

theorem finale_of_returned (hsound : Sound directNetwork setting s)
    (hsettled : Settled setting s) (hends : Ends s) {books : Books}
    (hreturned : s.receiver = .returned books) : Finale s := by
  have hpending : s.receiver.pending? directNetwork.loop.books = some ∅ := by
    have hcleared := hends.ended.cleared (by rw [hreturned]; exact True.intro)
    rw [hreturned] at hcleared ⊢
    exact congrArg some hcleared
  have hnothing := hsound.oneCopyEach.nothing_left hpending
  have hcount : ∀ index, (s.sender.copies setting.manifest).count index +
      (messageCopies setting.manifest s.reports).count index = 0 := by
    intro index
    have hbalance := @count_allCopies _ _ directNetwork setting s index
    rw [hnothing, Copies.count_none] at hbalance
    have hkind : (directNetwork.copies setting.manifest s.sender).count index =
        (s.sender.copies setting.manifest).count index := rfl
    omega
  have hopened : s.sender.Opened := by
    apply hends.opened
    rw [hreturned]
    exact Or.inr True.intro
  have hreports : ∀ message ∈ s.reports, IsReport message := by
    cases hsound.phase with
    | silent hsender _ _ _ =>
        rw [hsender] at hopened
        exact hopened.elim
    | announced hsender _ _ _ _ =>
        rw [hsender] at hopened
        exact hopened.elim
    | deciding hsender _ _ _ =>
        rw [hsender] at hopened
        exact hopened.elim
    | answered _ _ hsender _ _ _ _ _ =>
        rw [hsender] at hopened
        exact hopened.elim
    | running _ _ _ hrest => exact hrest
  constructor
  · exact ⟨books, hreturned⟩
  · have hprimed := hsettled.primed
    cases hsender : s.sender with
    | transfer state =>
        rw [hsender] at hprimed hcount
        have hempty : state.copies = Copies.none := by
          apply Copies.eq_none_of_count
          intro index
          have hzero := hcount index
          have hkind : (DirectSender.copies setting.manifest
              (.transfer state)).count index = state.copies.count index := rfl
          omega
        have htodo : state.todo = [] := congrArg Copies.stillToSend hempty
        have hsent : state.beingSent = [] := congrArg Copies.inFlight hempty
        have hnacks : state.nacks = [] := congrArg Copies.nackQueued hempty
        exact Transfer.emptied_of_idle hprimed htodo hnacks hsent
    | returned bytesDone => exact True.intro
    | failed error => exact True.intro
    | openBi =>
        rw [hsender] at hopened
        exact hopened.elim
    | awaitReply =>
        rw [hsender] at hopened
        exact hopened.elim
    | openUni skip =>
        rw [hsender] at hopened
        exact hopened.elim
  · intro message hmessage
    have hreport := hreports message hmessage
    cases message with
    | complete => exact Or.inl rfl
    | progress bytes => exact Or.inr ⟨bytes, rfl⟩
    | chunkNack index =>
        obtain ⟨left, right, hsplit⟩ := List.append_of_mem hmessage
        have hzero := hcount index
        rw [hsplit, count_messageCopies_append, count_messageCopies_cons,
          count_messageCopies_chunkNack, List.count_singleton_self] at hzero
        omega
    | manifest manifest => exact hreport.elim
    | manifestAck => exact hreport.elim
    | resumeRequest haveChunks => exact hreport.elim
    | error code text => exact hreport.elim
  · intro error hfailed
    rw [hfailed] at hopened
    exact hopened.elim

theorem finale_of_reachable (hreach : (machine directNetwork setting).Reachable s)
    {books : Books} (hreturned : s.receiver = .returned books) : Finale s := by
  obtain ⟨hsound, hsettled⟩ := settled_of_reachable hreach
  exact finale_of_returned hsound hsettled (ends_of_reachable hreach) hreturned

end Network

end P2pShare
