import P2pShare.SenderProgress

/-!
# The last report

`Complete` is the last thing a receiver says, and the sender sees it when it
hears it.  Both kinds of transfer satisfy this by their laws, so the invariant
speaks of a kind.
-/

namespace P2pShare

open ByteStream PathResolution TransitionMachine

variable {Sender Loop : Type}

namespace Receiver

/-- `Complete` has been sent. -/
def Completed (kind : LoopKind Loop) : Receiver Loop → Prop
  | loop l => kind.completed l
  | returned _ => True
  | setup _ | failed _ => False

variable {kind : LoopKind Loop} {outputDir : RawPath}
  {receiver next : Receiver Loop} {output : ReceiverOutput}

theorem not_completed_ofSetup (setup : Setup) :
    ¬ (ofSetup setup : Receiver Loop).Completed kind := by
  cases setup <;> exact id

theorem not_completed_received {result : Except Error ControlMessage}
    (hreceived : receiver.received result = some next) :
    ¬ receiver.Completed kind ∧ ¬ next.Completed kind := by
  unfold received at hreceived
  split at hreceived
  next =>
    cases hreceived
    exact ⟨id, not_completed_ofSetup _⟩
  next => contradiction

theorem not_completed_lookup {pathExists : RawPath → Bool} {files : StateFiles}
    (hlookup : receiver.lookup outputDir pathExists files = some next) :
    ¬ receiver.Completed kind ∧ ¬ next.Completed kind := by
  unfold lookup at hlookup
  split at hlookup
  next =>
    cases hlookup
    exact ⟨id, not_completed_ofSetup _⟩
  next => contradiction

/-- A setup goes on, or ends where the loop starts. -/
theorem setup_proceed {loops : ReceiveLoop Loop} {setup : Setup}
    (hproceed : (Receiver.setup setup).proceed loops outputDir =
      some (next, output)) :
    (∃ manifest state, setup = .ready manifest state ∧
        next = .loop (loops.start (.start outputDir manifest state)) ∧
        output = .none) ∨
      ∃ other, setup.proceed outputDir = some (other, output) ∧
        next = ofSetup other := by
  cases setup with
  | ready manifest state =>
      cases hproceed
      exact Or.inl ⟨manifest, state, rfl, rfl, rfl⟩
  | acceptBi =>
      cases hproceed
      exact Or.inr ⟨_, rfl, rfl⟩
  | reject =>
      cases hproceed
      exact Or.inr ⟨_, rfl, rfl⟩
  | createDir manifest =>
      cases hproceed
      exact Or.inr ⟨_, rfl, rfl⟩
  | create manifest =>
      cases hproceed
      exact Or.inr ⟨_, rfl, rfl⟩
  | setLen manifest =>
      cases hproceed
      exact Or.inr ⟨_, rfl, rfl⟩
  | reply manifest state message =>
      cases hproceed
      exact Or.inr ⟨_, rfl, rfl⟩
  | openFile manifest state =>
      cases hproceed
      exact Or.inr ⟨_, rfl, rfl⟩
  | recvManifest => contradiction
  | lookup manifest => contradiction
  | failed error => contradiction

/-- The setup does not say `Complete`. -/
theorem complete_not_mem_setup {manifest : FileManifest} {setup other : Setup}
    (hsound : (Receiver.setup setup : Receiver Loop).Sound kind manifest)
    (hproceed : setup.proceed outputDir = some (other, output)) :
    .complete ∉ output.messages := by
  cases setup with
  | reply m state message =>
      cases hproceed
      intro hmessage
      have hcomplete : .complete = message := List.mem_singleton.mp hmessage
      have hreply := hsound.2.2
      rw [← hcomplete] at hreply
      contradiction
  | reject => exact hsound.elim
  | acceptBi =>
      cases hproceed
      exact List.not_mem_nil
  | createDir m =>
      cases hproceed
      exact List.not_mem_nil
  | create m =>
      cases hproceed
      exact List.not_mem_nil
  | setLen m =>
      cases hproceed
      exact List.not_mem_nil
  | openFile m state =>
      cases hproceed
      exact List.not_mem_nil
  | ready m state => contradiction
  | recvManifest => contradiction
  | lookup m => contradiction
  | failed error => contradiction

/-- `Complete` is sent by the step that ends the loop, when no chunk is missed,
and nothing after it. -/
theorem completed_proceed (hlaws : kind.Laws) {manifest : FileManifest}
    (hsound : receiver.Sound kind manifest)
    (hproceed : receiver.proceed kind.toReceiveLoop outputDir =
      some (next, output)) :
    (¬ receiver.Completed kind ∧ ¬ next.Completed kind ∧
        .complete ∉ output.messages) ∨
      (¬ receiver.Completed kind ∧ next.Completed kind ∧
        output.messages = [.complete] ∧
        next.outstanding kind.books = ∅) ∨
      receiver.Completed kind ∧ next.Completed kind ∧ output.messages = [] ∧
        next.outstanding kind.books = receiver.outstanding kind.books := by
  cases receiver with
  | setup setup =>
      obtain ⟨m, state, _, rfl, rfl⟩ | ⟨other, hsetup, rfl⟩ :=
        setup_proceed hproceed
      · exact Or.inl ⟨id, hlaws.start_not_completed _, List.not_mem_nil⟩
      · exact Or.inl ⟨id, not_completed_ofSetup other,
          complete_not_mem_setup hsound hsetup⟩
  | loop loop =>
      obtain ⟨after, rfl, hbefore, hfacts⟩ | ⟨hcompleted, rfl, rfl⟩ :=
        hlaws.proceed_cases hsound.1 hproceed
      · by_cases hafter : kind.completed after
        · obtain ⟨houtput, _, hpending, _, _⟩ :=
            hfacts.complete (Or.inr hafter)
          refine Or.inr (Or.inl ⟨hbefore, hafter, by rw [houtput]; rfl, ?_⟩)
          obtain ⟨index, plaintext, hwrites⟩ | hwaits := hfacts.moves
          · have hfile := hwrites.output
            rw [houtput] at hfile
            contradiction
          · exact hwaits.pending.trans hpending
        · refine Or.inl ⟨hbefore, hafter, ?_⟩
          intro hmessage
          have houtput : output = .ctrl .complete := by
            cases output with
            | ctrl message =>
                rw [List.mem_singleton.mp hmessage]
            | none => contradiction
            | file op => contradiction
            | save state => contradiction
            | delete state => contradiction
          exact hafter (hfacts.complete (Or.inl houtput)).2.1
      · exact Or.inr (Or.inr ⟨hcompleted, True.intro, rfl, rfl⟩)
  | returned books => contradiction
  | failed error => contradiction

theorem not_completed_receive (hlaws : kind.Laws)
    {read : ℕ → Bytes → Option Bytes} {decode : Bytes → Option ControlMessage}
    {input : Bytes} {loop : Loop} (hregular : kind.Regular loop)
    (hreceive : kind.receive read decode input loop = some next) :
    ¬ next.Completed kind := by
  obtain ⟨error, rfl⟩ | ⟨after, rfl, _, hfacts⟩ :=
    hlaws.receive_cases hregular hreceive
  · exact id
  · exact hfacts.not_completed

end Receiver

namespace Network

variable {kind : NetworkKind Sender Loop} {setting : NetworkSetting}
  {s t : Network Sender Loop}

/-! ## The steps of a network -/

variable (kind setting) in
/-- Who moves, and what it does to the network. -/
inductive Moves (s : Network Sender Loop) :
    NetworkEvent → Network Sender Loop → Prop
  | sends {event : SenderEvent} {next : Sender} {output : SenderOutput} :
      event.regular setting.manifestSource.totalSize = true →
      kind.sender.step setting.manifest s.sender event = some (next, output) →
      Moves s (.sender event) ({ s with sender := next }.emit kind setting output)
  | hears {message : ControlMessage} {reports : List ControlMessage}
      {next : Sender} {output : SenderOutput} :
      s.reports = message :: reports →
      kind.sender.step setting.manifest s.sender (.received (.ok message)) =
        some (next, output) →
      Moves s .senderHears
        ({ s with sender := next, reports }.emit kind setting output)
  | proceeds {receiver : Receiver Loop} {output : ReceiverOutput} :
      s.blocked kind = false →
      s.receiver.proceed kind.loop.toReceiveLoop setting.outputDir =
        some (receiver, output) →
      Moves s .receiverProceeds (s.receiverMoves kind receiver output)
  | receives {item : Item} {rest : List Item} {receiver : Receiver Loop}
      {result : Except Error ControlMessage} :
      s.streams .control = item :: rest →
      s.receiver.received result = some receiver →
      Moves s .receiverHears ({ s with receiver }.pop .control rest)
  | looksUp {receiver : Receiver Loop} :
      s.receiver.lookup setting.outputDir setting.pathExists setting.files =
        some receiver →
      Moves s .receiverLooksUp { s with receiver }
  | reads {loop : Loop} {frame : Frame} {rest : List Item}
      {receiver : Receiver Loop} :
      s.receiver = .loop loop →
      s.streams kind.dataStream = .chunk frame :: rest →
      kind.loop.receive setting.read setting.msgPack.decode (kind.wire frame)
        loop = some receiver →
      Moves s .receiverReads ({ s with receiver }.pop kind.dataStream rest)
  | readsCtrl {loop : Loop} {message : ControlMessage} {rest : List Item}
      {receiver : Receiver Loop} :
      s.receiver = .loop loop →
      s.streams kind.dataStream = .ctrl message :: rest →
      kind.hearsAtLoop message loop = some receiver →
      Moves s .receiverReads ({ s with receiver }.pop kind.dataStream rest)
  | corrupts {stream : Stream} {position : ℕ} {subs : List Bytes}
      {item other : Item} :
      (s.streams stream)[position]? = some item →
      item.overwrite subs = some other →
      Moves s (.corrupt stream position subs)
        (s.pop stream ((s.streams stream).set position other))

theorem moves_of_next {event : NetworkEvent}
    (hnext : next kind setting s event = some t) :
    Moves kind setting s event t := by
  cases event with
  | sender event =>
      simp only [next] at hnext
      split at hnext
      next hregular =>
        obtain ⟨⟨sender, output⟩, hstep, rfl⟩ :=
          Option.map_eq_some_iff.mp hnext
        exact .sends hregular hstep
      next => contradiction
  | senderHears =>
      simp only [next] at hnext
      split at hnext
      next message reports hreports =>
        obtain ⟨⟨sender, output⟩, hstep, rfl⟩ :=
          Option.map_eq_some_iff.mp hnext
        exact .hears hreports hstep
      next => contradiction
  | receiverProceeds =>
      simp only [next] at hnext
      split at hnext
      next => contradiction
      next hopen =>
        obtain ⟨⟨receiver, output⟩, hproceed, rfl⟩ :=
          Option.map_eq_some_iff.mp hnext
        exact .proceeds (Bool.eq_false_iff.mpr hopen) hproceed
  | receiverHears =>
      simp only [next] at hnext
      split at hnext
      next message rest hstream =>
        obtain ⟨receiver, hreceived, rfl⟩ := Option.map_eq_some_iff.mp hnext
        exact .receives hstream hreceived
      next frame rest hstream =>
        obtain ⟨receiver, hreceived, rfl⟩ := Option.map_eq_some_iff.mp hnext
        exact .receives hstream hreceived
      next => contradiction
  | receiverLooksUp =>
      obtain ⟨receiver, hlookup, rfl⟩ := Option.map_eq_some_iff.mp hnext
      exact .looksUp hlookup
  | receiverReads =>
      simp only [next] at hnext
      split at hnext
      next loop frame rest hloop hstream =>
        obtain ⟨receiver, hreceive, rfl⟩ := Option.map_eq_some_iff.mp hnext
        exact .reads hloop hstream hreceive
      next loop message rest hloop hstream =>
        obtain ⟨receiver, hhears, rfl⟩ := Option.map_eq_some_iff.mp hnext
        exact .readsCtrl hloop hstream hhears
      next => contradiction
  | corrupt stream position subs =>
      obtain ⟨item, hitem, hresult⟩ := Option.bind_eq_some_iff.mp hnext
      obtain ⟨other, hother, rfl⟩ := Option.map_eq_some_iff.mp hresult
      exact .corrupts hitem hother

/-- A loop does not meet a control message. -/
theorem Sound.no_readsCtrl (hsound : Sound kind setting s) {loop : Loop}
    {message : ControlMessage} {rest : List Item}
    (hloop : s.receiver = .loop loop)
    (hstream : s.streams kind.dataStream = .ctrl message :: rest) : False := by
  have hstage : s.receiver.stage = .answered := by
    rw [hloop]
    rfl
  have hframed := hsound.framed_of_answered hstage kind.dataStream
    (.ctrl message)
  rw [hstream] at hframed
  exact hframed List.mem_cons_self

/-! ## The end of the conversation -/

/-- `Complete` is said once, when no chunk is missed; it is the last report, and
the sender has seen it or will. -/
structure Ended (kind : NetworkKind Sender Loop) (s : Network Sender Loop) :
    Prop where
  before : ¬ s.receiver.Completed kind.loop →
    .complete ∉ s.reports ∧ ¬ kind.sender.sawComplete s.sender
  after : s.receiver.Completed kind.loop →
    (s.reports = [] ∧ kind.sender.sawComplete s.sender) ∨
      ¬ kind.sender.sawComplete s.sender ∧ ∃ before,
        s.reports = before ++ [.complete] ∧ .complete ∉ before
  cleared : s.receiver.Completed kind.loop →
    s.receiver.outstanding kind.loop.books = ∅

section Laws

variable {counter : Sender → Option ℕ}

/-- The sender sees `Complete` when it hears it, and not before. -/
theorem hears_complete_iff (hlaws : kind.Laws setting)
    (hcounter : CounterLaws kind.sender kind.awaiting setting.manifest counter)
    (hsound : Sound kind setting s) {message : ControlMessage}
    {reports : List ControlMessage} {next : Sender} {output : SenderOutput}
    (hreports : s.reports = message :: reports)
    (hstep : kind.sender.step setting.manifest s.sender
      (.received (.ok message)) = some (next, output)) :
    ¬ kind.sender.sawComplete s.sender ∧
      (kind.sender.sawComplete next ↔ message = .complete) := by
  cases hsound.phase with
  | silent _ _ _ hempty => simp [hempty] at hreports
  | announced _ _ _ _ hempty => simp [hempty] at hreports
  | deciding _ _ _ hempty => simp [hempty] at hreports
  | answered reply rest hsender _ _ hqueue hreply _ =>
      rw [hreports, List.cons.injEq] at hqueue
      obtain ⟨rfl, rfl⟩ := hqueue
      obtain ⟨skip, hskip⟩ := hreply
      rw [hsender] at hstep ⊢
      have hquiet := (hcounter.credit hskip hstep).2
      have hne : message ≠ .complete := by
        rintro rfl
        cases hskip
      exact ⟨not_saw_of_none hcounter hcounter.awaiting_none,
        iff_of_false hquiet hne⟩
  | running hreplied _ _ hrest =>
      rw [hreports] at hrest
      have hreport := hrest message List.mem_cons_self
      obtain ⟨done, hdone⟩ := (hcounter.replied_iff _).mp hreplied
      obtain ⟨_, _, hkeeps, _⟩ := hlaws.received hsound.orderly
        (iff_of_false hreport.not_isReply (not_not_intro hreplied))
        hreport.ne_error hstep
      obtain ⟨hquiet, _, hsaw⟩ := hcounter.heard hkeeps hdone hstep
      exact ⟨hquiet, hsaw⟩

theorem ended_of_starts (hlaws : kind.Laws setting) (hstart : Starts kind s) :
    Ended kind s := by
  have hnot : ¬ s.receiver.Completed kind.loop := by
    rw [hstart.receiver]
    exact id
  constructor
  · intro _
    rw [hstart.reports, hstart.sender]
    exact ⟨List.not_mem_nil, hlaws.sender.start_not_sawComplete⟩
  · exact fun hcompleted => absurd hcompleted hnot
  · exact fun hcompleted => absurd hcompleted hnot

/-- A step before the end that says nothing. -/
theorem Ended.of_quiet (hended : Ended kind s) (hsender : t.sender = s.sender)
    (hreports : t.reports = s.reports)
    (hbefore : ¬ s.receiver.Completed kind.loop)
    (hafter : ¬ t.receiver.Completed kind.loop) : Ended kind t where
  before := by
    intro _
    rw [hreports, hsender]
    exact hended.before hbefore
  after := fun hcompleted => absurd hcompleted hafter
  cleared := fun hcompleted => absurd hcompleted hafter

theorem ended_hears (hlaws : kind.Laws setting)
    (hcounter : CounterLaws kind.sender kind.awaiting setting.manifest counter)
    (hsound : Sound kind setting s) (hended : Ended kind s)
    {message : ControlMessage} {reports : List ControlMessage} {next : Sender}
    {output : SenderOutput} (hreports : s.reports = message :: reports)
    (hstep : kind.sender.step setting.manifest s.sender
      (.received (.ok message)) = some (next, output)) :
    Ended kind ({ s with sender := next, reports }.emit kind setting
      output) := by
  obtain ⟨hquiet, hsaw⟩ :=
    hears_complete_iff hlaws hcounter hsound hreports hstep
  constructor
  · intro hnot
    rw [emit_receiver] at hnot
    rw [emit_reports, emit_sender]
    dsimp only at hnot ⊢
    have hnone := (hended.before hnot).1
    rw [hreports, List.mem_cons, not_or] at hnone
    rw [hsaw]
    exact ⟨hnone.2, fun heq => hnone.1 heq.symm⟩
  · intro hcompleted
    rw [emit_receiver] at hcompleted
    rw [emit_reports, emit_sender]
    dsimp only at hcompleted ⊢
    rw [hsaw]
    obtain ⟨hempty, _⟩ | ⟨_, before, hbefore, hnot⟩ := hended.after hcompleted
    · rw [hempty] at hreports
      contradiction
    · rw [hreports] at hbefore
      cases before with
      | nil =>
          rw [List.nil_append, List.cons.injEq] at hbefore
          exact Or.inl ⟨hbefore.2, hbefore.1⟩
      | cons first rest =>
          rw [List.cons_append, List.cons.injEq] at hbefore
          rw [List.mem_cons, not_or] at hnot
          obtain ⟨rfl, hrest⟩ := hbefore
          exact Or.inr ⟨fun heq => hnot.1 heq.symm, rest, hrest, hnot.2⟩
  · intro hcompleted
    rw [emit_receiver] at hcompleted ⊢
    exact hended.cleared hcompleted

theorem ended_proceeds (hlaws : kind.Laws setting)
    (hsound : Sound kind setting s) (hended : Ended kind s)
    {receiver : Receiver Loop} {output : ReceiverOutput}
    (hproceed : s.receiver.proceed kind.loop.toReceiveLoop setting.outputDir =
      some (receiver, output)) :
    Ended kind (s.receiverMoves kind receiver output) := by
  obtain ⟨hbefore, hafter, hsilent⟩ | ⟨hbefore, hafter, hsays, hcleared⟩ |
      ⟨hbefore, hafter, hsilent, hkept⟩ :=
    Receiver.completed_proceed hlaws.loop hsound.receiver hproceed
  · have hnone := hended.before hbefore
    constructor
    · intro _
      refine ⟨?_, hnone.2⟩
      intro hmem
      obtain hold | hnew := List.mem_append.mp hmem
      · exact hnone.1 hold
      · exact hsilent hnew
    · exact fun hcompleted => absurd hcompleted hafter
    · exact fun hcompleted => absurd hcompleted hafter
  · have hnone := hended.before hbefore
    constructor
    · exact fun hnot => absurd hafter hnot
    · intro _
      refine Or.inr ⟨hnone.2, s.reports, ?_, hnone.1⟩
      exact congrArg (s.reports ++ ·) hsays
    · exact fun _ => hcleared
  · have hreports : s.reports ++ output.messages = s.reports := by
      rw [hsilent, List.append_nil]
    constructor
    · exact fun hnot => absurd hafter hnot
    · intro _
      have hends := hended.after hbefore
      rw [← hreports] at hends
      exact hends
    · exact fun _ => hkept.trans (hended.cleared hbefore)

theorem ended_next (hlaws : kind.Laws setting)
    (hcounter : CounterLaws kind.sender kind.awaiting setting.manifest counter)
    (hsound : Sound kind setting s) (hended : Ended kind s)
    {event : NetworkEvent} (hnext : next kind setting s event = some t) :
    Ended kind t := by
  cases moves_of_next hnext with
  | @sends event sender output hregular hstep =>
      have hsaw := (sender_keeps hlaws hcounter hsound hregular hstep).2
      constructor
      · rw [emit_receiver, emit_reports, emit_sender, hsaw]
        exact hended.before
      · rw [emit_receiver, emit_reports, emit_sender, hsaw]
        exact hended.after
      · rw [emit_receiver]
        exact hended.cleared
  | hears hreports hstep =>
      exact ended_hears hlaws hcounter hsound hended hreports hstep
  | proceeds _ hproceed => exact ended_proceeds hlaws hsound hended hproceed
  | receives _ hreceived =>
      obtain ⟨hbefore, hafter⟩ := Receiver.not_completed_received hreceived
      exact hended.of_quiet rfl rfl hbefore hafter
  | looksUp hlookup =>
      obtain ⟨hbefore, hafter⟩ := Receiver.not_completed_lookup hlookup
      exact hended.of_quiet rfl rfl hbefore hafter
  | @reads loop frame rest receiver hloop _ hreceive =>
      have hreceiver := hsound.receiver
      rw [hloop] at hreceiver
      have hbefore : ¬ s.receiver.Completed kind.loop := by
        rw [hloop]
        obtain ⟨error, rfl⟩ | ⟨_, _, hnot, _⟩ :=
          hlaws.loop.receive_cases hreceiver.1 hreceive
        · exact (sound_next hlaws hsound hnext).receiver.elim
        · exact hnot
      exact hended.of_quiet rfl rfl hbefore
        (Receiver.not_completed_receive hlaws.loop hreceiver.1 hreceive)
  | readsCtrl hloop hstream _ =>
      exact (hsound.no_readsCtrl hloop hstream).elim
  | corrupts _ _ => exact ⟨hended.before, hended.after, hended.cleared⟩

theorem ended_of_reachable (hlaws : kind.Laws setting)
    (hcounter : CounterLaws kind.sender kind.awaiting setting.manifest counter)
    (hreach : (machine kind setting).Reachable s) : Ended kind s := by
  have hboth : Sound kind setting s ∧ Ended kind s := by
    apply hreach.invariant
    · intro s₀ hstart
      exact ⟨sound_of_starts hlaws hstart, ended_of_starts hlaws hstart⟩
    · rintro u event v ⟨hsound, hended⟩ hnext
      exact ⟨sound_next hlaws hsound hnext,
        ended_next hlaws hcounter hsound hended hnext⟩
  exact hboth.2

end Laws

end Network

end P2pShare
