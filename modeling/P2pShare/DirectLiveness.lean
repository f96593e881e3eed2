import P2pShare.CopyBalance

/-!
# Stuck states of a direct transfer

Over a lossless connection a direct transfer gets stuck exactly when there is
nothing to send: the receiver then waits for a data stream on which the sender
never writes.  Else, in a state where nobody can move and `Complete` has not
been sent, the receiver misses a chunk, and its one copy would have to be in a
place from which somebody could move it on.
-/

namespace P2pShare

open ByteStream PathResolution TransitionMachine

/-! ## The machine without corruption -/

def NetworkEvent.lossless : NetworkEvent → Bool
  | .corrupt _ _ _ => false
  | _ => true

abbrev DirectState := Network DirectSender DirectLoop

noncomputable def losslessMachine (setting : NetworkSetting) :
    Machine DirectState NetworkEvent :=
  (Network.machine directNetwork setting).restrict fun _ event =>
    event.lossless = true

namespace Receiver

/-- `Complete` has been sent. -/
def SentComplete : DirectReceiver → Prop
  | loop l => l.pc = .delete
  | returned _ => True
  | _ => False

end Receiver

/-- Both sides wait, nothing is on its way, and the transfer is not over. -/
structure Stuck (setting : NetworkSetting) (s : DirectState) : Prop where
  waiting : (losslessMachine setting).Halted s
  no_item : ∀ stream, s.streams stream = []
  no_report : s.reports = []
  incomplete : ¬ s.receiver.SentComplete

/-! ## The read-ahead of the send loop -/

namespace Transfer

/-- Where the send loop takes its buffer, the buffer is filled. -/
def Primed (state : Transfer) : Prop :=
  match state.pc with
  | .encode => state.todo ≠ [] ∧ state.buffer ≠ none
  | .joining frame reading =>
      (reading = true → state.todo ≠ []) ∧
        (reading = false →
          frame ≠ none ∧ (state.todo = [] ∨ state.buffer ≠ none))
  | .drain | .retransmit _ false | .resend _ _ false =>
      state.todo = [] ∨ state.buffer ≠ none
  | _ => True

theorem primed_proceed {state next : Transfer} {output : SenderOutput}
    (hprimed : state.Primed)
    (hproceed : state.proceed = some (next, output)) : next.Primed := by
  unfold proceed at hproceed
  unfold Primed at hprimed
  split at hproceed
  next hpc =>
    split at hproceed
    · cases hproceed
      trivial
    · contradiction
  next hpc =>
    split at hproceed
    next index rest plaintext htodo hbuffer =>
      cases hproceed
      cases rest with
      | nil => simp [Primed]
      | cons other rest => simp [Primed]
    next => contradiction
  next index plaintext reading hpc =>
    cases hproceed
    rw [hpc] at hprimed
    cases reading with
    | true => simpa [Primed, joined] using hprimed.1
    | false => simpa [Primed, joined] using hprimed.2
  next => contradiction
  next hpc =>
    rw [hpc] at hprimed
    split at hproceed
    next index rest hnacks =>
      cases hproceed
      exact hprimed
    next hnacks =>
      cases hproceed
      by_cases htodo : state.todo = []
      · simp [Primed, htodo]
      · have hbuffer := hprimed.resolve_left htodo
        simp [Primed, htodo, hbuffer]
  next index plaintext serving hpc =>
    cases hproceed
    rw [hpc] at hprimed
    cases serving with
    | true => trivial
    | false => exact hprimed
  next hpc =>
    split at hproceed
    next index rest hnacks =>
      cases hproceed
      trivial
    next hnacks =>
      split at hproceed
      · cases hproceed
        trivial
      · contradiction
  next => contradiction
  next => contradiction

theorem primed_afterRead {state : Transfer} {index : ℕ} (plaintext : Bytes)
    (hprimed : state.Primed) (hreading : state.reading? = some index) :
    (state.afterRead plaintext).1.Primed := by
  unfold reading? at hreading
  unfold Primed at hprimed
  split at hreading
  next hpc =>
    have htodo : state.todo ≠ [] := by
      intro htodo
      simp [htodo] at hreading
    simp [afterRead, hpc, Primed, htodo]
  next frame hpc =>
    cases frame with
    | none => simp [afterRead, hpc, Primed, joined]
    | some frame => simp [afterRead, hpc, Primed, joined]
  next index' serving hpc =>
    rw [hpc] at hprimed
    cases serving with
    | true => simp [afterRead, hpc, Primed]
    | false => simpa [afterRead, hpc, Primed] using hprimed
  next => contradiction

/-- A send loop that cannot move serves NACKs of which there are none. -/
theorem idle_of_halted {state : Transfer} (hprimed : state.Primed)
    (hpassed : state.Orderly) (hdone : state.ctrlDone = false)
    (hproceed : state.proceed = none) (hreading : state.reading? = none) :
    state.todo = [] ∧ state.nacks = [] ∧ state.beingSent = [] := by
  unfold proceed at hproceed
  unfold Primed at hprimed
  cases hpc : state.pc with
  | readFirst =>
      by_cases htodo : state.todo = []
      · simp [hpc, htodo] at hproceed
      · simp [reading?, hpc, htodo] at hreading
  | encode =>
      rw [hpc] at hprimed
      cases htodo : state.todo with
      | nil => exact absurd htodo hprimed.1
      | cons index rest =>
          cases hbuffer : state.buffer with
          | none => exact absurd hbuffer hprimed.2
          | some plaintext => simp [hpc, htodo, hbuffer] at hproceed
  | joining frame reading =>
      rw [hpc] at hprimed
      cases reading with
      | true =>
          have htodo := hprimed.1 rfl
          simp [reading?, hpc, htodo] at hreading
      | false =>
          cases frame with
          | none => exact absurd rfl (hprimed.2 rfl).1
          | some frame => simp [hpc] at hproceed
  | drain =>
      cases hnacks : state.nacks with
      | nil => simp [hpc, hnacks] at hproceed
      | cons index rest => simp [hpc, hnacks] at hproceed
  | retransmit index serving => simp [reading?, hpc] at hreading
  | resend index plaintext serving => simp [hpc] at hproceed
  | serve =>
      have htodo : state.todo = [] := by
        apply hpassed.passed
        rw [hpc]
        rfl
      cases hnacks : state.nacks with
      | nil => simp [htodo, beingSent, hpc]
      | cons index rest => simp [hpc, hnacks] at hproceed
  | finished =>
      have hcontra := (hpassed.finished hpc).2
      rw [hdone] at hcontra
      contradiction

end Transfer

namespace DirectSender

def Primed : DirectSender → Prop
  | transfer state => state.Primed
  | _ => True

variable {manifest : FileManifest} {sender next : DirectSender}
  {output : SenderOutput}

theorem primed_proceed (hprimed : sender.Primed)
    (hproceed : sender.proceed manifest = some (next, output)) :
    next.Primed := by
  cases sender with
  | openBi =>
      cases hproceed
      trivial
  | openUni skip =>
      cases hproceed
      trivial
  | transfer state =>
      simp only [proceed] at hproceed
      split at hproceed
      · cases hproceed
        trivial
      · rcases Option.map_eq_some_iff.mp hproceed with
          ⟨⟨state', output'⟩, hstep, hresult⟩
        cases hresult
        exact Transfer.primed_proceed hprimed hstep
  | awaitReply => contradiction
  | returned bytesDone => contradiction
  | failed error => contradiction

theorem primed_read {file : Bytes} (hprimed : sender.Primed)
    (hread : sender.read manifest file = some (next, output)) :
    next.Primed := by
  cases sender with
  | transfer state =>
      rcases Option.map_eq_some_iff.mp hread with ⟨index, hreading, hresult⟩
      cases hchunk : readChunk file manifest index with
      | none =>
          rw [hchunk] at hresult
          cases hresult
          trivial
      | some plaintext =>
          rw [hchunk] at hresult
          cases hresult
          exact Transfer.primed_afterRead plaintext hprimed hreading
  | openBi => contradiction
  | awaitReply => contradiction
  | openUni skip => contradiction
  | returned bytesDone => contradiction
  | failed error => contradiction

theorem primed_received {result : Except Error ControlMessage}
    (hprimed : sender.Primed)
    (hreceived : sender.received manifest result = some next) :
    next.Primed := by
  cases sender with
  | awaitReply =>
      simp only [received] at hreceived
      split at hreceived
      · cases hreceived
        trivial
      · cases hreceived
        trivial
  | transfer state =>
      simp only [received] at hreceived
      split at hreceived
      · contradiction
      · split at hreceived
        next state' hmessage =>
          cases hreceived
          cases result with
          | error error => contradiction
          | ok message => cases message <;> cases hmessage <;> exact hprimed
        next =>
          cases hreceived
          trivial
  | openBi => contradiction
  | openUni skip => contradiction
  | returned bytesDone => contradiction
  | failed error => contradiction

theorem primed_fail {error : Error} {effect : Bool}
    (hfail : sender.fail manifest error effect = some (next, output)) :
    next.Primed := by
  unfold fail at hfail
  split at hfail
  · contradiction
  · contradiction
  · split at hfail
    · cases hfail
      trivial
    · cases hfail
      trivial

theorem primed_step {event : SenderEvent} (hprimed : sender.Primed)
    (hstep : sender.step manifest event = some (next, output)) :
    next.Primed := by
  cases event with
  | proceed => exact primed_proceed hprimed hstep
  | read file => exact primed_read hprimed hstep
  | received result =>
      rcases Option.map_eq_some_iff.mp hstep with ⟨next', hreceived, hresult⟩
      cases hresult
      exact primed_received hprimed hreceived
  | ctrlProceed => contradiction
  | ctrlRead file => contradiction
  | fail error effect => exact primed_fail hstep

end DirectSender

/-! ## The receive loop -/

namespace DirectLoop

/-- The loop waits for a frame only while it misses a chunk. -/
def WaitsForChunk (loop : DirectLoop) : Prop :=
  loop.pc = .head → loop.books.pending ≠ ∅

theorem toHead_waits (loop : DirectLoop) : loop.toHead.WaitsForChunk := by
  intro hhead hpending
  simp only [toHead_books] at hpending
  simp [toHead, hpending] at hhead

theorem countSave_waits (loop : DirectLoop) : loop.countSave.WaitsForChunk := by
  rcases countSave_cases loop with hsave | hhead
  · rw [hsave]
    exact fun h => absurd h (by simp)
  · rw [hhead]
    exact toHead_waits _

theorem recordChunk_waits (loop : DirectLoop) (index : ℕ)
    (plaintext : Bytes) :
    (loop.recordChunk index plaintext).WaitsForChunk := by
  rcases recordChunk_cases loop index plaintext with hack | hcount
  · rw [hack]
    exact fun h => absurd h (by simp)
  · rw [hcount]
    exact countSave_waits _

/-- Away from the head the loop moves on its own, and `Complete` is the last
thing it says. -/
theorem proceed_eq_some {loop : DirectLoop} (hhead : loop.pc ≠ .head) :
    ∃ receiver output, loop.proceed = some (receiver, output) := by
  unfold proceed
  cases hpc : loop.pc with
  | head => exact absurd hpc hhead
  | _ => exact ⟨_, _, rfl⟩

end DirectLoop

namespace Receiver

/-- A resumed receiver has the chunks of the saved state, and a receive loop
waits only for chunks it misses. -/
def Settled (haveChunks : Finset ℕ) : DirectReceiver → Prop
  | setup (.reply _ state _) | setup (.openFile _ state)
  | setup (.ready _ state) => state.chunksDone = haveChunks
  | setup (.createDir _) | setup (.create _) | setup (.setLen _) =>
      haveChunks = ∅
  | loop l => l.WaitsForChunk
  | _ => True

theorem loop_settled {haveChunks : Finset ℕ} {loop : DirectLoop}
    {receiver : DirectReceiver} {output : ReceiverOutput}
    (hproceed : loop.proceed = some (receiver, output)) :
    receiver.Settled haveChunks ∧
      (loop.pc = .delete ∨ output = .ctrl .complete →
        receiver.SentComplete) := by
  unfold DirectLoop.proceed at hproceed
  split at hproceed
  next => contradiction
  next index hpc =>
    cases hproceed
    exact ⟨DirectLoop.toHead_waits loop, by simp [hpc]⟩
  next index plaintext hpc =>
    cases hproceed
    exact ⟨fun h => absurd h (by simp), by simp [hpc]⟩
  next index plaintext hpc =>
    cases hproceed
    exact ⟨DirectLoop.recordChunk_waits loop index plaintext, by simp [hpc]⟩
  next hpc =>
    cases hproceed
    exact ⟨DirectLoop.countSave_waits _, by simp [hpc]⟩
  next hpc =>
    cases hproceed
    exact ⟨DirectLoop.toHead_waits _, by simp [hpc]⟩
  next hpc =>
    cases hproceed
    exact ⟨fun h => absurd h (by simp), by simp [hpc]⟩
  next hpc =>
    cases hproceed
    exact ⟨fun h => absurd h (by simp), by simp [hpc]⟩
  next hpc =>
    cases hproceed
    exact ⟨fun h => absurd h (by simp), fun _ => rfl⟩
  next hpc =>
    cases hproceed
    exact ⟨trivial, fun _ => trivial⟩

theorem receive_settled {haveChunks : Finset ℕ} {loop : DirectLoop}
    {read : ℕ → Bytes → Option Bytes} {input rest : Bytes}
    {receiver : DirectReceiver}
    (hreceive : loop.receive read input = some (receiver, rest)) :
    receiver.Settled haveChunks := by
  unfold DirectLoop.receive at hreceive
  split at hreceive
  next hhead =>
    rcases Option.map_eq_some_iff.mp hreceive with
      ⟨⟨⟨outcome, bytesDone⟩, rest'⟩, _, hresult⟩
    cases hresult
    cases outcome with
    | failed error => trivial
    | skipped => exact DirectLoop.toHead_waits _
    | nack index => exact fun h => absurd h (by simp)
    | accepted index plaintext => exact fun h => absurd h (by simp)
  next => contradiction

theorem setup_settled {haveChunks : Finset ℕ} {outputDir : RawPath}
    {setup : Setup} {receiver : DirectReceiver} {output : ReceiverOutput}
    (hsettled : (Receiver.setup setup : DirectReceiver).Settled haveChunks)
    (hproceed : (Receiver.setup setup).proceed directKind outputDir =
      some (receiver, output)) :
    receiver.Settled haveChunks := by
  cases setup with
  | setLen manifest =>
      cases hproceed
      exact hsettled.symm
  | acceptBi =>
      cases hproceed
      trivial
  | reject =>
      cases hproceed
      trivial
  | createDir manifest =>
      cases hproceed
      exact hsettled
  | create manifest =>
      cases hproceed
      exact hsettled
  | reply manifest state message =>
      cases hproceed
      exact hsettled
  | openFile manifest state =>
      cases hproceed
      exact hsettled
  | ready manifest state =>
      cases hproceed
      exact DirectLoop.toHead_waits _
  | recvManifest => contradiction
  | lookup manifest => contradiction
  | failed error => contradiction

end Receiver

/-! ## What a direct transfer keeps -/

namespace Network

variable {setting : NetworkSetting} {s t : DirectState}

structure Settled (setting : NetworkSetting) (s : DirectState) : Prop where
  primed : s.sender.Primed
  receiver : s.receiver.Settled setting.haveChunks
  control : ∀ item ∈ s.streams .control, ∃ message, item = .ctrl message
  seen : s.sender ≠ .openBi → s.seen .control = true
  unseen : s.seen .data = false → s.streams .data = []
  complete : .complete ∈ s.reports ∨ s.sender.SawComplete →
    s.receiver.SentComplete

theorem settled_of_starts (hstart : Starts directNetwork s) :
    Settled setting s where
  primed := by
    rw [hstart.sender]
    trivial
  receiver := by
    rw [hstart.receiver]
    trivial
  control := by simp [hstart.streams]
  seen := fun hsender => absurd hstart.sender hsender
  unseen := fun _ => hstart.streams .data
  complete := by
    rintro (hreport | hsaw)
    · rw [hstart.reports] at hreport
      contradiction
    · rw [hstart.sender] at hsaw
      contradiction

theorem control_emit (output : SenderOutput)
    (hcontrol : ∀ item ∈ s.streams .control, ∃ message, item = .ctrl message) :
    ∀ item ∈ (s.emit directNetwork setting output).streams .control,
      ∃ message, item = .ctrl message := by
  cases output with
  | ctrl message =>
      intro item hitem
      simp only [emit, push, Function.update_self, List.mem_append,
        List.mem_singleton] at hitem
      rcases hitem with hold | rfl
      · exact hcontrol item hold
      · exact ⟨message, rfl⟩
  | frame index plaintext =>
      simpa [emit, push, directNetwork] using hcontrol
  | none => exact hcontrol
  | sealChunk index plaintext => exact hcontrol
  | finish => exact hcontrol

theorem seen_emit {stream : Stream} (output : SenderOutput)
    (hseen : s.seen stream = true) :
    (s.emit directNetwork setting output).seen stream = true := by
  have hupdate : ∀ other, Function.update s.seen other true stream = true := by
    intro other
    by_cases hother : stream = other
    · subst hother
      exact Function.update_self _ _ _
    · rw [Function.update_of_ne hother]
      exact hseen
  cases output with
  | none => exact hseen
  | ctrl message => exact hupdate _
  | sealChunk index plaintext => exact hupdate _
  | frame index plaintext => exact hupdate _
  | finish => exact hupdate _

theorem unseen_emit (output : SenderOutput)
    (hunseen : s.seen .data = false → s.streams .data = []) :
    (s.emit directNetwork setting output).seen .data = false →
      (s.emit directNetwork setting output).streams .data = [] := by
  cases output with
  | none => exact hunseen
  | ctrl message => simpa [emit, push] using hunseen
  | sealChunk index plaintext => simp [emit, touch, directNetwork]
  | frame index plaintext => simp [emit, push, directNetwork]
  | finish => simp [emit, touch, directNetwork]

/-- A step of the sender, which has heard `heard` if anything. -/
theorem settled_sender {event : SenderEvent} {next : DirectSender}
    {output : SenderOutput} {reports : List ControlMessage}
    (hsettled : Settled setting s)
    (hstep : s.sender.step setting.manifest event = some (next, output))
    (hopen : s.sender = .openBi → ∃ message, output = .ctrl message)
    (hreports : ∀ message ∈ reports, message ∈ s.reports)
    (hheard : event = .received (.ok .complete) → .complete ∈ s.reports) :
    Settled setting
      ({ s with sender := next, reports }.emit directNetwork setting
        output) := by
  constructor
  · simpa using DirectSender.primed_step hsettled.primed hstep
  · simpa using hsettled.receiver
  · exact control_emit output hsettled.control
  · intro _
    by_cases hsender : s.sender = .openBi
    · rcases hopen hsender with ⟨message, rfl⟩
      simp [emit, push]
    · exact seen_emit output (hsettled.seen hsender)
  · exact unseen_emit output hsettled.unseen
  · intro hcomplete
    simp only [emit_reports, emit_sender, emit_receiver] at hcomplete ⊢
    apply hsettled.complete
    rcases hcomplete with hreport | hsaw
    · exact Or.inl (hreports _ hreport)
    · have hfacts :=
        (directSenderKind_laws setting.manifest).stepFacts_of_step hstep
      rcases hfacts.sawComplete hsaw with hbefore | hevent
      · exact Or.inr hbefore
      · exact Or.inl (hheard hevent)

theorem settled_proceeds (hsound : Sound directNetwork setting s)
    (hsettled : Settled setting s) {receiver : DirectReceiver}
    {output : ReceiverOutput}
    (hproceed : s.receiver.proceed directKind setting.outputDir =
      some (receiver, output)) :
    Settled setting (s.receiverMoves directNetwork receiver output) := by
  have hboth : receiver.Settled setting.haveChunks ∧
      (s.receiver.SentComplete ∨ .complete ∈ output.messages →
        receiver.SentComplete) := by
    have hreceiver := hsettled.receiver
    have hknows := hsound.receiver
    cases hbefore : s.receiver with
    | setup setup =>
        rw [hbefore] at hproceed hreceiver hknows
        refine ⟨Receiver.setup_settled hreceiver hproceed, ?_⟩
        rintro (hsent | hmessage)
        · contradiction
        · cases setup with
          | reply m state message =>
              cases hproceed
              have hcomplete : .complete = message :=
                List.mem_singleton.mp hmessage
              rw [← hcomplete] at hknows
              have hreply := hknows.2.2
              contradiction
          | reject => exact hknows.elim
          | acceptBi =>
              cases hproceed
              contradiction
          | createDir m =>
              cases hproceed
              contradiction
          | create m =>
              cases hproceed
              contradiction
          | setLen m =>
              cases hproceed
              contradiction
          | openFile m state =>
              cases hproceed
              contradiction
          | ready m state =>
              cases hproceed
              contradiction
          | recvManifest => contradiction
          | lookup m => contradiction
          | failed error => contradiction
    | loop loop =>
        rw [hbefore] at hproceed
        rcases Receiver.loop_settled hproceed with ⟨hnext, hsent⟩
        refine ⟨hnext, fun hcomplete => hsent ?_⟩
        rcases hcomplete with hdelete | hmessage
        · exact Or.inl hdelete
        · cases output with
          | ctrl message =>
              rw [List.mem_singleton.mp hmessage]
              exact Or.inr rfl
          | none => contradiction
          | file op => contradiction
          | save state => contradiction
          | delete state => contradiction
    | returned books =>
        rw [hbefore] at hproceed
        contradiction
    | failed error =>
        rw [hbefore] at hproceed
        contradiction
  rcases hboth with ⟨hreceiver, hsent⟩
  constructor
  · exact hsettled.primed
  · exact hreceiver
  · exact hsettled.control
  · exact hsettled.seen
  · exact hsettled.unseen
  · intro hcomplete
    apply hsent
    rcases hcomplete with hreport | hsaw
    · rcases List.mem_append.mp hreport with hold | hnew
      · exact Or.inl (hsettled.complete (Or.inl hold))
      · exact Or.inr hnew
    · exact Or.inl (hsettled.complete (Or.inr hsaw))

/-- A receiver that takes something from a stream has not sent `Complete`. -/
theorem settled_takes (hsettled : Settled setting s)
    {receiver : DirectReceiver} {stream : Stream} {item : Item}
    {rest : List Item} (hstream : s.streams stream = item :: rest)
    (hreceiver : receiver.Settled setting.haveChunks)
    (hincomplete : ¬ s.receiver.SentComplete) :
    Settled setting ({ s with receiver }.pop stream rest) := by
  have hsubset : ∀ other, ∀ item' ∈ Function.update s.streams stream rest
      other, item' ∈ s.streams other := by
    intro other item' hitem
    by_cases hother : other = stream
    · subst hother
      rw [Function.update_self] at hitem
      rw [hstream]
      exact List.mem_cons_of_mem _ hitem
    · rw [Function.update_of_ne hother] at hitem
      exact hitem
  constructor
  · exact hsettled.primed
  · exact hreceiver
  · exact fun item' hitem => hsettled.control item' (hsubset _ item' hitem)
  · exact hsettled.seen
  · intro hunseen
    apply List.eq_nil_iff_forall_not_mem.mpr
    intro item' hitem
    have hold := hsubset _ item' hitem
    rw [hsettled.unseen hunseen] at hold
    contradiction
  · intro hcomplete
    exact absurd (hsettled.complete hcomplete) hincomplete

theorem haveChunks_eq :
    (setting.found = none → setting.haveChunks = ∅) ∧
      ∀ state, setting.found = some state →
        setting.haveChunks = state.chunksDone := by
  constructor
  · intro hfound
    simp [NetworkSetting.haveChunks, hfound]
  · intro state hfound
    simp [NetworkSetting.haveChunks, hfound]

theorem settled_lookup (hsound : Sound directNetwork setting s)
    {receiver : DirectReceiver}
    (hlookup : s.receiver.lookup setting.outputDir setting.pathExists
      setting.files = some receiver) :
    ¬ s.receiver.SentComplete ∧ receiver.Settled setting.haveChunks := by
  have hknows := hsound.receiver
  cases hbefore : s.receiver with
  | setup setup =>
      rw [hbefore] at hlookup hknows
      cases setup with
      | lookup m =>
          have hm : m = setting.manifest := hknows
          subst m
          refine ⟨id, ?_⟩
          simp only [Receiver.lookup, Option.some.injEq] at hlookup
          have hfound : findResumable setting.pathExists setting.files
              setting.manifest setting.outputDir = setting.found := rfl
          rw [hfound] at hlookup
          cases hstate : setting.found with
          | none =>
              rw [hstate] at hlookup
              subst hlookup
              exact haveChunks_eq.1 hstate
          | some state =>
              rw [hstate] at hlookup
              subst hlookup
              exact (haveChunks_eq.2 state hstate).symm
      | _ => contradiction
  | loop loop =>
      rw [hbefore] at hlookup
      contradiction
  | returned books =>
      rw [hbefore] at hlookup
      contradiction
  | failed error =>
      rw [hbefore] at hlookup
      contradiction

theorem settled_next (hsound : Sound directNetwork setting s)
    (hsettled : Settled setting s) {event : NetworkEvent}
    (hnext : next directNetwork setting s event = some t) :
    Settled setting t := by
  cases event with
  | sender event =>
      simp only [next] at hnext
      split at hnext
      next hregular =>
        rcases Option.map_eq_some_iff.mp hnext with
          ⟨⟨sender, output⟩, hstep, rfl⟩
        apply settled_sender hsettled hstep
        · intro hsender
          rw [hsender] at hstep
          exact ⟨_, (DirectSender.start_step hregular hstep).2⟩
        · exact fun _ hmessage => hmessage
        · rintro rfl
          contradiction
      next => contradiction
  | senderHears =>
      simp only [next] at hnext
      split at hnext
      next message reports hreports =>
        rcases Option.map_eq_some_iff.mp hnext with
          ⟨⟨sender, output⟩, hstep, rfl⟩
        have hreceived : s.sender.step setting.manifest
            (.received (.ok message)) = some (sender, output) := hstep
        apply settled_sender hsettled hreceived
        · intro hsender
          rw [hsender] at hreceived
          contradiction
        · intro other hother
          rw [hreports]
          exact List.mem_cons_of_mem _ hother
        · intro hheard
          cases hheard
          rw [hreports]
          exact List.mem_cons_self
      next => contradiction
  | receiverProceeds =>
      simp only [next] at hnext
      split at hnext
      next => contradiction
      next =>
        rcases Option.map_eq_some_iff.mp hnext with
          ⟨⟨receiver, output⟩, hproceed, rfl⟩
        exact settled_proceeds hsound hsettled hproceed
  | receiverHears =>
      have hmove : ∀ result receiver, s.receiver.received result =
          some receiver →
          ¬ s.receiver.SentComplete ∧
            receiver.Settled setting.haveChunks := by
        intro result receiver hreceived
        cases hbefore : s.receiver with
        | setup setup =>
            rw [hbefore] at hreceived
            refine ⟨id, ?_⟩
            cases setup with
            | recvManifest =>
                cases hreceived
                cases result with
                | error error => trivial
                | ok message =>
                    cases message with
                    | manifest m =>
                        cases hmode : m.transferMode with
                        | bulk =>
                            simp only [Setup.afterManifest, hmode,
                              Receiver.ofSetup]
                            trivial
                        | streaming config =>
                            simp only [Setup.afterManifest, hmode,
                              Receiver.ofSetup]
                            trivial
                    | _ => trivial
            | _ => contradiction
        | loop loop =>
            rw [hbefore] at hreceived
            contradiction
        | returned books =>
            rw [hbefore] at hreceived
            contradiction
        | failed error =>
            rw [hbefore] at hreceived
            contradiction
      simp only [next] at hnext
      split at hnext
      next message rest hstream =>
        rcases Option.map_eq_some_iff.mp hnext with ⟨receiver, hreceived, rfl⟩
        rcases hmove _ _ hreceived with ⟨hincomplete, hreceiver⟩
        exact settled_takes hsettled hstream hreceiver hincomplete
      next frame rest hstream =>
        rcases Option.map_eq_some_iff.mp hnext with ⟨receiver, hreceived, rfl⟩
        rcases hmove _ _ hreceived with ⟨hincomplete, hreceiver⟩
        exact settled_takes hsettled hstream hreceiver hincomplete
      next => contradiction
  | receiverLooksUp =>
      rcases Option.map_eq_some_iff.mp hnext with ⟨receiver, hlookup, rfl⟩
      rcases settled_lookup hsound hlookup with ⟨hincomplete, hreceiver⟩
      constructor
      · exact hsettled.primed
      · exact hreceiver
      · exact hsettled.control
      · exact hsettled.seen
      · exact hsettled.unseen
      · intro hcomplete
        exact absurd (hsettled.complete hcomplete) hincomplete
  | receiverReads =>
      simp only [next] at hnext
      split at hnext
      next loop frame rest hloop hstream =>
        rcases Option.map_eq_some_iff.mp hnext with ⟨receiver, hreceive, rfl⟩
        rcases Option.map_eq_some_iff.mp hreceive with
          ⟨⟨receiver', left⟩, hread, hresult⟩
        cases hresult
        apply settled_takes hsettled hstream
        · exact Receiver.receive_settled hread
        · rw [hloop]
          intro hdelete
          unfold DirectLoop.receive at hread
          rw [if_neg (by rw [hdelete]; simp)] at hread
          contradiction
      next => contradiction
      next => contradiction
  | corrupt stream position subs =>
      rcases Option.bind_eq_some_iff.mp hnext with ⟨item, hitem, hresult⟩
      rcases Option.map_eq_some_iff.mp hresult with
        ⟨item', hoverwrite, rfl⟩
      rcases (Item.overwrite_eq_some hoverwrite).1 with ⟨frame, rfl⟩
      have hmem := List.mem_of_getElem? hitem
      have hdata : stream = .data := by
        cases stream with
        | control =>
            rcases hsettled.control _ hmem with ⟨message, hctrl⟩
            contradiction
        | data => rfl
      subst hdata
      constructor
      · exact hsettled.primed
      · exact hsettled.receiver
      · simpa [pop] using hsettled.control
      · exact hsettled.seen
      · intro hunseen
        rw [hsettled.unseen hunseen] at hmem
        contradiction
      · exact hsettled.complete

theorem settled_of_reachable
    (hreach : (machine directNetwork setting).Reachable s) :
    Sound directNetwork setting s ∧ Settled setting s := by
  apply hreach.invariant
  · intro s₀ hstart
    exact ⟨sound_of_starts (directNetwork_laws setting) hstart,
      settled_of_starts hstart⟩
  · rintro u event v ⟨hsound, hsettled⟩ hnext
    exact ⟨sound_next (directNetwork_laws setting) hsound hnext,
      settled_next hsound hsettled hnext⟩

/-! ## Nobody can move -/

/-- What remains when no step but a corruption is possible. -/
def Waits (setting : NetworkSetting) (s : DirectState) : Prop :=
  ∀ event, event.lossless = true → next directNetwork setting s event = none

theorem waits_of_halted (hhalted : (losslessMachine setting).Halted s) :
    Waits setting s := by
  intro event hlossless
  cases hnext : next directNetwork setting s event with
  | none => rfl
  | some t =>
      have hstep : (losslessMachine setting).next s event = some t :=
        Machine.restrict_next_eq_some.mpr ⟨hnext, hlossless⟩
      rw [hhalted event] at hstep
      contradiction

theorem Waits.proceed_eq_none (hwaits : Waits setting s) :
    s.sender.proceed setting.manifest = none := by
  have hnone := hwaits (.sender .proceed) rfl
  simpa [next, SenderEvent.regular, directNetwork, directSenderKind,
    DirectSender.step] using hnone

theorem Waits.read_eq_none (hwaits : Waits setting s) :
    ∃ file, s.sender.read setting.manifest file = none := by
  let file : Bytes := List.replicate setting.manifestSource.totalSize 0
  have hnone := hwaits (.sender (.read file)) rfl
  have hlength : file.length = setting.manifestSource.totalSize :=
    List.length_replicate
  refine ⟨file, ?_⟩
  simpa [next, SenderEvent.regular, hlength, directNetwork, directSenderKind,
    DirectSender.step] using hnone

/-- A sender that cannot move waits for a message and holds no copy. -/
theorem Waits.sender_idle (hwaits : Waits setting s)
    (hsound : Sound directNetwork setting s) (hsettled : Settled setting s)
    (hincomplete : ¬ s.receiver.SentComplete) :
    (∀ index, (s.sender.copies setting.manifest).count index = 0) ∧
      ∀ message,
        (s.sender.received setting.manifest (.ok message)).isSome := by
  have hproceed := hwaits.proceed_eq_none
  rcases hwaits.read_eq_none with ⟨file, hread⟩
  have horderly := hsound.orderly
  have hprimed := hsettled.primed
  have hsaw : ¬ s.sender.SawComplete := fun hsaw =>
    hincomplete (hsettled.complete (Or.inr hsaw))
  cases hsender : s.sender with
  | openBi =>
      rw [hsender] at hproceed
      contradiction
  | awaitReply =>
      refine ⟨fun index => rfl, fun message => ?_⟩
      cases hskip : replySkip (.ok message) with
      | ok skip => simp [DirectSender.received, hskip]
      | error error => simp [DirectSender.received, hskip]
  | openUni skip =>
      rw [hsender] at hproceed
      contradiction
  | transfer state =>
      rw [hsender] at hproceed hread horderly hprimed hsaw
      have hdone : state.ctrlDone = false := Bool.eq_false_iff.mpr hsaw
      have hstate : state.proceed = none := by
        have hnot : ¬ (state.pc = .finished ∧ state.ctrlDone = true) :=
          fun h => hsaw h.2
        simp only [DirectSender.proceed, if_neg hnot] at hproceed
        exact Option.map_eq_none_iff.mp hproceed
      have hreading : state.reading? = none :=
        Option.map_eq_none_iff.mp hread
      rcases Transfer.idle_of_halted hprimed horderly hdone hstate hreading
        with ⟨htodo, hnacks, hsent⟩
      refine ⟨fun index => ?_, fun message => ?_⟩
      · simp [DirectSender.copies, Transfer.count_copies, htodo, hnacks, hsent]
      · cases hmessage : ctrlMessage setting.manifest state (.ok message) with
        | ok next => simp [DirectSender.received, hdone, hmessage]
        | error error =>
            simp [DirectSender.received, hdone, hmessage]
  | returned bytesDone =>
      rw [hsender] at hsaw
      exact absurd trivial hsaw
  | failed error =>
      rw [hsender] at horderly
      exact horderly.elim

theorem Waits.reports_eq_nil (hwaits : Waits setting s)
    (hsound : Sound directNetwork setting s) (hsettled : Settled setting s)
    (hincomplete : ¬ s.receiver.SentComplete) : s.reports = [] := by
  cases hreports : s.reports with
  | nil => rfl
  | cons message rest =>
      have hnone := hwaits .senderHears rfl
      have hidle := (hwaits.sender_idle hsound hsettled hincomplete).2 message
      rcases Option.isSome_iff_exists.mp hidle with ⟨sender, hreceived⟩
      simp [next, hreports, directNetwork, directSenderKind,
        DirectSender.step, hreceived] at hnone

/-- If nobody can move, the copies are on the data stream or in the hands of
the receiver. -/
theorem Waits.copy_left (hwaits : Waits setting s)
    (hsound : Sound directNetwork setting s) (hsettled : Settled setting s)
    (hincomplete : ¬ s.receiver.SentComplete) {index : ℕ}
    (hmissing : index ∈ s.receiver.outstanding DirectLoop.books) :
    0 < s.frames.count index +
      (s.receiver.copies setting.manifest DirectLoop.held).count index := by
  have hreports := hwaits.reports_eq_nil hsound hsettled hincomplete
  have hsender := (hwaits.sender_idle hsound hsettled hincomplete).1 index
  have hbalance := hsound.balance index
  rw [count_allCopies, hreports] at hbalance
  have hone : (if index ∈ s.receiver.outstanding directNetwork.loop.books
      then 1 else 0) = 1 := if_pos hmissing
  rw [hone] at hbalance
  simp only [directNetwork, count_messageCopies_nil] at hbalance hsender ⊢
  omega

theorem Waits.setup_eq_none (hwaits : Waits setting s)
    (hopen : s.blocked directNetwork = false) :
    s.receiver.proceed directKind setting.outputDir = none := by
  have hnone := hwaits .receiverProceeds rfl
  simp only [next, hopen, Bool.false_eq_true, if_false] at hnone
  exact Option.map_eq_none_iff.mp hnone

/-- A receiver that has answered and is not waiting for the data stream. -/
theorem not_waits_of_loop (hwaits : Waits setting s)
    (hsound : Sound directNetwork setting s) (hsettled : Settled setting s)
    {loop : DirectLoop} (hloop : s.receiver = .loop loop)
    (hincomplete : ¬ s.receiver.SentComplete) : False := by
  have hstage : s.receiver.stage = .answered := by
    rw [hloop]
    rfl
  have hframed := hsound.framed_of_answered hstage
  have hopen : s.blocked directNetwork = false := by
    simp [blocked, hloop]
  have hproceed := hwaits.setup_eq_none hopen
  rw [hloop] at hproceed
  by_cases hhead : loop.pc = .head
  · have hwaiting := hsettled.receiver
    rw [hloop] at hwaiting
    rcases Finset.nonempty_iff_ne_empty.mpr (hwaiting hhead) with
      ⟨index, hpending⟩
    have hmissing : index ∈ s.receiver.outstanding DirectLoop.books := by
      rw [hloop]
      exact hpending
    have hcopy := hwaits.copy_left hsound hsettled hincomplete hmissing
    have hheld : (s.receiver.copies setting.manifest DirectLoop.held).count
        index = 0 := by
      rw [hloop]
      simp [Receiver.copies, DirectLoop.held, hhead]
    rw [hheld, Nat.add_zero] at hcopy
    have hcontrol : s.streams .control = [] := by
      apply List.eq_nil_iff_forall_not_mem.mpr
      intro item hitem
      rcases hsettled.control item hitem with ⟨message, rfl⟩
      exact hframed .control _ hitem
    cases hdata : s.streams .data with
    | nil => simp [frames, hcontrol, hdata] at hcopy
    | cons item rest =>
        have hitem := hframed .data item
        rw [hdata] at hitem
        have hfirst := hitem List.mem_cons_self
        cases item with
        | ctrl message => exact hfirst
        | chunk frame =>
            have hknows := hsound.receiver
            rw [hloop] at hknows
            have hmanifest : loop.books.manifest = setting.manifest :=
              hknows.2.1
            have hframe : frame.WellFramed (maxPayload loop.books.manifest) := by
              rw [hmanifest]
              exact hfirst
            have hbytes := readFrame_bytes setting.read loop.books.pending
              loop.books.bytesDone hframe []
            rw [List.append_nil] at hbytes
            have hnone := hwaits .receiverReads rfl
            simp [next, hloop, directNetwork, hdata, directLoopKind,
              DirectLoop.receive, hhead, hbytes] at hnone
  · rcases DirectLoop.proceed_eq_some hhead with ⟨receiver, output, hsome⟩
    have hcontra : loop.proceed = none := hproceed
    rw [hsome] at hcontra
    contradiction

theorem not_waits_of_missing (hwaits : Waits setting s)
    (hsound : Sound directNetwork setting s) (hsettled : Settled setting s)
    (hincomplete : ¬ s.receiver.SentComplete)
    (hmissing : ∃ index < setting.manifest.chunkCount,
      index ∉ setting.haveChunks) : False := by
  have hknows := hsound.receiver
  have hreceiver := hsettled.receiver
  cases hbefore : s.receiver with
  | setup setup =>
      rw [hbefore] at hknows hreceiver
      have hmoves : s.blocked directNetwork = false →
          (Receiver.setup setup : DirectReceiver).proceed directKind
            setting.outputDir = none := by
        intro hopen
        rw [← hbefore]
        exact hwaits.setup_eq_none hopen
      cases setup with
      | acceptBi =>
          by_cases hsender : s.sender = .openBi
          · have hproceed := hwaits.proceed_eq_none
            rw [hsender] at hproceed
            contradiction
          · have hcontra := hmoves (by
              simp [blocked, hbefore, directNetwork, hsettled.seen hsender])
            contradiction
      | recvManifest =>
          have hunheard : s.receiver.stage = .unheard := by
            rw [hbefore]
            rfl
          rcases (hsound.phase_of_unheard hunheard).1 with
            ⟨hsender, _⟩ | ⟨_, hcontrol, _⟩
          · have hproceed := hwaits.proceed_eq_none
            rw [hsender] at hproceed
            contradiction
          · have hnone := hwaits .receiverHears rfl
            simp [next, hcontrol, hbefore, Receiver.received] at hnone
      | reject => exact hknows
      | lookup m =>
          have hnone := hwaits .receiverLooksUp rfl
          simp [next, hbefore, Receiver.lookup] at hnone
      | ready m state =>
          cases hseen : s.seen .data with
          | true =>
              have hcontra := hmoves (by
                simp [blocked, hbefore, directNetwork, hseen])
              contradiction
          | false =>
              rcases hmissing with ⟨index, hlt, hnot⟩
              have hstate : state.chunksDone = setting.haveChunks := hreceiver
              have hout : index ∈ s.receiver.outstanding DirectLoop.books := by
                rw [hbefore]
                have hmem : index ∈ state.missingChunks := by
                  rw [TransferState.mem_missingChunks, hknows.2, hstate]
                  exact ⟨hlt, hnot⟩
                simpa [Receiver.outstanding, Receiver.pending?] using hmem
              have hcopy := hwaits.copy_left hsound hsettled hincomplete hout
              have hstage : s.receiver.stage = .answered := by
                rw [hbefore]
                rfl
              have hcontrol : s.streams .control = [] := by
                apply List.eq_nil_iff_forall_not_mem.mpr
                intro item hitem
                rcases hsettled.control item hitem with ⟨message, rfl⟩
                exact hsound.framed_of_answered hstage .control _ hitem
              have hdata := hsettled.unseen hseen
              simp [frames, hcontrol, hdata, hbefore, Receiver.copies] at hcopy
      | createDir m =>
          have hcontra := hmoves (by simp [blocked, hbefore, directNetwork])
          contradiction
      | create m =>
          have hcontra := hmoves (by simp [blocked, hbefore, directNetwork])
          contradiction
      | setLen m =>
          have hcontra := hmoves (by simp [blocked, hbefore, directNetwork])
          contradiction
      | reply m state message =>
          have hcontra := hmoves (by simp [blocked, hbefore, directNetwork])
          contradiction
      | openFile m state =>
          have hcontra := hmoves (by simp [blocked, hbefore, directNetwork])
          contradiction
      | failed error => exact hknows
  | loop loop =>
      exact not_waits_of_loop hwaits hsound hsettled hbefore hincomplete
  | returned books =>
      rw [hbefore] at hincomplete
      exact hincomplete trivial
  | failed error =>
      rw [hbefore] at hknows
      exact hknows

/-! ## The run in which nothing is sent -/

/-- A state in which nothing has been put on the data stream. -/
def calm (sender : DirectSender) (receiver : DirectReceiver)
    (control : List Item) (reports : List ControlMessage) (opened : Bool) :
    DirectState where
  sender := sender
  receiver := receiver
  streams
    | .control => control
    | .data => []
  seen
    | .control => opened
    | .data => false
  reports := reports
  delivered := []

theorem starts_calm :
    (losslessMachine setting).start
      (calm .openBi (.setup .acceptBi) [] [] false) where
  sender := rfl
  receiver := rfl
  streams := by
    intro stream
    cases stream <;> rfl
  seen := by
    intro stream
    cases stream <;> rfl
  reports := rfl
  delivered := rfl

theorem reachable_next (event : NetworkEvent)
    (hreach : (losslessMachine setting).Reachable s) (hlossless : event.lossless = true)
    (hnext : next directNetwork setting s event = some t) :
    (losslessMachine setting).Reachable t :=
  hreach.step (Machine.restrict_next_eq_some.mpr ⟨hnext, hlossless⟩)

section Calm

variable {sender : DirectSender} {receiver : DirectReceiver}
  {control : List Item} {reports : List ControlMessage} {opened : Bool}

theorem calm_push (item : Item) :
    (calm sender receiver control reports opened).push .control item =
      calm sender receiver (control ++ [item]) reports true := by
  simp only [push, calm, Network.mk.injEq, true_and, and_true]
  constructor
  · funext stream
    cases stream <;> rfl
  · funext stream
    cases stream <;> rfl

theorem calm_pop (rest : List Item) :
    (calm sender receiver control reports opened).pop .control rest =
      calm sender receiver rest reports opened := by
  simp only [pop, calm, Network.mk.injEq, true_and, and_true]
  funext stream
  cases stream <;> rfl

end Calm

variable (setting) in
/-- The receiver has heard the manifest. -/
theorem reachable_lookup :
    (losslessMachine setting).Reachable
      (calm .awaitReply (.setup (.lookup setting.manifest)) [] [] true) := by
  have hgreet : next directNetwork setting
      (calm .openBi (.setup .acceptBi) [] [] false) (.sender .proceed) =
      some (calm .awaitReply (.setup .acceptBi)
        [.ctrl (.manifest setting.manifest)] [] true) :=
    congrArg some (calm_push (.ctrl (.manifest setting.manifest)))
  have haccept : next directNetwork setting
      (calm .awaitReply (.setup .acceptBi)
        [.ctrl (.manifest setting.manifest)] [] true) .receiverProceeds =
      some (calm .awaitReply (.setup .recvManifest)
        [.ctrl (.manifest setting.manifest)] [] true) := rfl
  have hhear : next directNetwork setting
      (calm .awaitReply (.setup .recvManifest)
        [.ctrl (.manifest setting.manifest)] [] true) .receiverHears =
      some (calm .awaitReply (.setup (.lookup setting.manifest)) [] [] true) :=
    congrArg some (calm_pop [])
  have hstart : (losslessMachine setting).Reachable
      (calm .openBi (.setup .acceptBi) [] [] false) :=
    Machine.Reachable.of_start starts_calm
  have hgreeted := reachable_next (.sender .proceed) hstart rfl hgreet
  have haccepted := reachable_next .receiverProceeds hgreeted rfl haccept
  exact reachable_next .receiverHears haccepted rfl hhear

variable (setting) in
/-- The receiver has decided, whether it resumes or not. -/
theorem reachable_reply :
    ∃ state message,
      replySkip (.ok message) = .ok setting.haveChunks ∧
        (losslessMachine setting).Reachable
          (calm .awaitReply
            (.setup (.reply setting.manifest state message)) [] [] true) := by
  have hlookup := reachable_lookup setting
  cases hfound : setting.found with
  | some state =>
      have hnext : next directNetwork setting
          (calm .awaitReply (.setup (.lookup setting.manifest)) [] [] true)
          .receiverLooksUp =
          some (calm .awaitReply (.setup (.reply setting.manifest state
            (.resumeRequest state.haveChunks))) [] [] true) := by
        have hstate : findResumable setting.pathExists setting.files
            setting.manifest setting.outputDir = some state := hfound
        simp only [next, calm, Receiver.lookup, hstate]
        rfl
      refine ⟨state, .resumeRequest state.haveChunks, ?_,
        reachable_next .receiverLooksUp hlookup rfl hnext⟩
      rw [haveChunks_eq.2 state hfound]
      simp [replySkip, TransferState.haveChunks]
  | none =>
      have hnext : next directNetwork setting
          (calm .awaitReply (.setup (.lookup setting.manifest)) [] [] true)
          .receiverLooksUp =
          some (calm .awaitReply (.setup (.createDir setting.manifest)) [] []
            true) := by
        have hstate : findResumable setting.pathExists setting.files
            setting.manifest setting.outputDir = none := hfound
        simp only [next, calm, Receiver.lookup, hstate]
        rfl
      have hdecided := reachable_next .receiverLooksUp hlookup rfl hnext
      have hcreated : (losslessMachine setting).Reachable
          (calm .awaitReply (.setup (.create setting.manifest)) [] [] true) :=
        reachable_next .receiverProceeds hdecided rfl rfl
      have hsized : (losslessMachine setting).Reachable
          (calm .awaitReply (.setup (.setLen setting.manifest)) [] [] true) :=
        reachable_next .receiverProceeds hcreated rfl rfl
      have hreply : (losslessMachine setting).Reachable
          (calm .awaitReply (.setup (.reply setting.manifest
            (.new setting.manifest
              (outputPathFor setting.outputDir setting.manifest))
            .manifestAck)) [] [] true) :=
        reachable_next .receiverProceeds hsized rfl rfl
      refine ⟨_, _, ?_, hreply⟩
      rw [haveChunks_eq.1 hfound]
      rfl

/-- The sender serves NACKs and the receiver waits for the data stream. -/
theorem reachable_calm (hnothing : ∀ index < setting.manifest.chunkCount,
    index ∈ setting.haveChunks) :
    ∃ bytesDone state, (losslessMachine setting).Reachable
      (calm (.transfer ⟨[], none, .serve, [], false, bytesDone⟩)
        (.setup (.ready setting.manifest state)) [] [] true) := by
  rcases reachable_reply setting with
    ⟨state, message, hskip, hreply⟩
  have htodo : toSend setting.manifest setting.haveChunks = [] := by
    apply List.eq_nil_iff_forall_not_mem.mpr
    intro index hindex
    rcases mem_toSend.mp hindex with ⟨hlt, hnot⟩
    exact hnot (hnothing index hlt)
  have hreplied : (losslessMachine setting).Reachable
      (calm .awaitReply (.setup (.openFile setting.manifest state)) []
        [message] true) :=
    reachable_next .receiverProceeds hreply rfl rfl
  have hready : (losslessMachine setting).Reachable
      (calm .awaitReply (.setup (.ready setting.manifest state)) []
        [message] true) :=
    reachable_next .receiverProceeds hreplied rfl rfl
  have hheard : (losslessMachine setting).Reachable
      (calm (.openUni setting.haveChunks)
        (.setup (.ready setting.manifest state)) [] [] true) := by
    apply reachable_next .senderHears hready rfl
    simp only [next, calm, directNetwork, directSenderKind, DirectSender.step,
      DirectSender.received, hskip]
    rfl
  have hopened : (losslessMachine setting).Reachable
      (calm (.transfer (.start setting.manifest setting.haveChunks))
        (.setup (.ready setting.manifest state)) [] [] true) :=
    reachable_next (.sender .proceed) hheard rfl rfl
  refine ⟨skippedBytes setting.manifest setting.haveChunks, state, ?_⟩
  apply reachable_next (.sender .proceed) hopened rfl
  simp only [next, calm, directNetwork, directSenderKind, DirectSender.step,
    DirectSender.proceed, Transfer.proceed, Transfer.start, htodo]
  rfl

theorem stuck_of_calm {state : TransferState} {bytesDone : ℕ} :
    Stuck setting
      (calm (.transfer ⟨[], none, .serve, [], false, bytesDone⟩)
        (.setup (.ready setting.manifest state)) [] [] true) where
  waiting := by
    intro event
    cases hstep : (losslessMachine setting).next
        (calm (.transfer ⟨[], none, .serve, [], false, bytesDone⟩)
          (.setup (.ready setting.manifest state)) [] [] true) event with
    | none => rfl
    | some t =>
        rcases Machine.restrict_next_eq_some.mp hstep with ⟨hnext, hlossless⟩
        cases event with
        | sender event =>
            cases event with
            | proceed => contradiction
            | read file =>
                simp only [Network.machine, next] at hnext
                split at hnext
                · contradiction
                · contradiction
            | received result => contradiction
            | ctrlProceed => contradiction
            | ctrlRead file =>
                simp only [Network.machine, next] at hnext
                split at hnext
                · contradiction
                · contradiction
            | fail error effect => contradiction
        | senderHears => contradiction
        | receiverProceeds => contradiction
        | receiverHears => contradiction
        | receiverLooksUp => contradiction
        | receiverReads => contradiction
        | corrupt stream position subs => contradiction
  no_item := by
    intro stream
    cases stream <;> rfl
  no_report := rfl
  incomplete := id

end Network

/-- A direct transfer can get stuck exactly when the receiver misses nothing
from the start. -/
theorem direct_never_stuck_iff (setting : NetworkSetting) :
    (∀ s, (losslessMachine setting).Reachable s → ¬ Stuck setting s) ↔
      ∃ index < setting.manifest.chunkCount, index ∉ setting.haveChunks := by
  constructor
  · intro hnever
    by_contra hnone
    have hnothing : ∀ index < setting.manifest.chunkCount,
        index ∈ setting.haveChunks := by
      intro index hlt
      by_contra hnot
      exact hnone ⟨index, hlt, hnot⟩
    rcases Network.reachable_calm hnothing with ⟨bytesDone, state, hreach⟩
    exact hnever _ hreach Network.stuck_of_calm
  · intro hmissing s hreach hstuck
    rcases Network.settled_of_reachable hreach.of_restrict with
      ⟨hsound, hsettled⟩
    exact Network.not_waits_of_missing (Network.waits_of_halted hstuck.waiting)
      hsound hsettled hstuck.incomplete hmissing

/-! ## The empty file -/

def emptySource : ManifestSource where
  totalSize := 0
  filename := "a"
  sessionId := List.replicate 20 7
  createdAt := 0
  totalSize_lt := show 0 < 18446744073709551616 by norm_num
  sessionId_length := length_sampleId

def emptySetting : NetworkSetting where
  noise := lookupNoise
  read := tagRead
  msgPack := rmpSerde
  manifestSource := emptySource
  outputDir := ['d']
  pathExists := fun _ => false
  files := fun _ => .absent
  resumes := by
    intro state hfound
    simp [findResumable] at hfound

theorem empty_file_gets_stuck :
    ∃ s, (losslessMachine emptySetting).Reachable s ∧ Stuck emptySetting s := by
  have hcount : emptySetting.manifest.chunkCount = 0 := by decide +kernel
  have hnothing : ∀ index < emptySetting.manifest.chunkCount,
      index ∈ emptySetting.haveChunks := by
    intro index hlt
    rw [hcount] at hlt
    contradiction
  rcases Network.reachable_calm hnothing with ⟨bytesDone, state, hreach⟩
  exact ⟨_, hreach, Network.stuck_of_calm⟩

end P2pShare
