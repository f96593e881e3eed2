import P2pShare.TransitionMachine
import P2pShare.LoopKinds
import P2pShare.Instances

/-!
# What the direct receiver saves and reports

The write of a chunk runs in a task of its own, while the receive loop has
already entered the chunk in its books, may report it and may save it.  The
machine runs `receive_file_direct` beside that task, and notes the chunks of
the states saved and the chunks the `Progress` messages count.

In an execution all of these are on disk at all times exactly when no write is
outstanding whenever the loop reports or saves.
-/

namespace P2pShare

open ByteStream PathResolution TransitionMachine

/-- `running` says that the task of `pending_write` has not returned.
`outstanding` lists the chunks that were handed to a task and are not on disk:
`write_all` may return while its last buffer is under way, and a write that
fails stays outstanding.  `written` lists the chunks whose writes have ended, in
this transfer or in the one it resumes; `saved` and `reported` the chunks of the
states saved and of the `Progress` messages sent. -/
structure WriteRun where
  receiver : DirectReceiver
  running : Bool
  outstanding : Finset ℕ
  written : Finset ℕ
  saved : Finset ℕ
  reported : Finset ℕ

inductive WriteEvent where
  | receiver (event : ReceiverEvent)
  | frame (input : Bytes)
  | taskReturns
  | land (index : ℕ)

/-- The await of the step ends, or fails with its effect. -/
def WriteEvent.effective : WriteEvent → Bool
  | .receiver .proceed | .receiver (.fail _ true) => true
  | _ => false

namespace WriteRun

variable (read : ℕ → Bytes → Option Bytes) (outputDir : RawPath)

def chunksDone (s : WriteRun) : Finset ℕ :=
  match s.receiver with
  | .loop loop => loop.books.state.chunksDone
  | .setup (.reply _ state _) => state.chunksDone
  | _ => ∅

/-- The chunk that was accepted and is not yet handed to a task. -/
def handing (s : WriteRun) : Finset ℕ :=
  match s.receiver with
  | .loop loop => loop.holding.elim ∅ fun (index, _) => {index}
  | _ => ∅

def joins (s : WriteRun) : Bool :=
  match s.receiver with
  | .loop loop => loop.joins
  | _ => false

def emit (s : WriteRun) (receiver : DirectReceiver) :
    ReceiverOutput → WriteRun
  | .save state => { s with receiver, saved := s.saved ∪ state.chunksDone }
  | .ctrl (.progress _) =>
      { s with receiver, reported := s.reported ∪ s.chunksDone }
  | .file (.write _ _ _) =>
      { s with
        receiver, running := true, outstanding := s.outstanding ∪ s.handing }
  | _ => { s with receiver }

/-- The join waits for the task. -/
def stepReceiver (s : WriteRun) (event : ReceiverEvent) : Option WriteRun :=
  match s.joins && s.running, event with
  | true, .proceed => none
  | _, event =>
      (s.receiver.step directKind outputDir event).map
        fun (receiver, output) => s.emit receiver output

def next (s : WriteRun) : WriteEvent → Option WriteRun
  | .receiver (.lookup pathExists files) =>
      (s.receiver.lookup outputDir pathExists files).map fun receiver =>
        { s with receiver, written := { s with receiver }.chunksDone }
  | .receiver event => s.stepReceiver outputDir event
  | .frame input =>
      match s.receiver with
      | .loop loop =>
          (loop.receive read input).map fun (receiver, _) =>
            { s with receiver }
      | _ => none
  | .taskReturns => some { s with running := false }
  | .land index =>
      if index ∈ s.outstanding then
        some
          { s with
            outstanding := s.outstanding.erase index
            written := insert index s.written }
      else none

structure Starts (s : WriteRun) : Prop where
  receiver : s.receiver = .setup .acceptBi
  running : s.running = false
  outstanding : s.outstanding = ∅
  written : s.written = ∅
  saved : s.saved = ∅
  reported : s.reported = ∅

def machine : Machine WriteRun WriteEvent where
  start := Starts
  next := next read outputDir

/-- Each chunk that was saved or reported is on disk. -/
def OnDisk (s : WriteRun) : Prop :=
  s.saved ⊆ s.written ∧ s.reported ⊆ s.written

/-- The next step of the loop saves its state or reports its progress. -/
def tells (s : WriteRun) : Bool :=
  match s.receiver with
  | .loop loop => loop.pc = .ack ∨ loop.pc = .save ∨ loop.pc = .finalSave
  | _ => false

/-- No write is outstanding when the loop saves or reports. -/
def TellsWhenQuiet (s : WriteRun) (event : WriteEvent) : Prop :=
  s.tells = true → event.effective = true → s.outstanding = ∅

/-! ## The books and the disk -/

structure LoopBooked (s : WriteRun) (loop : DirectLoop) : Prop where
  done : loop.books.state.chunksDone = s.written ∪ s.outstanding
  fresh : Disjoint s.written s.outstanding
  pending : Disjoint loop.books.pending loop.books.state.chunksDone
  handed : ∀ index plaintext, loop.holding = some (index, plaintext) →
    index ∈ loop.books.pending
  regular : loop.Regular

structure SetupBooked (s : WriteRun) (setup : Setup) : Prop where
  quiet : s.outstanding = ∅
  silent : s.saved = ∅ ∧ s.reported = ∅
  resumed : ∀ manifest state,
    (setup = .openFile manifest state ∨ setup = .ready manifest state ∨
        ∃ message, setup = .reply manifest state message) →
      state.chunksDone = s.written
  fresh : ∀ manifest,
    (setup = .createDir manifest ∨ setup = .create manifest ∨
        setup = .setLen manifest) → s.written = ∅
  replies : ∀ manifest state message, setup = .reply manifest state message →
    ∀ bytes, message ≠ .progress bytes

def Booked (s : WriteRun) : Prop :=
  match s.receiver with
  | .setup setup => s.SetupBooked setup
  | .loop loop => s.LoopBooked loop
  | .returned _ | .failed _ => True

variable {read outputDir} {s t : WriteRun}

/-- All books are on disk exactly when no write is outstanding. -/
theorem LoopBooked.subset_iff {loop : DirectLoop} (hbooked : s.LoopBooked loop) :
    loop.books.state.chunksDone ⊆ s.written ↔ s.outstanding = ∅ := by
  rw [hbooked.done]
  constructor
  · intro hsubset
    have hinside : s.outstanding ⊆ s.written :=
      (Finset.union_subset_iff.mp hsubset).2
    exact disjoint_self.mp (hbooked.fresh.mono_left hinside)
  · intro hempty
    rw [hempty, Finset.union_empty]

end WriteRun

/-- The output puts chunks on record, outside the process. -/
def ReceiverOutput.Tells : ReceiverOutput → Prop
  | .save _ | .ctrl (.progress _) => True
  | _ => False

theorem DirectLoop.proceed_tells {loop : DirectLoop}
    {receiver : DirectReceiver} {output : ReceiverOutput}
    (hproceed : loop.proceed = some (receiver, output)) :
    (output.Tells ↔ loop.pc = .ack ∨ loop.pc = .save ∨ loop.pc = .finalSave) ∧
      ∀ state, output = .save state → state = loop.books.state := by
  unfold proceed at hproceed
  split at hproceed
  next => contradiction
  next hpc =>
    cases hproceed
    simp [ReceiverOutput.Tells, hpc]
  next hpc =>
    cases hproceed
    simp [ReceiverOutput.Tells, hpc]
  next hpc =>
    cases hproceed
    simp [ReceiverOutput.Tells, Books.writeOp, hpc]
  next hpc =>
    cases hproceed
    simp [ReceiverOutput.Tells, hpc]
  next hpc =>
    cases hproceed
    simp [ReceiverOutput.Tells, hpc, eq_comm]
  next hpc =>
    cases hproceed
    simp [ReceiverOutput.Tells, hpc]
  next hpc =>
    cases hproceed
    simp [ReceiverOutput.Tells, hpc, eq_comm]
  next hpc =>
    cases hproceed
    simp [ReceiverOutput.Tells, hpc]
  next hpc =>
    cases hproceed
    simp [ReceiverOutput.Tells, hpc]

namespace WriteRun

variable {read : ℕ → Bytes → Option Bytes} {outputDir : RawPath}
  {s t : WriteRun}

theorem onDisk_emit {receiver : DirectReceiver} {output : ReceiverOutput}
    (hondisk : s.OnDisk)
    (hsave : ∀ state, output = .save state →
      state.chunksDone = s.chunksDone) :
    (s.emit receiver output).OnDisk ↔
      (output.Tells → s.chunksDone ⊆ s.written) := by
  rcases hondisk with ⟨hsaved, hreported⟩
  cases output with
  | save state =>
      have hstate := hsave state rfl
      simp only [OnDisk, emit, ReceiverOutput.Tells, forall_const, hstate]
      constructor
      · intro hnext
        exact (Finset.union_subset_iff.mp hnext.1).2
      · intro hdone
        exact ⟨Finset.union_subset hsaved hdone, hreported⟩
  | ctrl message =>
      cases message with
      | progress bytes =>
          simp only [OnDisk, emit, ReceiverOutput.Tells, forall_const]
          constructor
          · intro hnext
            exact (Finset.union_subset_iff.mp hnext.2).2
          · intro hdone
            exact ⟨hsaved, Finset.union_subset hreported hdone⟩
      | _ => exact iff_of_true ⟨hsaved, hreported⟩ False.elim
  | file op =>
      cases op <;> exact iff_of_true ⟨hsaved, hreported⟩ False.elim
  | none => exact iff_of_true ⟨hsaved, hreported⟩ False.elim
  | delete state => exact iff_of_true ⟨hsaved, hreported⟩ False.elim

/-! ## One step -/

theorem loopBooked_of_receive {loop : DirectLoop} {input rest : Bytes}
    {receiver : DirectReceiver} (hbooked : s.LoopBooked loop)
    (hreceive : loop.receive read input = some (receiver, rest)) :
    (∃ error, receiver = .failed error) ∨
      ∃ next, receiver = .loop next ∧ s.LoopBooked next := by
  unfold DirectLoop.receive at hreceive
  split at hreceive
  next hhead =>
    rcases Option.map_eq_some_iff.mp hreceive with
      ⟨⟨⟨outcome, bytesDone⟩, rest'⟩, hread, hresult⟩
    simp only [Prod.mk.injEq] at hresult
    rcases hresult with ⟨rfl, rfl⟩
    cases outcome with
    | failed error => exact Or.inl ⟨error, rfl⟩
    | skipped =>
        refine Or.inr ⟨_, rfl, ?_⟩
        exact ⟨hbooked.done, hbooked.fresh, hbooked.pending,
          by simp, DirectLoop.toHead_regular _⟩
    | nack index =>
        refine Or.inr ⟨_, rfl, ?_⟩
        exact ⟨hbooked.done, hbooked.fresh, hbooked.pending,
          by simp [DirectLoop.holding], trivial⟩
    | accepted index plaintext =>
        have hpending := (readFrame_accepted hread).1
        refine Or.inr ⟨_, rfl, ?_⟩
        refine ⟨hbooked.done, hbooked.fresh, hbooked.pending, ?_, trivial⟩
        intro other bytes hholding
        simp only [DirectLoop.holding, Option.some.injEq, Prod.mk.injEq]
          at hholding
        rw [← hholding.1]
        exact hpending
  next => contradiction

theorem loopBooked_of_proceed {loop : DirectLoop} {receiver : DirectReceiver}
    {output : ReceiverOutput} (hreceiver : s.receiver = .loop loop)
    (hbooked : s.LoopBooked loop)
    (hproceed : loop.proceed = some (receiver, output)) :
    (∃ books, receiver = .returned books) ∨
      ∃ next, receiver = .loop next ∧ (s.emit receiver output).LoopBooked next := by
  have hfacts := directLoopKind_laws.proceed_cases hbooked.regular hproceed
  rcases hfacts with ⟨next, rfl, _, hfacts⟩ | ⟨_, rfl, _⟩
  · refine Or.inr ⟨next, rfl, ?_⟩
    rcases hfacts.moves with ⟨index, plaintext, hwrites⟩ | hwaits
    · have hholding : loop.holding = some (index, plaintext) := hwrites.holding
      have hhanding : s.handing = {index} := by
        simp [handing, hreceiver, hholding]
      have hemit : s.emit (.loop next) output =
          { s with
            receiver := .loop next
            running := true
            outstanding := s.outstanding ∪ {index} } := by
        rw [hwrites.output]
        simp [emit, Books.writeOp, hhanding]
      have hpending := hbooked.handed index plaintext hholding
      have hnot : index ∉ s.written := by
        intro hwritten
        have hdone : index ∈ loop.books.state.chunksDone := by
          rw [hbooked.done]
          exact Finset.mem_union_left _ hwritten
        exact Finset.disjoint_left.mp hbooked.pending hpending hdone
      have hnextDone : next.books.state.chunksDone =
          insert index loop.books.state.chunksDone := hwrites.done
      have hnextPending : next.books.pending = loop.books.pending.erase index :=
        hwrites.pending
      rw [hemit]
      constructor
      · rw [hnextDone, hbooked.done, Finset.insert_eq, Finset.union_comm,
          Finset.union_assoc]
      · exact Finset.disjoint_union_right.mpr
          ⟨hbooked.fresh, Finset.disjoint_singleton_right.mpr hnot⟩
      · rw [hnextPending, hnextDone]
        apply Finset.disjoint_left.mpr
        intro other hother hmem
        rcases Finset.mem_erase.mp hother with ⟨hne, hold⟩
        rcases Finset.mem_insert.mp hmem with heq | hin
        · exact hne heq
        · exact Finset.disjoint_left.mp hbooked.pending hold hin
      · intro other bytes hother
        have hnone : next.holding = none := hwrites.holding_next
        rw [hnone] at hother
        contradiction
      · exact hfacts.regular
    · have hemit : (s.emit (.loop next) output).written = s.written ∧
          (s.emit (.loop next) output).outstanding = s.outstanding := by
        have hfile := hwaits.output
        cases output with
        | file op => exact absurd rfl (hfile op)
        | ctrl message => cases message <;> exact ⟨rfl, rfl⟩
        | none => exact ⟨rfl, rfl⟩
        | save state => exact ⟨rfl, rfl⟩
        | delete state => exact ⟨rfl, rfl⟩
      have hnextDone : next.books.state.chunksDone =
          loop.books.state.chunksDone := hwaits.done
      have hnextPending : next.books.pending = loop.books.pending :=
        hwaits.pending
      constructor
      · rw [hnextDone, hemit.1, hemit.2]
        exact hbooked.done
      · rw [hemit.1, hemit.2]
        exact hbooked.fresh
      · rw [hnextPending, hnextDone]
        exact hbooked.pending
      · intro index plaintext hholding
        rw [hnextPending]
        rcases hwaits.holding with hsame | hnone
        · apply hbooked.handed index plaintext
          exact hsame.symm.trans hholding
        · have hcontra : next.holding = none := hnone
          rw [hcontra] at hholding
          contradiction
      · exact hfacts.regular
  · exact Or.inl ⟨_, rfl⟩

theorem booked_of_setup {setup : Setup} {receiver : DirectReceiver}
    {output : ReceiverOutput} (hreceiver : s.receiver = .setup setup)
    (hbooked : s.SetupBooked setup)
    (hproceed : (Receiver.setup setup : DirectReceiver).proceed directKind
      outputDir = some (receiver, output)) :
    (s.emit receiver output).Booked ∧ ¬ output.Tells := by
  cases setup with
  | acceptBi =>
      cases hproceed
      exact ⟨⟨hbooked.quiet, hbooked.silent, by simp, by simp, by simp⟩, id⟩
  | recvManifest => contradiction
  | reject =>
      cases hproceed
      exact ⟨trivial, id⟩
  | lookup manifest => contradiction
  | createDir manifest =>
      cases hproceed
      have hfresh := hbooked.fresh manifest (Or.inl rfl)
      exact ⟨⟨hbooked.quiet, hbooked.silent, by simp, fun _ _ => hfresh,
        by simp⟩, id⟩
  | create manifest =>
      cases hproceed
      have hfresh := hbooked.fresh manifest (Or.inr (Or.inl rfl))
      exact ⟨⟨hbooked.quiet, hbooked.silent, by simp, fun _ _ => hfresh,
        by simp⟩, id⟩
  | setLen manifest =>
      cases hproceed
      have hfresh := hbooked.fresh manifest (Or.inr (Or.inr rfl))
      refine ⟨⟨hbooked.quiet, hbooked.silent, ?_, by simp, ?_⟩, id⟩
      · intro other state hstate
        simp only [reduceCtorEq, Setup.reply.injEq, false_or] at hstate
        rcases hstate with ⟨message, _, rfl, _⟩
        exact hfresh.symm
      · intro other state message hreply bytes
        cases hreply
        exact ControlMessage.noConfusion
  | reply manifest state message =>
      cases hproceed
      have hresumed :=
        hbooked.resumed manifest state (Or.inr (Or.inr ⟨message, rfl⟩))
      have hmessage := hbooked.replies manifest state message rfl
      have hemit : s.emit (.setup (.openFile manifest state)) (.ctrl message) =
          { s with receiver := .setup (.openFile manifest state) } := by
        cases message with
        | progress bytes => exact absurd rfl (hmessage bytes)
        | _ => rfl
      refine ⟨?_, ?_⟩
      · change (s.emit (.setup (.openFile manifest state))
          (.ctrl message)).Booked
        rw [hemit]
        refine ⟨hbooked.quiet, hbooked.silent, ?_, by simp, by simp⟩
        intro other state' hstate
        simp only [Setup.openFile.injEq, reduceCtorEq, exists_false,
          or_false] at hstate
        rw [← hstate.2]
        exact hresumed
      · cases message with
        | progress bytes => exact absurd rfl (hmessage bytes)
        | _ => exact id
  | openFile manifest state =>
      cases hproceed
      have hresumed := hbooked.resumed manifest state (Or.inl rfl)
      refine ⟨⟨hbooked.quiet, hbooked.silent, ?_, by simp, by simp⟩, id⟩
      intro other state' hstate
      simp only [Setup.ready.injEq, reduceCtorEq, false_or, exists_false,
        or_false] at hstate
      rw [← hstate.2]
      exact hresumed
  | ready manifest state =>
      cases hproceed
      have hresumed := hbooked.resumed manifest state (Or.inr (Or.inl rfl))
      have hquiet := hbooked.quiet
      refine ⟨?_, id⟩
      constructor
      · simp only [emit, hquiet, Finset.union_empty]
        exact hresumed
      · simp [emit, hquiet]
      · apply Finset.disjoint_left.mpr
        intro index hindex hdone
        have hmissing : index ∈ state.missingChunks :=
          List.mem_toFinset.mp hindex
        exact (TransferState.mem_missingChunks.mp hmissing).2 hdone
      · intro index plaintext hholding
        have hnone : (DirectLoop.start
            (.start outputDir manifest state)).holding = none :=
          directLoopKind_laws.start_holding _
        have hheld : (DirectLoop.start
            (.start outputDir manifest state)).holding =
              some (index, plaintext) := hholding
        rw [hnone] at hheld
        contradiction
      · exact directLoopKind_laws.start_regular _
  | failed error => contradiction

theorem stepReceiver_cases {event : ReceiverEvent}
    (hstep : s.stepReceiver outputDir event = some t) :
    ∃ receiver output,
      s.receiver.step directKind outputDir event = some (receiver, output) ∧
        t = s.emit receiver output := by
  unfold stepReceiver at hstep
  split at hstep
  next => contradiction
  next =>
    rcases Option.map_eq_some_iff.mp hstep with
      ⟨⟨receiver, output⟩, hreceiver, rfl⟩
    exact ⟨receiver, output, hreceiver, rfl⟩

theorem not_tells_of_setup {setup : Setup}
    (hreceiver : s.receiver = .setup setup) : s.tells = false := by
  simp [tells, hreceiver]

theorem onDisk_of_eq (hondisk : s.OnDisk) (hsaved : t.saved = s.saved)
    (hreported : t.reported = s.reported) (hwritten : s.written ⊆ t.written) :
    t.OnDisk := by
  unfold OnDisk
  rw [hsaved, hreported]
  exact ⟨hondisk.1.trans hwritten, hondisk.2.trans hwritten⟩

theorem onDisk_of_quiet_output {receiver : DirectReceiver}
    {output : ReceiverOutput} (htells : ¬ output.Tells) (hondisk : s.OnDisk) :
    (s.emit receiver output).OnDisk := by
  have hsave : ∀ state, output = .save state →
      state.chunksDone = s.chunksDone := by
    rintro state rfl
    exact absurd trivial htells
  exact (onDisk_emit hondisk hsave).mpr fun h => absurd h htells

/-- Whether the output of a loop is on disk depends on the writes alone. -/
theorem onDisk_iff_of_loop {loop : DirectLoop} {next receiver : DirectReceiver}
    {output : ReceiverOutput} (hreceiver : s.receiver = .loop loop)
    (hbooked : s.LoopBooked loop)
    (hproceed : loop.proceed = some (next, output)) (hondisk : s.OnDisk) :
    (s.emit receiver output).OnDisk ↔
      (s.tells = true → s.outstanding = ∅) := by
  rcases DirectLoop.proceed_tells hproceed with ⟨htells, hstate⟩
  have hdone : s.chunksDone = loop.books.state.chunksDone := by
    simp [chunksDone, hreceiver]
  have hsave : ∀ state, output = .save state →
      state.chunksDone = s.chunksDone := by
    intro state houtput
    rw [hstate state houtput, hdone]
  have htell : s.tells = true ↔ output.Tells := by
    rw [htells]
    simp [tells, hreceiver]
  rw [onDisk_emit hondisk hsave, htell, hdone, hbooked.subset_iff]

theorem booked_of_fail {error : Error} {effect : Bool} (hbooked : s.Booked)
    {receiver : DirectReceiver} {output : ReceiverOutput}
    (hfail : s.receiver.fail directKind outputDir error effect =
      some (receiver, output)) :
    (s.emit receiver output).Booked ∧ (s.OnDisk →
      ((s.emit receiver output).OnDisk ↔
        s.TellsWhenQuiet (.receiver (.fail error effect)))) := by
  have hfailed : receiver = .failed error ∧
      (output = .none ∧ (effect = true → s.tells = false) ∨
        effect = true ∧ ∃ next,
          s.receiver.proceed directKind outputDir = some (next, output)) := by
    unfold Receiver.fail at hfail
    split at hfail
    · contradiction
    · contradiction
    · split at hfail
      next next output' hproceed =>
        cases hfail
        exact ⟨rfl, Or.inr ⟨rfl, next, hproceed⟩⟩
      next hnone =>
        cases hfail
        refine ⟨rfl, Or.inl ⟨rfl, ?_⟩⟩
        rintro rfl
        cases hreceiver : s.receiver with
        | loop loop =>
            cases hpc : loop.pc with
            | head => simp [tells, hreceiver, hpc]
            | _ =>
                have hsome : ∃ result, s.receiver.proceed directKind outputDir =
                    some result := by
                  rw [hreceiver]
                  simp only [Receiver.proceed, directKind, DirectLoop.proceed,
                    hpc]
                  exact ⟨_, rfl⟩
                rcases hsome with ⟨⟨next, output⟩, hproceed⟩
                exact absurd rfl (hnone next output hproceed)
        | _ => simp [tells, hreceiver]
  rcases hfailed with ⟨rfl, houtput⟩
  have hdead : (s.emit (.failed error) output).Booked := by
    have hreceiver : (s.emit (.failed error) output).receiver =
        .failed error := by
      cases output with
      | ctrl message => cases message <;> rfl
      | file op => cases op <;> rfl
      | _ => rfl
    unfold Booked
    rw [hreceiver]
    trivial
  refine ⟨hdead, fun hondisk => ?_⟩
  rcases houtput with ⟨rfl, htells⟩ | ⟨rfl, next, hproceed⟩
  · apply iff_of_true
    · exact onDisk_of_quiet_output id hondisk
    · intro htell heffective
      cases effect with
      | false => contradiction
      | true =>
          rw [htells rfl] at htell
          contradiction
  · cases hreceiver : s.receiver with
    | setup setup =>
        have hsetup : s.SetupBooked setup := by
          unfold Booked at hbooked
          rw [hreceiver] at hbooked
          exact hbooked
        rw [hreceiver] at hproceed
        have hquiet := (booked_of_setup hreceiver hsetup hproceed).2
        apply iff_of_true
        · exact onDisk_of_quiet_output hquiet hondisk
        · intro htell
          rw [not_tells_of_setup hreceiver] at htell
          contradiction
    | loop loop =>
        have hloop : s.LoopBooked loop := by
          unfold Booked at hbooked
          rw [hreceiver] at hbooked
          exact hbooked
        rw [hreceiver] at hproceed
        rw [onDisk_iff_of_loop hreceiver hloop hproceed hondisk]
        simp [TellsWhenQuiet, WriteEvent.effective]
    | returned books =>
        rw [hreceiver] at hproceed
        contradiction
    | failed other =>
        rw [hreceiver] at hproceed
        contradiction

theorem booked_of_received {result : Except Error ControlMessage}
    {receiver : DirectReceiver} (hbooked : s.Booked)
    (hreceived : s.receiver.received result = some receiver) :
    ({ s with receiver } : WriteRun).Booked ∧ s.tells = false := by
  cases hreceiver : s.receiver with
  | setup setup =>
      refine ⟨?_, not_tells_of_setup hreceiver⟩
      unfold Booked at hbooked
      rw [hreceiver] at hbooked hreceived
      cases setup with
      | recvManifest =>
          cases hreceived
          cases result with
          | error error => trivial
          | ok message =>
              cases message with
              | manifest m =>
                  cases hmode : m.transferMode with
                  | bulk =>
                      simp only [Setup.afterManifest, hmode,
                        Receiver.ofSetup, Booked]
                      exact ⟨hbooked.quiet, hbooked.silent, by simp, by simp,
                        by simp⟩
                  | streaming config =>
                      simp only [Setup.afterManifest, hmode,
                        Receiver.ofSetup, Booked]
                      exact ⟨hbooked.quiet, hbooked.silent, by simp, by simp,
                        by simp⟩
              | _ => trivial
      | _ => contradiction
  | loop loop =>
      rw [hreceiver] at hreceived
      contradiction
  | returned books =>
      rw [hreceiver] at hreceived
      contradiction
  | failed error =>
      rw [hreceiver] at hreceived
      contradiction

theorem booked_of_proceed (hbooked : s.Booked) {receiver : DirectReceiver}
    {output : ReceiverOutput}
    (hproceed : s.receiver.proceed directKind outputDir =
      some (receiver, output)) :
    (s.emit receiver output).Booked ∧ (s.OnDisk →
      ((s.emit receiver output).OnDisk ↔
        s.TellsWhenQuiet (.receiver .proceed))) := by
  cases hreceiver : s.receiver with
  | setup setup =>
      have hsetup : s.SetupBooked setup := by
        unfold Booked at hbooked
        rw [hreceiver] at hbooked
        exact hbooked
      rw [hreceiver] at hproceed
      rcases booked_of_setup hreceiver hsetup hproceed with ⟨hnext, hquiet⟩
      refine ⟨hnext, fun hondisk => ?_⟩
      apply iff_of_true
      · exact onDisk_of_quiet_output hquiet hondisk
      · intro htell
        rw [not_tells_of_setup hreceiver] at htell
        contradiction
  | loop loop =>
      have hloop : s.LoopBooked loop := by
        unfold Booked at hbooked
        rw [hreceiver] at hbooked
        exact hbooked
      rw [hreceiver] at hproceed
      have hnext : (s.emit receiver output).Booked := by
        have hemit : (s.emit receiver output).receiver = receiver := by
          cases output with
          | ctrl message => cases message <;> rfl
          | file op => cases op <;> rfl
          | _ => rfl
        unfold Booked
        rw [hemit]
        rcases loopBooked_of_proceed hreceiver hloop hproceed with
          ⟨books, rfl⟩ | ⟨next, rfl, hbooks⟩
        · trivial
        · exact hbooks
      refine ⟨hnext, fun hondisk => ?_⟩
      rw [onDisk_iff_of_loop hreceiver hloop hproceed hondisk]
      simp [TellsWhenQuiet, WriteEvent.effective]
  | returned books =>
      rw [hreceiver] at hproceed
      contradiction
  | failed error =>
      rw [hreceiver] at hproceed
      contradiction

theorem booked_of_stepReceiver {event : ReceiverEvent} (hbooked : s.Booked)
    (hlookup : ∀ pathExists files, event ≠ .lookup pathExists files)
    (hstep : s.stepReceiver outputDir event = some t) :
    t.Booked ∧ (s.OnDisk →
      (t.OnDisk ↔ s.TellsWhenQuiet (.receiver event))) := by
  rcases stepReceiver_cases hstep with ⟨receiver, output, hreceiver, rfl⟩
  cases event with
  | proceed => exact booked_of_proceed hbooked hreceiver
  | fail error effect => exact booked_of_fail hbooked hreceiver
  | received result =>
      rcases Option.map_eq_some_iff.mp hreceiver with
        ⟨receiver', hreceived, hresult⟩
      cases hresult
      rcases booked_of_received hbooked hreceived with ⟨hnext, htells⟩
      refine ⟨hnext, fun hondisk => ?_⟩
      apply iff_of_true
      · exact onDisk_of_quiet_output id hondisk
      · intro htell
        rw [htells] at htell
        contradiction
  | lookup pathExists files => exact absurd rfl (hlookup pathExists files)

theorem booked_of_lookup {pathExists : RawPath → Bool} {files : StateFiles}
    {receiver : DirectReceiver} (hbooked : s.Booked)
    (hlookup : s.receiver.lookup outputDir pathExists files = some receiver) :
    ({ s with receiver, written := { s with receiver }.chunksDone } :
        WriteRun).Booked ∧
      s.saved = ∅ ∧ s.reported = ∅ ∧ s.tells = false := by
  cases hreceiver : s.receiver with
  | setup setup =>
      unfold Booked at hbooked
      rw [hreceiver] at hbooked hlookup
      have hquiet := hbooked.quiet
      rcases hbooked.silent with ⟨hsaved, hreported⟩
      refine ⟨?_, hsaved, hreported, not_tells_of_setup hreceiver⟩
      cases setup with
      | lookup m =>
          simp only [Receiver.lookup, Option.some.injEq] at hlookup
          subst receiver
          cases hfound : findResumable pathExists files m outputDir with
          | none =>
              simp only [Setup.afterLookup, Receiver.ofSetup, Booked]
              exact ⟨hquiet, ⟨hsaved, hreported⟩, by simp,
                by simp [chunksDone], by simp⟩
          | some state =>
              simp only [Setup.afterLookup, Receiver.ofSetup, Booked]
              refine ⟨hquiet, ⟨hsaved, hreported⟩, ?_, by simp, ?_⟩
              · intro other state' hstate
                simp only [reduceCtorEq, Setup.reply.injEq, false_or] at hstate
                rcases hstate with ⟨message, _, rfl, _⟩
                rfl
              · intro other state' message hreply bytes
                cases hreply
                exact ControlMessage.noConfusion
      | _ => contradiction
  | loop loop =>
      rw [hreceiver] at hlookup
      contradiction
  | returned books =>
      rw [hreceiver] at hlookup
      contradiction
  | failed error =>
      rw [hreceiver] at hlookup
      contradiction

/-- One write has ended; the loop has not moved. -/
theorem booked_of_land {index : ℕ} (hbooked : s.Booked)
    (houtstanding : index ∈ s.outstanding) :
    ({ s with
      outstanding := s.outstanding.erase index
      written := insert index s.written } : WriteRun).Booked := by
  unfold Booked at hbooked ⊢
  cases hreceiver : s.receiver with
  | setup setup =>
      rw [hreceiver] at hbooked
      have hquiet := hbooked.quiet
      rw [hquiet] at houtstanding
      exact absurd houtstanding (Finset.notMem_empty index)
  | loop loop =>
      rw [hreceiver] at hbooked
      constructor
      · rw [hbooked.done, Finset.insert_union, ← Finset.union_insert,
          Finset.insert_erase houtstanding]
      · refine Finset.disjoint_insert_left.mpr ⟨?_, ?_⟩
        · exact Finset.notMem_erase index s.outstanding
        · exact hbooked.fresh.mono_right (Finset.erase_subset _ _)
      · exact hbooked.pending
      · exact hbooked.handed
      · exact hbooked.regular
  | returned books => trivial
  | failed error => trivial

theorem booked_of_next {event : WriteEvent} (hbooked : s.Booked)
    (hnext : next read outputDir s event = some t) :
    t.Booked ∧ (s.OnDisk → (t.OnDisk ↔ s.TellsWhenQuiet event)) := by
  cases event with
  | receiver event =>
      cases event with
      | lookup pathExists files =>
          rcases Option.map_eq_some_iff.mp hnext with ⟨receiver, hlookup, rfl⟩
          rcases booked_of_lookup hbooked hlookup with
            ⟨hbooks, hsaved, hreported, htells⟩
          refine ⟨hbooks, fun _ => ?_⟩
          apply iff_of_true
          · simp [OnDisk, hsaved, hreported]
          · intro htell
            rw [htells] at htell
            contradiction
      | proceed => exact booked_of_stepReceiver hbooked (by simp) hnext
      | fail error effect =>
          exact booked_of_stepReceiver hbooked (by simp) hnext
      | received result => exact booked_of_stepReceiver hbooked (by simp) hnext
  | frame input =>
      simp only [next] at hnext
      split at hnext
      next loop hreceiver =>
        rcases Option.map_eq_some_iff.mp hnext with
          ⟨⟨receiver, rest⟩, hreceive, rfl⟩
        unfold Booked at hbooked
        rw [hreceiver] at hbooked
        refine ⟨?_, fun hondisk => iff_of_true hondisk fun _ h => ?_⟩
        · rcases loopBooked_of_receive hbooked hreceive with
            ⟨error, rfl⟩ | ⟨next, rfl, hbooks⟩
          · trivial
          · exact ⟨hbooks.done, hbooks.fresh, hbooks.pending, hbooks.handed,
              hbooks.regular⟩
        · contradiction
      next => contradiction
  | taskReturns =>
      cases hnext
      refine ⟨?_, fun hondisk => iff_of_true hondisk fun _ h => ?_⟩
      · unfold Booked at hbooked ⊢
        cases hreceiver : s.receiver with
        | setup setup =>
            rw [hreceiver] at hbooked
            exact ⟨hbooked.quiet, hbooked.silent, hbooked.resumed,
              hbooked.fresh, hbooked.replies⟩
        | loop loop =>
            rw [hreceiver] at hbooked
            exact ⟨hbooked.done, hbooked.fresh, hbooked.pending,
              hbooked.handed, hbooked.regular⟩
        | returned books => trivial
        | failed error => trivial
      · contradiction
  | land index =>
      simp only [next] at hnext
      split at hnext
      next houtstanding =>
        cases hnext
        refine ⟨booked_of_land hbooked houtstanding, fun hondisk =>
          iff_of_true ?_ fun _ h => ?_⟩
        · exact onDisk_of_eq hondisk rfl rfl (Finset.subset_insert _ _)
        · contradiction
      next => contradiction

theorem booked_of_starts (hstart : Starts s) : s.Booked := by
  unfold Booked
  rw [hstart.receiver]
  exact ⟨hstart.outstanding, ⟨hstart.saved, hstart.reported⟩, by simp,
    by simp, by simp⟩

theorem booked_of_reachable (hreach : (machine read outputDir).Reachable s) :
    s.Booked := by
  apply hreach.invariant
  · exact fun _ hstart => booked_of_starts hstart
  · exact fun _ _ _ hbooked hnext => (booked_of_next hbooked hnext).1

end WriteRun

/-- Along an execution of the direct receiver, whatever was saved or reported is
on disk exactly if no write is outstanding when the loop saves or reports. -/
theorem saved_and_reported_on_disk_iff
    (read : ℕ → Bytes → Option Bytes) (outputDir : RawPath) :
    ∀ history s, (WriteRun.machine read outputDir).Execution history s →
      (Machine.Throughout WriteRun.OnDisk history s ↔
        ∀ entry ∈ history, entry.1.TellsWhenQuiet entry.2) := by
  intro history s hexec
  apply hexec.throughout_iff
  · intro s₀ hstart
    unfold WriteRun.OnDisk
    rw [hstart.saved, hstart.reported]
    exact ⟨Finset.empty_subset _, Finset.empty_subset _⟩
  · intro u event v hreach hondisk hnext
    exact (WriteRun.booked_of_next (WriteRun.booked_of_reachable hreach)
      hnext).2
      hondisk

/-! ## A report that comes before the write -/

def WriteRun.fresh : WriteRun where
  receiver := .setup .acceptBi
  running := false
  outstanding := ∅
  written := ∅
  saved := ∅
  reported := ∅

theorem WriteRun.starts_fresh : Starts fresh where
  receiver := rfl
  running := rfl
  outstanding := rfl
  written := rfl
  saved := rfl
  reported := rfl

/-- The only chunk arrives, is handed to a task and is reported. -/
def earlyReport : Option WriteRun :=
  (WriteRun.machine tagRead ['d']).runFrom WriteRun.fresh
    ([.receiver .proceed,
        .receiver (.received (.ok (.manifest (buildManifest sampleSource)))),
        .receiver (.lookup (fun _ => false) fun _ => .absent)] ++
      List.replicate 6 (.receiver .proceed) ++
      [.frame (chunkFrame lookupNoise 0 [1, 2, 3]).bytes, .receiver .proceed,
        .receiver .proceed, .receiver .proceed])

theorem earlyReport_off_disk : ∃ s, earlyReport = some s ∧ ¬ s.OnDisk := by
  have hrun : earlyReport.map (fun s => (s.reported, s.written)) =
      some ({0}, ∅) := by
    decide +kernel
  rcases Option.map_eq_some_iff.mp hrun with ⟨s, hs, hsets⟩
  refine ⟨s, hs, fun hondisk => ?_⟩
  have hreported := hondisk.2
  simp only [Prod.mk.injEq] at hsets
  rw [hsets.1, hsets.2] at hreported
  exact Finset.notMem_empty 0 (hreported (Finset.mem_singleton_self 0))

theorem saved_and_reported_on_disk_sample :
    ∃ history s, (WriteRun.machine tagRead ['d']).Execution history s ∧
      earlyReport = some s ∧
      ¬ ∀ entry ∈ history, entry.1.TellsWhenQuiet entry.2 := by
  rcases earlyReport_off_disk with ⟨s, hs, hoff⟩
  have hreach := Machine.Reachable.of_runFrom WriteRun.starts_fresh hs
  rcases hreach.execution with ⟨history, hexec⟩
  have hexact := saved_and_reported_on_disk_iff tagRead ['d'] history s hexec
  exact ⟨history, s, hexec, hs, fun hquiet => hoff (hexact.mpr hquiet).1⟩

theorem progress_before_write :
    ∃ s, (WriteRun.machine tagRead ['d']).Reachable s ∧ ¬ s.OnDisk := by
  rcases earlyReport_off_disk with ⟨s, hs, hoff⟩
  exact ⟨s, Machine.Reachable.of_runFrom WriteRun.starts_fresh hs, hoff⟩

end P2pShare
