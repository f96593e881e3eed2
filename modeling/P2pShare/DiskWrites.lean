import P2pShare.SharedCursor
import P2pShare.LoopKinds

/-!
# The disk under the receivers

`receive_file_direct` copies its file handle for every chunk, and the task that
writes the chunk seeks the copy and gives it the bytes.  The join awaits the
task, which may have returned with its last buffer under way, while the next
copy moves the cursor that both share.  `receive_file_relay` writes all chunks
through one handle, whose next operation waits for the last buffer of the one
before it and sees its error.

A copy made and a chunk written through the one handle are both entries of the
disk, so the two kinds differ in when an entry begins and when it may seek.
-/

namespace P2pShare

open ByteStream PathResolution RandomAccessFile SharedCursor TransitionMachine

/-- Where a chunk belongs. -/
def FileManifest.placed (manifest : FileManifest) (chunk : ℕ × Bytes) :
    ℕ × Bytes :=
  (manifest.offset chunk.1, chunk.2)

/-- `selective`: only chunks that are missed are accepted. -/
structure DiskKind (Loop : Type) extends LoopKind Loop where
  firstSetup : Setup
  selective : Bool

namespace DiskKind

variable {Loop : Type} (kind : DiskKind Loop)

/-- Every write that was begun has been awaited. -/
def joined (loop : Loop) : Bool :=
  if kind.background then !kind.writing loop else (kind.holding loop).isNone

/-- The next step of the loop awaits the write that was begun last. -/
def awaits (loop : Loop) : Bool :=
  !kind.joined loop && (!kind.background || kind.joins loop)

structure Laws : Prop where
  loop : kind.toLoopKind.Laws
  firstSetup : kind.firstSetup = .acceptBi ∨ kind.firstSetup = .recvManifest
  keeps : ∀ {loop next output}, kind.proceed loop = some (.loop next, output) →
    (∀ op, output ≠ .file op) → kind.holding next = kind.holding loop
  idle : ∀ {read decode input loop receiver},
    kind.receive read decode input loop = some receiver →
      kind.holding loop = none
  missed : kind.selective = true → ∀ {read decode input loop next chunk},
    kind.receive read decode input loop = some (.loop next) →
      kind.holding next = some chunk → chunk.1 ∈ (kind.books loop).pending

end DiskKind

/-- A step that does nothing outside, or does what going on would do. -/
theorem Receiver.step_output {Loop : Type} {kind : ReceiveLoop Loop}
    {outputDir : RawPath} {receiver next : Receiver Loop}
    {event : ReceiverEvent} {output : ReceiverOutput}
    (hstep : receiver.step kind outputDir event = some (next, output)) :
    output = .none ∨
      ∃ other, receiver.proceed kind outputDir = some (other, output) := by
  cases event with
  | proceed => exact Or.inr ⟨next, hstep⟩
  | fail error effect =>
      simp only [Receiver.step, Receiver.fail] at hstep
      split at hstep
      · contradiction
      · contradiction
      · split at hstep
        next other output' hproceed =>
          cases hstep
          exact Or.inr ⟨other, hproceed⟩
        next =>
          cases hstep
          exact Or.inl rfl
  | received result =>
      obtain ⟨_, _, hresult⟩ := Option.map_eq_some_iff.mp hstep
      cases hresult
      exact Or.inl rfl
  | lookup pathExists files =>
      obtain ⟨_, _, hresult⟩ := Option.map_eq_some_iff.mp hstep
      cases hresult
      exact Or.inl rfl

/-- `opened` is the manifest of the transfer with what the file held when it was
opened for the chunks, and `accepted` lists the chunks accepted since. -/
structure DiskRun (Loop : Type) where
  receiver : Receiver Loop
  disk : SharedFile
  opened : Option (FileManifest × Bytes)
  accepted : List (ℕ × Bytes)
  completed : Bool

inductive DiskRunEvent where
  | receiver (event : ReceiverEvent)
  | frame (input : Bytes)
  | disk (number : ℕ) (event : DiskEvent)

namespace DiskRun

section Machine

variable {Loop : Type} (kind : DiskKind Loop)
  (read : ℕ → Bytes → Option Bytes) (decode : Bytes → Option ControlMessage)
  (outputDir : RawPath)

/-- What is opened when the file is opened for the chunks. -/
def opening (s : DiskRun Loop) : Option (FileManifest × Bytes) :=
  match s.receiver with
  | .setup (.openFile manifest _) => some (manifest, s.disk.file)
  | _ => s.opened

def emit (s : DiskRun Loop) (receiver : Receiver Loop) :
    ReceiverOutput → DiskRun Loop
  | .file (.create _) =>
      { s with receiver, disk := { s.disk with file := [] } }
  | .file (.setLen _ length) =>
      { s with
        receiver, disk := { s.disk with file := setLen s.disk.file length } }
  | .file (.openWrite _) =>
      { s with
        receiver, disk := { s.disk with cursor := 0 }, opened := s.opening }
  | .file (.write _ offset bytes) =>
      { s with
        receiver
        disk := if kind.background then s.disk.copy offset bytes else s.disk }
  | .ctrl .complete => { s with receiver, completed := true }
  | _ => { s with receiver }

/-- The write that was begun last has not returned, or it has returned an error,
which whoever awaits it hands on. -/
def unjoined (s : DiskRun Loop) : Bool :=
  match s.receiver with
  | .loop loop =>
      kind.awaits loop && !s.disk.writes.getLast?.all fun write =>
        write.stage = .returned true
  | _ => false

def stepReceiver (s : DiskRun Loop) (event : ReceiverEvent) :
    Option (DiskRun Loop) :=
  match s.unjoined kind, event with
  | true, .proceed => none
  | _, event =>
      (s.receiver.step kind.toReceiveLoop outputDir event).map
        fun (receiver, output) => s.emit kind receiver output

/-- The chunk that was accepted last and is not yet recorded. -/
def held : Receiver Loop → Option (ℕ × Bytes)
  | .loop loop => kind.holding loop
  | _ => none

/-- The write of a chunk that is awaited at once begins with its acceptance. -/
def accept (s : DiskRun Loop) (receiver : Receiver Loop) (offset : ℕ → ℕ) :
    DiskRun Loop :=
  match held kind receiver with
  | none => { s with receiver }
  | some (index, plaintext) =>
      { s with
        receiver
        accepted := s.accepted ++ [(index, plaintext)]
        disk :=
          if kind.background then s.disk
          else s.disk.copy (offset index) plaintext }

/-- A handle waits for its own last buffer, and not for that of a copy. -/
def nextDisk (s : DiskRun Loop) (number : ℕ) : DiskEvent → Option SharedFile
  | .seeks =>
      if kind.background = true ∨ s.disk.Clean then s.disk.next number .seeks
      else none
  | event => s.disk.next number event

def next (s : DiskRun Loop) : DiskRunEvent → Option (DiskRun Loop)
  | .receiver event => s.stepReceiver kind outputDir event
  | .frame input =>
      match s.receiver with
      | .loop loop =>
          (kind.receive read decode input loop).map fun receiver =>
            s.accept kind receiver (kind.books loop).manifest.offset
      | _ => none
  | .disk number event =>
      (s.nextDisk kind number event).map fun disk => { s with disk }

structure Starts (s : DiskRun Loop) : Prop where
  receiver : s.receiver = .setup kind.firstSetup
  writes : s.disk.writes = []
  accepted : s.accepted = []
  completed : s.completed = false

def machine : Machine (DiskRun Loop) DiskRunEvent where
  start := Starts kind
  next := next kind read decode outputDir

end Machine

/-! ## The books and the disk -/

section Books

variable {Loop : Type} (kind : DiskKind Loop)

structure SetupBooked (s : DiskRun Loop) (setup : Setup) : Prop where
  writes : s.disk.writes = []
  accepted : s.accepted = []
  completed : s.completed = false
  replies : ∀ manifest state message,
    setup = .reply manifest state message → message ≠ .complete
  opened : ∀ manifest state, setup = .ready manifest state →
    s.opened = some (manifest, s.disk.file)

/-- The writes are those of the chunks accepted, but for the chunk that is held
and whose write has not begun. -/
structure LoopBooked (s : DiskRun Loop) (loop : Loop) (base : Bytes) :
    Prop where
  opened : s.opened = some ((kind.books loop).manifest, base)
  settled : s.disk.Settled base
  regular : kind.Regular loop
  but : s.disk.ReturnedBut
  returned : kind.joined loop = true → s.disk.Returned
  placed : (s.disk.writes.map fun write => (write.place, write.bytes)) ++
      (if kind.background then
        (kind.holding loop).toList.map (kind.books loop).manifest.placed
      else []) =
    s.accepted.map (kind.books loop).manifest.placed
  sizes : ∀ chunk ∈ s.accepted,
    chunk.2.length = (kind.books loop).manifest.sizeOf chunk.1
  waits : kind.selective = true → ∀ chunk ∈ s.accepted,
    chunk.1 ∈ (kind.books loop).pending → kind.holding loop = some chunk
  nodup : kind.selective = true → (s.accepted.map Prod.fst).Nodup
  patient : kind.background = false → s.disk.Patient
  completed : s.completed = true → kind.completed loop

/-- Each accepted chunk was written. -/
structure Finished (s : DiskRun Loop) (manifest : FileManifest)
    (base : Bytes) : Prop where
  opened : s.opened = some (manifest, base)
  settled : s.disk.Settled base
  returned : s.disk.Returned
  placed : (s.disk.writes.map fun write => (write.place, write.bytes)) =
    s.accepted.map manifest.placed
  sizes : ∀ chunk ∈ s.accepted, chunk.2.length = manifest.sizeOf chunk.1
  nodup : kind.selective = true → (s.accepted.map Prod.fst).Nodup
  patient : kind.background = false → s.disk.Patient

def ReceiverBooked (s : DiskRun Loop) : Prop :=
  match s.receiver with
  | .setup setup => s.SetupBooked setup
  | .loop loop => ∃ base, s.LoopBooked kind loop base
  | .returned _ | .failed _ => True

structure Booked (s : DiskRun Loop) : Prop where
  receiver : s.ReceiverBooked kind
  completed : s.completed = true →
    ∃ manifest base, s.Finished kind manifest base

end Books

variable {Loop : Type} {kind : DiskKind Loop}
  {read : ℕ → Bytes → Option Bytes} {decode : Bytes → Option ControlMessage}
  {outputDir : RawPath} {s t : DiskRun Loop}

theorem lastReturned_of_joined {loop : Loop}
    (hreceiver : s.receiver = .loop loop) (hawaits : kind.awaits loop = true)
    (hunjoined : s.unjoined kind = false) : s.disk.LastReturned := by
  unfold unjoined at hunjoined
  rw [hreceiver] at hunjoined
  dsimp only at hunjoined
  rw [hawaits] at hunjoined
  intro write hwrite
  have hall : s.disk.writes.getLast?.all
      (fun write => write.stage = .returned true) = true := by
    simpa using hunjoined
  rw [Option.mem_def.mp hwrite] at hall
  simpa using hall

theorem emit_of_not_file (receiver : Receiver Loop) {output : ReceiverOutput}
    (hfile : ∀ op, output ≠ .file op) :
    (s.emit kind receiver output).disk = s.disk ∧
      (s.emit kind receiver output).opened = s.opened ∧
      (s.emit kind receiver output).accepted = s.accepted := by
  cases output with
  | file op => exact absurd rfl (hfile op)
  | ctrl message => cases message <;> exact ⟨rfl, rfl, rfl⟩
  | none => exact ⟨rfl, rfl, rfl⟩
  | save state => exact ⟨rfl, rfl, rfl⟩
  | delete state => exact ⟨rfl, rfl, rfl⟩

theorem emit_completed (receiver : Receiver Loop) {output : ReceiverOutput}
    (hcomplete : output ≠ .ctrl .complete) :
    (s.emit kind receiver output).completed = s.completed := by
  cases output with
  | file op => cases op <;> rfl
  | ctrl message =>
      cases message with
      | complete => exact absurd rfl hcomplete
      | _ => rfl
  | none => rfl
  | save state => rfl
  | delete state => rfl

theorem emit_receiver (receiver : Receiver Loop) (output : ReceiverOutput) :
    (s.emit kind receiver output).receiver = receiver := by
  cases output with
  | file op => cases op <;> rfl
  | ctrl message => cases message <;> rfl
  | none => rfl
  | save state => rfl
  | delete state => rfl

/-! ## One step of the loop -/

/-- Once the loop goes on from an await, the write awaited has returned. -/
theorem LoopBooked.returned_of_awaited {loop : Loop} {base : Bytes}
    (hbooked : s.LoopBooked kind loop base)
    (hreceiver : s.receiver = .loop loop) (hunjoined : s.unjoined kind = false)
    (hawaits : kind.joined loop = false → kind.awaits loop = true) :
    s.disk.Returned := by
  cases hjoined : kind.joined loop with
  | true => exact hbooked.returned hjoined
  | false =>
      have hlast :=
        lastReturned_of_joined hreceiver (hawaits hjoined) hunjoined
      exact hbooked.but.returned hlast

/-- The chunk that is held is recorded, and its write begins or has ended. -/
theorem loopBooked_of_writes {loop next : Loop} {base : Bytes}
    {output : ReceiverOutput} {index : ℕ} {plaintext : Bytes}
    (hreceiver : s.receiver = .loop loop)
    (hbooked : s.LoopBooked kind loop base)
    (hunjoined : s.unjoined kind = false) (hregular : kind.Regular next)
    (hmanifest : (kind.books next).manifest = (kind.books loop).manifest)
    (hincomplete : s.completed = false)
    (hwrites : kind.Writes loop next output index plaintext) :
    (s.emit kind (.loop next) output).LoopBooked kind next base := by
  have hholding := hwrites.holding
  have hplaced := hbooked.placed
  have hreturned : s.disk.Returned := by
    apply hbooked.returned_of_awaited hreceiver hunjoined
    intro hjoined
    unfold DiskKind.awaits
    rw [hjoined]
    unfold DiskKind.joined at hjoined
    cases hbackground : kind.background with
    | true => simp [hbackground, hwrites.settled] at hjoined
    | false => simp
  have hemit : s.emit kind (.loop next) output =
      { s with
        receiver := .loop next
        disk :=
          if kind.background then
            s.disk.copy ((kind.books loop).manifest.offset index) plaintext
          else s.disk } := by
    rw [hwrites.output]
    rfl
  rw [hemit]
  constructor
  · rw [hmanifest]
    exact hbooked.opened
  · dsimp only
    split
    · exact hbooked.settled.copy hreturned _ _
    · exact hbooked.settled
  · exact hregular
  · dsimp only
    split
    · exact SharedFile.copy_returnedBut hreturned _ _
    · exact hbooked.but
  · intro hjoined
    unfold DiskKind.joined at hjoined
    dsimp only
    split
    next hbackground => simp [hbackground, hwrites.writing_next] at hjoined
    next => exact hreturned
  · rw [hmanifest, ← hplaced, hholding, hwrites.holding_next]
    dsimp only
    split
    · simp [SharedFile.copy, Write.new, FileManifest.placed]
    · rfl
  · rw [hmanifest]
    exact hbooked.sizes
  · intro hselective chunk hchunk hmem
    rw [hwrites.pending] at hmem
    obtain ⟨hne, hold⟩ := Finset.mem_erase.mp hmem
    have hheld := hbooked.waits hselective chunk hchunk hold
    rw [hholding, Option.some.injEq] at hheld
    rw [← hheld] at hne
    contradiction
  · exact hbooked.nodup
  · intro hforeground
    simp only [hforeground, Bool.false_eq_true, if_false]
    exact hbooked.patient hforeground
  · intro hcompleted
    rw [hincomplete] at hcompleted
    contradiction

theorem loopBooked_of_waits (hlaws : kind.Laws) {loop next : Loop}
    {base : Bytes} {output : ReceiverOutput}
    (hreceiver : s.receiver = .loop loop)
    (hbooked : s.LoopBooked kind loop base)
    (hunjoined : s.unjoined kind = false)
    (hproceed : kind.proceed loop = some (.loop next, output))
    (hfacts : kind.ProceedFacts loop next output)
    (hincomplete : s.completed = false)
    (hwaits : kind.Waits loop next output) :
    (s.emit kind (.loop next) output).LoopBooked kind next base := by
  obtain ⟨hdisk, hopened, haccepted⟩ :=
    @emit_of_not_file Loop kind s (.loop next) _ hwaits.output
  have hkept := hlaws.keeps hproceed hwaits.output
  have hmanifest := hfacts.manifest
  constructor
  · rw [hopened, hmanifest]
    exact hbooked.opened
  · rw [hdisk]
    exact hbooked.settled
  · exact hfacts.regular
  · rw [hdisk]
    exact hbooked.but
  · intro hjoined
    rw [hdisk]
    apply hbooked.returned_of_awaited hreceiver hunjoined
    intro hbefore
    unfold DiskKind.awaits
    rw [hbefore]
    unfold DiskKind.joined at hjoined hbefore
    rw [hkept] at hjoined
    cases hbackground : kind.background with
    | false =>
        simp only [hbackground, Bool.false_eq_true, if_false] at hjoined hbefore
        rw [hjoined] at hbefore
        contradiction
    | true =>
        simp only [hbackground, if_true] at hjoined hbefore
        rcases hwaits.writing with hsame | ⟨hjoins, _⟩
        · rw [hsame, hbefore] at hjoined
          contradiction
        · simp [hjoins]
  · rw [hdisk, hkept, hmanifest, haccepted]
    exact hbooked.placed
  · rw [haccepted, hmanifest]
    exact hbooked.sizes
  · rw [haccepted, hwaits.pending, hkept]
    exact hbooked.waits
  · rw [haccepted]
    exact hbooked.nodup
  · rw [hdisk]
    exact hbooked.patient
  · intro hcompleted
    by_cases hcomplete : output = .ctrl .complete
    · exact (hfacts.complete (Or.inl hcomplete)).2.1
    · rw [emit_completed (.loop next) hcomplete, hincomplete] at hcompleted
      contradiction

theorem loopBooked_of_proceed (hlaws : kind.Laws) {loop next : Loop}
    {base : Bytes} {output : ReceiverOutput}
    (hreceiver : s.receiver = .loop loop)
    (hbooked : s.LoopBooked kind loop base)
    (hunjoined : s.unjoined kind = false)
    (hproceed : kind.proceed loop = some (.loop next, output)) :
    (s.emit kind (.loop next) output).LoopBooked kind next base := by
  rcases hlaws.loop.proceed_cases hbooked.regular hproceed with
    ⟨next', hnext, hopen, hfacts⟩ | ⟨_, hnext, _⟩
  · cases hnext
    have hincomplete : s.completed = false := by
      cases hcompleted : s.completed with
      | false => rfl
      | true => exact absurd (hbooked.completed hcompleted) hopen
    rcases hfacts.moves with ⟨index, plaintext, hwrites⟩ | hwaits
    · exact loopBooked_of_writes hreceiver hbooked hunjoined hfacts.regular
        hfacts.manifest hincomplete hwrites
    · exact loopBooked_of_waits hlaws hreceiver hbooked hunjoined hproceed
        hfacts hincomplete hwaits
  · cases hnext

/-- When `Complete` is sent every accepted chunk was written. -/
theorem finished_of_complete (hlaws : kind.Laws) {loop : Loop} {base : Bytes}
    {receiver : Receiver Loop} (hbooked : s.LoopBooked kind loop base)
    (hproceed : kind.proceed loop = some (receiver, .ctrl .complete)) :
    s.Finished kind (kind.books loop).manifest base := by
  rcases hlaws.loop.proceed_cases hbooked.regular hproceed with
    ⟨next, _, _, hfacts⟩ | ⟨_, _, houtput⟩
  · obtain ⟨_, _, _, hholding, hwriting⟩ := hfacts.complete (Or.inl rfl)
    have hplaced := hbooked.placed
    rw [hholding] at hplaced
    have hjoined : kind.joined loop = true := by
      unfold DiskKind.joined
      rw [hholding, hwriting]
      simp
    constructor
    · exact hbooked.opened
    · exact hbooked.settled
    · exact hbooked.returned hjoined
    · simpa using hplaced
    · exact hbooked.sizes
    · exact hbooked.nodup
    · exact hbooked.patient
  · cases houtput

theorem Finished.emit {manifest : FileManifest} {base : Bytes}
    (hfinished : s.Finished kind manifest base) (receiver : Receiver Loop)
    {output : ReceiverOutput} (hfile : ∀ op, output ≠ .file op) :
    (s.emit kind receiver output).Finished kind manifest base := by
  obtain ⟨hdisk, hopened, haccepted⟩ :=
    @emit_of_not_file Loop kind s receiver _ hfile
  constructor
  · rw [hopened]
    exact hfinished.opened
  · rw [hdisk]
    exact hfinished.settled
  · rw [hdisk]
    exact hfinished.returned
  · rw [hdisk, haccepted]
    exact hfinished.placed
  · rw [haccepted]
    exact hfinished.sizes
  · rw [haccepted]
    exact hfinished.nodup
  · rw [hdisk]
    exact hfinished.patient

/-! ## One step of the receiver -/

/-- Nothing has been written when the loop begins. -/
theorem SetupBooked.start (hlaws : kind.Laws) {setup : Setup}
    (hbooked : s.SetupBooked setup) (manifest : FileManifest)
    (state : TransferState) (hready : setup = .ready manifest state) :
    LoopBooked kind
      { s with
        receiver := .loop (kind.start (.start outputDir manifest state)) }
      (kind.start (.start outputDir manifest state)) s.disk.file := by
  have hwrites := hbooked.writes
  have haccepted := hbooked.accepted
  have hbooks := hlaws.loop.start_books (.start outputDir manifest state)
  have hnone := hlaws.loop.start_holding (.start outputDir manifest state)
  constructor
  · rw [hbooks]
    exact hbooked.opened manifest state hready
  · constructor <;> simp [hwrites]
  · exact hlaws.loop.start_regular _
  · simp [SharedFile.ReturnedBut, hwrites]
  · simp [SharedFile.Returned, hwrites]
  · rw [hnone]
    simp [hwrites, haccepted]
  · simp [haccepted]
  · simp [haccepted]
  · simp [haccepted]
  · simp [SharedFile.Patient, hwrites]
  · simp [hbooked.completed]

/-- The set-up writes no chunk and does not complete. -/
theorem SetupBooked.emit (hlaws : kind.Laws) {setup : Setup}
    (hbooked : s.SetupBooked setup) (hreceiver : s.receiver = .setup setup)
    {receiver : Receiver Loop} {output : ReceiverOutput}
    (hproceed : (Receiver.setup setup : Receiver Loop).proceed
      kind.toReceiveLoop outputDir = some (receiver, output)) :
    (s.emit kind receiver output).Booked kind ∧
      output ≠ .ctrl .complete := by
  have hincomplete := hbooked.completed
  cases setup with
  | acceptBi =>
      cases hproceed
      exact ⟨⟨⟨hbooked.writes, hbooked.accepted, hincomplete, by simp,
        by simp⟩, by simp [DiskRun.emit, hincomplete]⟩, by simp⟩
  | recvManifest => contradiction
  | reject =>
      cases hproceed
      exact ⟨⟨True.intro, by simp [DiskRun.emit, hincomplete]⟩, by simp⟩
  | lookup manifest => contradiction
  | createDir manifest =>
      cases hproceed
      exact ⟨⟨⟨hbooked.writes, hbooked.accepted, hincomplete, by simp,
        by simp⟩, by simp [DiskRun.emit, hincomplete]⟩, by simp⟩
  | create manifest =>
      cases hproceed
      exact ⟨⟨⟨hbooked.writes, hbooked.accepted, hincomplete, by simp,
        by simp⟩, by simp [DiskRun.emit, hincomplete]⟩, by simp⟩
  | setLen manifest =>
      cases hproceed
      refine ⟨⟨⟨hbooked.writes, hbooked.accepted, hincomplete, ?_,
        by simp⟩, by simp [DiskRun.emit, hincomplete]⟩, by simp⟩
      intro other state message hreply
      cases hreply
      simp
  | reply manifest state message =>
      cases hproceed
      have hmessage := hbooked.replies manifest state message rfl
      have hemit : s.emit kind (.setup (.openFile manifest state))
          (.ctrl message) =
          { s with receiver := .setup (.openFile manifest state) } := by
        cases message with
        | complete => exact absurd rfl hmessage
        | _ => rfl
      refine ⟨?_, by simpa using hmessage⟩
      change (s.emit kind (.setup (.openFile manifest state))
        (.ctrl message)).Booked kind
      rw [hemit]
      exact ⟨⟨hbooked.writes, hbooked.accepted, hincomplete, by simp,
        by simp⟩, by simp [hincomplete]⟩
  | openFile manifest state =>
      cases hproceed
      refine ⟨⟨⟨hbooked.writes, hbooked.accepted, hincomplete, by simp,
        ?_⟩, by simp [DiskRun.emit, hincomplete]⟩, by simp⟩
      intro other state' hready
      cases hready
      simp [DiskRun.emit, opening, hreceiver]
  | ready manifest state =>
      cases hproceed
      exact ⟨⟨⟨_, hbooked.start hlaws manifest state rfl⟩,
        by simp [DiskRun.emit, hincomplete]⟩, by simp⟩
  | failed error => contradiction

/-- Wherever the receiver goes with the output. -/
theorem finished_of_proceed (hlaws : kind.Laws) {receiver : Receiver Loop}
    {output : ReceiverOutput} (hbooked : s.Booked kind)
    (hproceed : s.receiver.proceed kind.toReceiveLoop outputDir =
      some (receiver, output)) (other : Receiver Loop)
    (hcompleted : (s.emit kind other output).completed = true) :
    ∃ manifest base,
      (s.emit kind other output).Finished kind manifest base := by
  have hbooks := hbooked.receiver
  unfold ReceiverBooked at hbooks
  cases hreceiver : s.receiver with
  | setup setup =>
      rw [hreceiver] at hbooks hproceed
      have hcomplete := (hbooks.emit hlaws hreceiver hproceed).2
      rw [emit_completed other hcomplete, hbooks.completed] at hcompleted
      contradiction
  | loop loop =>
      rw [hreceiver] at hbooks hproceed
      obtain ⟨base, hloop⟩ := hbooks
      have hproceed : kind.proceed loop = some (receiver, output) := hproceed
      by_cases hcomplete : output = .ctrl .complete
      · subst hcomplete
        have hfinished := finished_of_complete hlaws hloop hproceed
        exact ⟨_, _, hfinished.emit other (by simp)⟩
      · rw [emit_completed other hcomplete] at hcompleted
        obtain ⟨manifest, base', hfinished⟩ := hbooked.completed hcompleted
        have hended := hloop.completed hcompleted
        rcases hlaws.loop.proceed_cases hloop.regular hproceed with
          ⟨_, _, hopen, _⟩ | ⟨_, _, hdelete⟩
        · exact absurd hended hopen
        · refine ⟨manifest, base', hfinished.emit other ?_⟩
          rw [hdelete]
          simp
  | returned books =>
      rw [hreceiver] at hproceed
      contradiction
  | failed error =>
      rw [hreceiver] at hproceed
      contradiction

theorem booked_of_proceed (hlaws : kind.Laws) {receiver : Receiver Loop}
    {output : ReceiverOutput} (hbooked : s.Booked kind)
    (hunjoined : s.unjoined kind = false)
    (hproceed : s.receiver.proceed kind.toReceiveLoop outputDir =
      some (receiver, output)) :
    (s.emit kind receiver output).Booked kind := by
  refine ⟨?_, finished_of_proceed hlaws hbooked hproceed receiver⟩
  have hbooks := hbooked.receiver
  unfold ReceiverBooked at hbooks
  cases hreceiver : s.receiver with
  | setup setup =>
      rw [hreceiver] at hbooks hproceed
      exact (hbooks.emit hlaws hreceiver hproceed).1.receiver
  | loop loop =>
      rw [hreceiver] at hbooks hproceed
      obtain ⟨base, hloop⟩ := hbooks
      have hproceed : kind.proceed loop = some (receiver, output) := hproceed
      unfold ReceiverBooked
      rw [emit_receiver]
      rcases hlaws.loop.proceed_cases hloop.regular hproceed with
        ⟨next, rfl, _, _⟩ | ⟨_, rfl, _⟩
      · exact ⟨base,
          loopBooked_of_proceed hlaws hreceiver hloop hunjoined hproceed⟩
      · exact True.intro
  | returned books =>
      rw [hreceiver] at hproceed
      contradiction
  | failed error =>
      rw [hreceiver] at hproceed
      contradiction

/-- A step that fails may have had its effect. -/
theorem booked_of_fail (hlaws : kind.Laws) {error : Error} {effect : Bool}
    {receiver : Receiver Loop} {output : ReceiverOutput}
    (hbooked : s.Booked kind)
    (hfail : s.receiver.fail kind.toReceiveLoop outputDir error effect =
      some (receiver, output)) :
    (s.emit kind receiver output).Booked kind := by
  have hstep : s.receiver.step kind.toReceiveLoop outputDir
      (.fail error effect) = some (receiver, output) := hfail
  have houtput := Receiver.step_output hstep
  have hfailed : receiver = .failed error := by
    unfold Receiver.fail at hfail
    split at hfail
    · contradiction
    · contradiction
    · split at hfail <;> cases hfail <;> rfl
  subst hfailed
  constructor
  · unfold ReceiverBooked
    rw [emit_receiver]
    exact True.intro
  · intro hcompleted
    rcases houtput with rfl | ⟨next, hproceed⟩
    · obtain ⟨manifest, base, hfinished⟩ := hbooked.completed hcompleted
      exact ⟨manifest, base, hfinished.emit _ (by simp)⟩
    · exact finished_of_proceed hlaws hbooked hproceed _ hcompleted

theorem booked_of_received {result : Except Error ControlMessage}
    {receiver : Receiver Loop} (hbooked : s.Booked kind)
    (hreceived : s.receiver.received result = some receiver) :
    ({ s with receiver } : DiskRun Loop).Booked kind := by
  have hbooks := hbooked.receiver
  unfold ReceiverBooked at hbooks
  cases hreceiver : s.receiver with
  | setup setup =>
      rw [hreceiver] at hbooks hreceived
      refine ⟨?_, by simp [hbooks.completed]⟩
      cases setup with
      | recvManifest =>
          cases hreceived
          cases result with
          | error error => exact True.intro
          | ok message =>
              cases message with
              | manifest m =>
                  cases hmode : m.transferMode with
                  | bulk =>
                      simp only [Setup.afterManifest, hmode,
                        Receiver.ofSetup, ReceiverBooked]
                      exact ⟨hbooks.writes, hbooks.accepted,
                        hbooks.completed, by simp, by simp⟩
                  | streaming config =>
                      simp only [Setup.afterManifest, hmode,
                        Receiver.ofSetup, ReceiverBooked]
                      exact ⟨hbooks.writes, hbooks.accepted,
                        hbooks.completed, by simp, by simp⟩
              | _ => exact True.intro
      | _ => contradiction
  | loop loop =>
      rw [hreceiver] at hreceived
      contradiction
  | returned books =>
      rw [hreceiver] at hreceived
      contradiction
  | failed error =>
      rw [hreceiver] at hreceived
      contradiction

theorem booked_of_lookup {pathExists : RawPath → Bool} {files : StateFiles}
    {receiver : Receiver Loop} (hbooked : s.Booked kind)
    (hlookup : s.receiver.lookup outputDir pathExists files = some receiver) :
    ({ s with receiver } : DiskRun Loop).Booked kind := by
  have hbooks := hbooked.receiver
  unfold ReceiverBooked at hbooks
  cases hreceiver : s.receiver with
  | setup setup =>
      rw [hreceiver] at hbooks hlookup
      refine ⟨?_, by simp [hbooks.completed]⟩
      cases setup with
      | lookup manifest =>
          simp only [Receiver.lookup, Option.some.injEq] at hlookup
          subst receiver
          cases hfound : findResumable pathExists files manifest outputDir with
          | none =>
              simp only [Setup.afterLookup, Receiver.ofSetup, ReceiverBooked]
              exact ⟨hbooks.writes, hbooks.accepted, hbooks.completed,
                by simp, by simp⟩
          | some state =>
              simp only [Setup.afterLookup, Receiver.ofSetup, ReceiverBooked]
              refine ⟨hbooks.writes, hbooks.accepted, hbooks.completed, ?_,
                by simp⟩
              intro other state' message hreply
              cases hreply
              simp
      | _ => contradiction
  | loop loop =>
      rw [hreceiver] at hlookup
      contradiction
  | returned books =>
      rw [hreceiver] at hlookup
      contradiction
  | failed error =>
      rw [hreceiver] at hlookup
      contradiction

theorem stepReceiver_cases {event : ReceiverEvent}
    (hstep : s.stepReceiver kind outputDir event = some t) :
    (event = .proceed → s.unjoined kind = false) ∧ ∃ receiver output,
      s.receiver.step kind.toReceiveLoop outputDir event =
        some (receiver, output) ∧
      t = s.emit kind receiver output := by
  unfold stepReceiver at hstep
  split at hstep
  next => contradiction
  next hjoined =>
    obtain ⟨⟨receiver, output⟩, hreceiver, rfl⟩ :=
      Option.map_eq_some_iff.mp hstep
    refine ⟨fun hevent => ?_, receiver, output, hreceiver, rfl⟩
    cases hunjoined : s.unjoined kind with
    | false => rfl
    | true => exact absurd hevent (hjoined hunjoined)

/-- Once `Complete` has been sent no file is touched. -/
theorem not_file_of_completed (hlaws : kind.Laws) {event : ReceiverEvent}
    {receiver : Receiver Loop} {output : ReceiverOutput}
    (hbooked : s.Booked kind) (hcompleted : s.completed = true)
    (hstep : s.receiver.step kind.toReceiveLoop outputDir event =
      some (receiver, output)) : ∀ op, output ≠ .file op := by
  rcases Receiver.step_output hstep with rfl | ⟨other, hproceed⟩
  · simp
  · have hbooks := hbooked.receiver
    unfold ReceiverBooked at hbooks
    cases hreceiver : s.receiver with
    | setup setup =>
        rw [hreceiver] at hbooks
        have hincomplete := hbooks.completed
        rw [hcompleted] at hincomplete
        contradiction
    | loop loop =>
        rw [hreceiver] at hbooks hproceed
        obtain ⟨base, hloop⟩ := hbooks
        rcases hlaws.loop.proceed_cases hloop.regular hproceed with
          ⟨_, _, hopen, _⟩ | ⟨_, _, hdelete⟩
        · exact absurd (hloop.completed hcompleted) hopen
        · rw [hdelete]
          simp
    | returned books =>
        rw [hreceiver] at hproceed
        contradiction
    | failed error =>
        rw [hreceiver] at hproceed
        contradiction

/-- `Complete` comes out of the loop. -/
theorem loop_of_complete (hlaws : kind.Laws) {event : ReceiverEvent}
    {receiver : Receiver Loop} (hbooked : s.Booked kind)
    (hstep : s.receiver.step kind.toReceiveLoop outputDir event =
      some (receiver, .ctrl .complete)) :
    ∃ loop other, s.receiver = .loop loop ∧
      kind.proceed loop = some (other, .ctrl .complete) := by
  rcases Receiver.step_output hstep with hnone | ⟨other, hproceed⟩
  · cases hnone
  · have hbooks := hbooked.receiver
    unfold ReceiverBooked at hbooks
    cases hreceiver : s.receiver with
    | setup setup =>
        rw [hreceiver] at hbooks hproceed
        exact absurd rfl (hbooks.emit hlaws hreceiver hproceed).2
    | loop loop =>
        rw [hreceiver] at hproceed
        exact ⟨loop, other, rfl, hproceed⟩
    | returned books =>
        rw [hreceiver] at hproceed
        contradiction
    | failed error =>
        rw [hreceiver] at hproceed
        contradiction

theorem booked_of_stepReceiver (hlaws : kind.Laws) {event : ReceiverEvent}
    (hbooked : s.Booked kind)
    (hstep : s.stepReceiver kind outputDir event = some t) :
    t.Booked kind := by
  obtain ⟨hunjoined, receiver, output, hreceiver, rfl⟩ :=
    stepReceiver_cases hstep
  cases event with
  | proceed => exact booked_of_proceed hlaws hbooked (hunjoined rfl) hreceiver
  | fail error effect => exact booked_of_fail hlaws hbooked hreceiver
  | received result =>
      obtain ⟨_, hreceived, hresult⟩ := Option.map_eq_some_iff.mp hreceiver
      cases hresult
      exact booked_of_received hbooked hreceived
  | lookup pathExists files =>
      obtain ⟨_, hlookup, hresult⟩ := Option.map_eq_some_iff.mp hreceiver
      cases hresult
      exact booked_of_lookup hbooked hlookup

/-! ## Chunks accepted, and the disk on its own -/

theorem accept_of_none {receiver : Receiver Loop} {offset : ℕ → ℕ}
    (hheld : held kind receiver = none) :
    s.accept kind receiver offset = { s with receiver } := by
  unfold accept
  rw [hheld]

theorem Finished.accept {manifest : FileManifest} {base : Bytes}
    (hfinished : s.Finished kind manifest base) {receiver : Receiver Loop}
    {offset : ℕ → ℕ} (hheld : held kind receiver = none) :
    (s.accept kind receiver offset).Finished kind manifest base := by
  rw [accept_of_none hheld]
  exact ⟨hfinished.opened, hfinished.settled, hfinished.returned,
    hfinished.placed, hfinished.sizes, hfinished.nodup, hfinished.patient⟩

theorem accept_completed {receiver : Receiver Loop} {offset : ℕ → ℕ} :
    (s.accept kind receiver offset).completed = s.completed := by
  unfold accept
  split <;> rfl

/-- The loop holds no chunk after the step. -/
theorem LoopBooked.passes {loop next : Loop} {base : Bytes}
    (hbooked : s.LoopBooked kind loop base)
    (hfacts : kind.ReceiveFacts read loop next)
    (hnone : kind.holding loop = none) (hheld : kind.holding next = none)
    (hincomplete : s.completed = false) :
    LoopBooked kind { s with receiver := .loop next } next base := by
  have hmanifest := hfacts.manifest
  constructor
  · rw [hmanifest]
    exact hbooked.opened
  · exact hbooked.settled
  · exact hfacts.regular
  · exact hbooked.but
  · intro hjoined
    apply hbooked.returned
    unfold DiskKind.joined at hjoined ⊢
    rw [hnone, ← hheld, ← hfacts.writing]
    exact hjoined
  · rw [hmanifest, hheld, ← hnone]
    exact hbooked.placed
  · rw [hmanifest]
    exact hbooked.sizes
  · rw [hfacts.pending, hheld, ← hnone]
    exact hbooked.waits
  · exact hbooked.nodup
  · exact hbooked.patient
  · intro hcompleted
    rw [hincomplete] at hcompleted
    contradiction

/-- The loop comes to hold a chunk. -/
theorem LoopBooked.takes {loop next : Loop} {base : Bytes} {index : ℕ}
    {plaintext : Bytes} (hbooked : s.LoopBooked kind loop base)
    (hfacts : kind.ReceiveFacts read loop next)
    (hnone : kind.holding loop = none)
    (hheld : kind.holding next = some (index, plaintext))
    (hmissed : kind.selective = true → index ∈ (kind.books loop).pending)
    (hincomplete : s.completed = false) :
    LoopBooked kind
      { s with
        receiver := .loop next
        accepted := s.accepted ++ [(index, plaintext)]
        disk :=
          if kind.background then s.disk
          else s.disk.copy ((kind.books loop).manifest.offset index) plaintext }
      next base := by
  have hmanifest := hfacts.manifest
  have hplaced := hbooked.placed
  have hfree : kind.selective = true → ∀ chunk ∈ s.accepted,
      chunk.1 ∉ (kind.books loop).pending := by
    intro hselective chunk hchunk hmem
    have hwaiting := hbooked.waits hselective chunk hchunk hmem
    rw [hnone] at hwaiting
    contradiction
  have hreturned : kind.background = false → s.disk.Returned := by
    intro hforeground
    apply hbooked.returned
    unfold DiskKind.joined
    rw [hforeground, hnone]
    rfl
  constructor
  · rw [hmanifest]
    exact hbooked.opened
  · dsimp only
    split
    · exact hbooked.settled
    next hbackground =>
      exact hbooked.settled.copy (hreturned (by simpa using hbackground)) _ _
  · exact hfacts.regular
  · dsimp only
    split
    · exact hbooked.but
    next hbackground =>
      exact SharedFile.copy_returnedBut (hreturned (by simpa using hbackground)) _ _
  · intro hjoined
    unfold DiskKind.joined at hjoined
    rw [hheld] at hjoined
    cases hbackground : kind.background with
    | false => simp [hbackground] at hjoined
    | true =>
        apply hbooked.returned
        unfold DiskKind.joined
        rw [hbackground] at hjoined ⊢
        rw [← hfacts.writing]
        exact hjoined
  · rw [hmanifest, hheld, List.map_append, ← hplaced, hnone]
    dsimp only
    split
    · simp
    · simp [SharedFile.copy, Write.new, FileManifest.placed]
  · intro chunk hchunk
    rw [hmanifest]
    rcases List.mem_append.mp hchunk with hold | hnew
    · exact hbooked.sizes chunk hold
    · rw [List.mem_singleton.mp hnew]
      exact (hfacts.holding index plaintext hheld).1
  · intro hselective chunk hchunk hmem
    rw [hfacts.pending] at hmem
    rcases List.mem_append.mp hchunk with hold | hnew
    · exact absurd hmem (hfree hselective chunk hold)
    · rw [List.mem_singleton.mp hnew]
      exact hheld
  · intro hselective
    rw [List.map_append]
    refine List.nodup_append.mpr
      ⟨hbooked.nodup hselective, List.nodup_singleton _, ?_⟩
    rintro other hother _ hindex rfl
    obtain ⟨chunk, hchunk, rfl⟩ := List.mem_map.mp hother
    have hsame : chunk.1 = index := List.mem_singleton.mp hindex
    have hwaiting := hmissed hselective
    rw [← hsame] at hwaiting
    exact hfree hselective chunk hchunk hwaiting
  · intro hforeground
    simp only [hforeground, Bool.false_eq_true, if_false]
    exact (hbooked.patient hforeground).copy _ _
  · intro hcompleted
    exact absurd hcompleted (by simp [hincomplete])

theorem booked_of_frame (hlaws : kind.Laws) {loop : Loop} {input : Bytes}
    {receiver : Receiver Loop} (hreceiver : s.receiver = .loop loop)
    (hbooked : s.Booked kind)
    (hreceive : kind.receive read decode input loop = some receiver) :
    (s.accept kind receiver (kind.books loop).manifest.offset).Booked
      kind := by
  have hbooks := hbooked.receiver
  unfold ReceiverBooked at hbooks
  rw [hreceiver] at hbooks
  obtain ⟨base, hloop⟩ := hbooks
  have hnone := hlaws.idle hreceive
  rcases hlaws.loop.receive_cases hloop.regular hreceive with
    ⟨error, rfl⟩ | ⟨next, rfl, hopen, hfacts⟩
  · refine ⟨True.intro, fun hcompleted => ?_⟩
    obtain ⟨manifest, base', hfinished⟩ := hbooked.completed hcompleted
    exact ⟨manifest, base', hfinished.accept rfl⟩
  · have hincomplete : s.completed = false := by
      cases hcompleted : s.completed with
      | false => rfl
      | true => exact absurd (hloop.completed hcompleted) hopen
    cases hheld : kind.holding next with
    | none =>
        have hpass : held kind (.loop next) = none := hheld
        rw [accept_of_none hpass]
        exact ⟨⟨base, hloop.passes hfacts hnone hheld hincomplete⟩,
          by simp [hincomplete]⟩
    | some chunk =>
        obtain ⟨index, plaintext⟩ := chunk
        have htake : held kind (.loop next) = some (index, plaintext) := hheld
        have hmissed : kind.selective = true →
            index ∈ (kind.books loop).pending := fun hselective =>
          hlaws.missed hselective hreceive hheld
        unfold accept
        rw [htake]
        exact ⟨⟨base,
          hloop.takes hfacts hnone hheld hmissed hincomplete⟩,
          by simp [hincomplete]⟩

/-- No copy seeks while a buffer is under way. -/
def SeeksQuiet (s : DiskRun Loop) : DiskRunEvent → Prop
  | .disk _ .seeks => s.disk.Quiet
  | _ => True

theorem nextDisk_cases {number : ℕ} {event : DiskEvent} {disk : SharedFile}
    (hnext : s.nextDisk kind number event = some disk) :
    s.disk.next number event = some disk ∧
      (event = .seeks → kind.background = false → s.disk.Clean) := by
  cases event with
  | seeks =>
      unfold nextDisk at hnext
      dsimp only at hnext
      split at hnext
      next hallowed =>
        refine ⟨hnext, fun _ hforeground => ?_⟩
        rcases hallowed with hbackground | hclean
        · rw [hforeground] at hbackground
          contradiction
        · exact hclean
      next => contradiction
  | _ => exact ⟨hnext, by simp⟩

theorem booked_of_disk {number : ℕ} {event : DiskEvent} {disk : SharedFile}
    (hbooked : s.Booked kind) (hquiet : event = .seeks → s.disk.Quiet)
    (hnext : s.nextDisk kind number event = some disk) :
    ({ s with disk } : DiskRun Loop).Booked kind := by
  obtain ⟨hnext, hclean⟩ := nextDisk_cases hnext
  constructor
  · have hbooks := hbooked.receiver
    unfold ReceiverBooked at hbooks ⊢
    cases hreceiver : s.receiver with
    | setup setup =>
        rw [hreceiver] at hbooks
        unfold SharedFile.next at hnext
        rw [hbooks.writes] at hnext
        contradiction
    | loop loop =>
        rw [hreceiver] at hbooks
        obtain ⟨base, hloop⟩ := hbooks
        refine ⟨base, hloop.opened, hloop.settled.step hquiet hnext,
          hloop.regular, SharedFile.next_returnedBut hloop.but hnext, ?_, ?_,
          hloop.sizes, hloop.waits, hloop.nodup, ?_, hloop.completed⟩
        · exact fun hjoined =>
            SharedFile.next_returned (hloop.returned hjoined) hnext
        · dsimp only
          rw [SharedFile.next_places hnext]
          exact hloop.placed
        · intro hforeground
          exact (hloop.patient hforeground).step hloop.settled hloop.but
            (fun hseeks => hclean hseeks hforeground) hnext
    | returned books => exact True.intro
    | failed error => exact True.intro
  · intro hcompleted
    obtain ⟨manifest, base, hfinished⟩ := hbooked.completed hcompleted
    refine ⟨manifest, base, hfinished.opened,
      hfinished.settled.step hquiet hnext,
      SharedFile.next_returned hfinished.returned hnext, ?_, hfinished.sizes,
      hfinished.nodup, ?_⟩
    · dsimp only
      rw [SharedFile.next_places hnext]
      exact hfinished.placed
    · intro hforeground
      exact (hfinished.patient hforeground).step hfinished.settled
        hfinished.returned.but (fun hseeks => hclean hseeks hforeground) hnext

/-- One step keeps the books, if no copy seeks too early. -/
theorem Booked.step (hlaws : kind.Laws) {event : DiskRunEvent}
    (hbooked : s.Booked kind) (hquiet : s.SeeksQuiet event)
    (hnext : next kind read decode outputDir s event = some t) :
    t.Booked kind := by
  cases event with
  | receiver event => exact booked_of_stepReceiver hlaws hbooked hnext
  | frame input =>
      unfold DiskRun.next at hnext
      dsimp only at hnext
      split at hnext
      next loop hreceiver =>
        obtain ⟨receiver, hreceive, rfl⟩ := Option.map_eq_some_iff.mp hnext
        exact booked_of_frame hlaws hreceiver hbooked hreceive
      next => contradiction
  | disk number event =>
      obtain ⟨disk, hdisk, rfl⟩ := Option.map_eq_some_iff.mp hnext
      refine booked_of_disk hbooked ?_ hdisk
      rintro rfl
      exact hquiet

theorem Starts.booked (hlaws : kind.Laws) (hstart : s.Starts kind) :
    s.Booked kind := by
  constructor
  · unfold ReceiverBooked
    rw [hstart.receiver]
    refine ⟨hstart.writes, hstart.accepted, hstart.completed, ?_, ?_⟩
    · rcases hlaws.firstSetup with hfirst | hfirst <;> simp [hfirst]
    · rcases hlaws.firstSetup with hfirst | hfirst <;> simp [hfirst]
  · simp [hstart.completed]

theorem Finished.file_of_clean {manifest : FileManifest} {base : Bytes}
    (hfinished : s.Finished kind manifest base) (hclean : s.disk.Clean) :
    s.disk.file = writeAll base (s.accepted.map manifest.placed) := by
  rw [← hfinished.placed]
  exact hfinished.settled.file_of_clean hfinished.returned hclean

end DiskRun

end P2pShare
