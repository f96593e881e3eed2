import P2pShare.TransitionMachine
import P2pShare.LoopKinds

/-!
# Where the receivers write

A receiver alone, against any peer and any file system: the environment chooses
how every await ends and what every read decrypts to, and the machine records
the file operations.  All of them, for the whole run, are made under the one
name `output_dir.join(filename)`, so whether they stay in the directory is
decided by the spelling of the peer's file name.
-/

namespace P2pShare

open ByteStream PathResolution TransitionMachine

/-- The path of an operation on the output file. -/
def FileOp.target? : FileOp → Option RawPath
  | .createDirAll _ => none
  | .create path | .setLen path _ | .openWrite path | .write path _ _ =>
      some path

structure Writer (Loop : Type) where
  receiver : Receiver Loop
  ops : List FileOp

inductive WriterEvent where
  | step (event : ReceiverEvent)
  | frame (read : ℕ → Bytes → Option Bytes)
      (decode : Bytes → Option ControlMessage) (input : Bytes)

namespace Writer

variable {Loop : Type} (kind : LoopKind Loop) (outputDir : RawPath)
  (manifest : FileManifest)

/-- The only manifest the peer sends is the given one. -/
def admits : ReceiverEvent → Bool
  | .received (.ok (.manifest other)) => decide (other = manifest)
  | _ => true

def next (s : Writer Loop) : WriterEvent → Option (Writer Loop)
  | .step event =>
      if admits manifest event then
        (s.receiver.step kind.toReceiveLoop outputDir event).map
          fun (receiver, output) =>
            match output with
            | .file op => ⟨receiver, s.ops ++ [op]⟩
            | _ => ⟨receiver, s.ops⟩
      else none
  | .frame read decode input =>
      match s.receiver with
      | .loop loop =>
          (kind.receive read decode input loop).map fun receiver =>
            ⟨receiver, s.ops⟩
      | _ => none

def machine (firstSetup : Setup) : Machine (Writer Loop) WriterEvent where
  start := fun s => s = ⟨.setup firstSetup, []⟩
  next := next kind outputDir manifest

end Writer

/-- In every file system, opening the path reaches an entry of the directory or
nothing. -/
def LiesIn (outputDir path : RawPath) : Prop :=
  ∀ (fs : FileSystem) (dir : fs.Dir) (entry : RawPath),
    fs.locate path = some (dir, entry) → fs.resolveDir outputDir = some dir

/-- Every operation on the output file, in every run, stays in the output
directory. -/
def StaysInside {Loop : Type} (kind : LoopKind Loop) (firstSetup : Setup)
    (outputDir : RawPath) (manifest : FileManifest) : Prop :=
  ∀ s, (Writer.machine kind outputDir manifest firstSetup).Reachable s →
    ∀ op ∈ s.ops, ∀ path, op.target? = some path → LiesIn outputDir path

/-! ## All operations have one target -/

namespace Writer

variable {Loop : Type} {kind : LoopKind Loop} {outputDir : RawPath}
  {manifest : FileManifest} {s t : Writer Loop}

/-- The receiver works on the given manifest, which is no streaming one. -/
def SetupOn (manifest : FileManifest) : Setup → Prop
  | .acceptBi | .recvManifest | .reject | .failed _ => True
  | .lookup m | .createDir m | .create m | .setLen m | .reply m _ _
  | .openFile m _ | .ready m _ => m = manifest ∧ manifest.transferMode = .bulk

variable (kind outputDir manifest) in
def ReceiverOn : Receiver Loop → Prop
  | .setup setup => SetupOn manifest setup
  | .loop loop =>
      kind.Regular loop ∧ manifest.transferMode = .bulk ∧
        (kind.books loop).outputPath = outputPathFor outputDir manifest
  | .returned _ | .failed _ => True

variable (outputDir manifest) in
/-- What the receiver may do to a file. -/
def Targets (op : FileOp) : Prop :=
  ∀ path, op.target? = some path →
    manifest.transferMode = .bulk ∧ path = outputPathFor outputDir manifest

variable (kind outputDir manifest) in
structure OneTarget (s : Writer Loop) : Prop where
  receiver : ReceiverOn kind outputDir manifest s.receiver
  ops : ∀ op ∈ s.ops, Targets outputDir manifest op

theorem receiverOn_ofSetup {setup : Setup} (hsetup : SetupOn manifest setup) :
    ReceiverOn kind outputDir manifest (Receiver.ofSetup setup) := by
  cases setup <;> exact hsetup

/-- One step of a receiver that works on the manifest. -/
theorem receiverOn_proceed (hlaws : kind.Laws) {receiver next : Receiver Loop}
    {output : ReceiverOutput}
    (hon : ReceiverOn kind outputDir manifest receiver)
    (hproceed :
      receiver.proceed kind.toReceiveLoop outputDir = some (next, output)) :
    ReceiverOn kind outputDir manifest next ∧
      ∀ op, output = .file op → Targets outputDir manifest op := by
  cases receiver with
  | setup setup =>
      cases setup with
      | acceptBi =>
          cases hproceed
          exact ⟨trivial, by simp⟩
      | recvManifest => contradiction
      | reject =>
          cases hproceed
          exact ⟨trivial, by simp⟩
      | lookup m => contradiction
      | createDir m =>
          cases hproceed
          refine ⟨hon, ?_⟩
          intro op houtput path hpath
          cases houtput
          contradiction
      | create m =>
          rcases hon with ⟨rfl, hbulk⟩
          cases hproceed
          refine ⟨⟨rfl, hbulk⟩, ?_⟩
          intro op houtput path hpath
          cases houtput
          cases hpath
          exact ⟨hbulk, rfl⟩
      | setLen m =>
          rcases hon with ⟨rfl, hbulk⟩
          cases hproceed
          refine ⟨⟨rfl, hbulk⟩, ?_⟩
          intro op houtput path hpath
          cases houtput
          cases hpath
          exact ⟨hbulk, rfl⟩
      | reply m state message =>
          cases hproceed
          exact ⟨hon, by simp⟩
      | openFile m state =>
          rcases hon with ⟨rfl, hbulk⟩
          cases hproceed
          refine ⟨⟨rfl, hbulk⟩, ?_⟩
          intro op houtput path hpath
          cases houtput
          cases hpath
          exact ⟨hbulk, rfl⟩
      | ready m state =>
          rcases hon with ⟨rfl, hbulk⟩
          cases hproceed
          refine ⟨⟨hlaws.start_regular _, hbulk, ?_⟩, by simp⟩
          rw [hlaws.start_books]
          rfl
      | failed error => contradiction
  | loop loop =>
      rcases hon with ⟨hregular, hbulk, hpath⟩
      rcases hlaws.proceed_cases hregular hproceed with
        ⟨next', rfl, _, hfacts⟩ | ⟨_, rfl, rfl⟩
      · refine ⟨⟨hfacts.regular, hbulk, hfacts.outputPath.trans hpath⟩, ?_⟩
        intro op houtput
        rcases hfacts.moves with ⟨index, plaintext, hwrites⟩ | hwaits
        · have hop := houtput.symm.trans hwrites.output
          cases hop
          intro path htarget
          cases htarget
          exact ⟨hbulk, hpath⟩
        · exact absurd houtput (hwaits.output op)
      · exact ⟨trivial, by simp⟩
  | returned books => contradiction
  | failed error => contradiction

theorem receiverOn_step (hlaws : kind.Laws) {receiver next : Receiver Loop}
    {event : ReceiverEvent} {output : ReceiverOutput}
    (hon : ReceiverOn kind outputDir manifest receiver)
    (hadmits : admits manifest event = true)
    (hstep : receiver.step kind.toReceiveLoop outputDir event =
      some (next, output)) :
    ReceiverOn kind outputDir manifest next ∧
      ∀ op, output = .file op → Targets outputDir manifest op := by
  cases event with
  | proceed => exact receiverOn_proceed hlaws hon hstep
  | fail error effect =>
      simp only [Receiver.step, Receiver.fail] at hstep
      split at hstep
      · contradiction
      · contradiction
      · split at hstep
        next proceeded output' hproceed =>
          cases hstep
          exact ⟨trivial, (receiverOn_proceed hlaws hon hproceed).2⟩
        next =>
          cases hstep
          exact ⟨trivial, by simp⟩
  | received result =>
      rcases Option.map_eq_some_iff.mp hstep with ⟨next', hreceived, hresult⟩
      cases hresult
      refine ⟨?_, by simp⟩
      unfold Receiver.received at hreceived
      split at hreceived
      next =>
        cases hreceived
        apply receiverOn_ofSetup
        cases result with
        | error error => trivial
        | ok message =>
            cases message with
            | manifest other =>
                have heq : other = manifest := by simpa [admits] using hadmits
                subst heq
                simp only [Setup.afterManifest]
                split
                next => trivial
                next hbulk => exact ⟨rfl, hbulk⟩
            | _ => trivial
      next => contradiction
  | lookup pathExists files =>
      rcases Option.map_eq_some_iff.mp hstep with ⟨next', hlookup, hresult⟩
      cases hresult
      refine ⟨?_, by simp⟩
      unfold Receiver.lookup at hlookup
      split at hlookup
      next m =>
        cases hlookup
        apply receiverOn_ofSetup
        cases findResumable pathExists files m outputDir <;> exact hon
      next => contradiction

theorem oneTarget_next (hlaws : kind.Laws) {event : WriterEvent}
    (hone : OneTarget kind outputDir manifest s)
    (hnext : s.next kind outputDir manifest event = some t) :
    OneTarget kind outputDir manifest t := by
  cases event with
  | step event =>
      simp only [next] at hnext
      split at hnext
      next hadmits =>
        rcases Option.map_eq_some_iff.mp hnext with
          ⟨⟨receiver, output⟩, hstep, hresult⟩
        rcases receiverOn_step hlaws hone.receiver hadmits hstep with
          ⟨hon, htargets⟩
        cases output with
        | file op =>
            cases hresult
            refine ⟨hon, ?_⟩
            intro other hother
            rcases List.mem_append.mp hother with hold | hnew
            · exact hone.ops other hold
            · rw [List.mem_singleton.mp hnew]
              exact htargets op rfl
        | _ =>
            cases hresult
            exact ⟨hon, hone.ops⟩
      next => contradiction
  | frame read decode input =>
      simp only [next] at hnext
      split at hnext
      next loop hstate =>
        rcases Option.map_eq_some_iff.mp hnext with ⟨receiver, hreceive, rfl⟩
        have hon := hone.receiver
        rw [hstate] at hon
        rcases hon with ⟨hregular, hbulk, hpath⟩
        rcases hlaws.receive_cases hregular hreceive with
          ⟨error, rfl⟩ | ⟨next', rfl, _, hfacts⟩
        · exact ⟨trivial, hone.ops⟩
        · exact ⟨⟨hfacts.regular, hbulk, hfacts.outputPath.trans hpath⟩,
            hone.ops⟩
      next => contradiction

theorem oneTarget_of_reachable (hlaws : kind.Laws) {firstSetup : Setup}
    (hfirst : firstSetup = .acceptBi ∨ firstSetup = .recvManifest)
    (hreach : (machine kind outputDir manifest firstSetup).Reachable s) :
    OneTarget kind outputDir manifest s := by
  apply hreach.invariant
  · intro s₀ hstart
    cases hstart
    refine ⟨?_, by simp⟩
    rcases hfirst with rfl | rfl
    · trivial
    · trivial
  · intro u event v hu hnext
    exact oneTarget_next hlaws hu hnext

end Writer

/-! ## The names that stay inside -/

/-- The events of a run that creates the output file. -/
def creatingEvents (manifest : FileManifest) : List WriterEvent :=
  [.step (.received (.ok (.manifest manifest))),
    .step (.lookup (fun _ => false) fun _ => .absent), .step .proceed,
    .step .proceed]

theorem created_of_bulk {Loop : Type} {kind : LoopKind Loop}
    {outputDir : RawPath} {manifest : FileManifest}
    (hbulk : manifest.transferMode = .bulk) (firstSetup : Setup) :
    (Writer.machine kind outputDir manifest firstSetup).runFrom
        ⟨.setup .recvManifest, []⟩ (creatingEvents manifest) =
      some ⟨.setup (.setLen manifest),
        [.createDirAll outputDir,
          .create (outputPathFor outputDir manifest)]⟩ := by
  simp [creatingEvents, Machine.runFrom, Writer.machine, Writer.next,
    Writer.admits, Receiver.step, Receiver.received, Receiver.lookup,
    Receiver.ofSetup, Setup.afterManifest, hbulk, findResumable,
    Setup.afterLookup, Receiver.proceed, Setup.proceed]

/-- A receiver that takes the manifest first stays inside exactly when the
spelling says so. -/
theorem staysInside_iff {Loop : Type} {kind : LoopKind Loop}
    (hlaws : kind.Laws) {firstSetup : Setup}
    (hfirst : firstSetup = .acceptBi ∨ firstSetup = .recvManifest)
    (outputDir : RawPath) (manifest : FileManifest) :
    StaysInside kind firstSetup outputDir manifest ↔
      manifest.transferMode ≠ .bulk ∨
        Unopenable outputDir manifest.filename.toList ∨
        SpelledInside outputDir manifest.filename.toList := by
  rw [← confined_iff]
  constructor
  · intro hstays
    by_cases hbulk : manifest.transferMode = .bulk
    · right
      have hbegin :
          (Writer.machine kind outputDir manifest firstSetup).Reachable
            ⟨.setup .recvManifest, []⟩ := by
        rcases hfirst with rfl | rfl
        · have haccept :
              (Writer.machine kind outputDir manifest .acceptBi).next
                  ⟨.setup .acceptBi, []⟩ (.step .proceed) =
                some ⟨.setup .recvManifest, []⟩ := rfl
          exact (Machine.Reachable.of_start rfl).step haccept
        · exact Machine.Reachable.of_start rfl
      have hreach := hbegin.leads
        (Machine.leads_of_runFrom (created_of_bulk hbulk firstSetup))
      exact hstays _ hreach (.create (outputPathFor outputDir manifest))
        (by simp) _ rfl
    · exact Or.inl hbulk
  · intro hname s hreach op hop path htarget
    have hone := Writer.oneTarget_of_reachable hlaws hfirst hreach
    rcases hone.ops op hop path htarget with ⟨hbulk, rfl⟩
    rcases hname with hstreaming | hconfined
    · exact absurd hbulk hstreaming
    · exact hconfined

/-- Both receivers stay in the output directory exactly for the manifests that
are refused and for the file names that cannot be opened or spell a place in
the directory. -/
theorem receivers_stay_inside_iff (outputDir : RawPath)
    (manifest : FileManifest) :
    StaysInside directLoopKind .acceptBi outputDir manifest ∧
        StaysInside relayLoopKind .recvManifest outputDir manifest ↔
      manifest.transferMode ≠ .bulk ∨
        Unopenable outputDir manifest.filename.toList ∨
        SpelledInside outputDir manifest.filename.toList := by
  rw [staysInside_iff directLoopKind_laws (Or.inl rfl),
    staysInside_iff relayLoopKind_laws (Or.inr rfl), and_self]

/-- A manifest for the file `../x`. -/
def climbingManifest : FileManifest where
  sessionId := List.replicate 20 0
  filename := "../x"
  mimeType := "application/octet-stream"
  totalSize := 0
  chunkSize := 524288
  chunkCount := 0
  transferMode := .bulk
  createdAt := 0
  sessionId_length := rfl
  totalSize_lt := by norm_num
  chunkSize_lt := by norm_num
  chunkCount_lt := by norm_num

theorem climbingManifest_escapes :
    ¬ StaysInside directLoopKind .acceptBi ['d'] climbingManifest ∧
      ¬ StaysInside relayLoopKind .recvManifest ['d'] climbingManifest := by
  have hname : ¬ (climbingManifest.transferMode ≠ .bulk ∨
      Unopenable ['d'] climbingManifest.filename.toList ∨
      SpelledInside ['d'] climbingManifest.filename.toList) := by
    decide
  constructor
  · rw [staysInside_iff directLoopKind_laws (Or.inl rfl)]
    exact hname
  · rw [staysInside_iff relayLoopKind_laws (Or.inr rfl)]
    exact hname

end P2pShare
