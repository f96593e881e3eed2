import P2pShare.TransitionMachine
import P2pShare.LoopKinds
import P2pShare.HostileTransport

/-!
# What a saved state is resumed for

The transfers of one computer, of both kinds and in any number, share the state
files of its configuration directory.  Whoever offers a manifest chooses its
session id, and that alone names the state file.

The machine keeps with every state file where it comes from: the offer its state
was made for, and for each chunk entered in it the offer of the transfer the
chunk came with.  A saved state belongs to an offer exactly when these do.
-/

namespace P2pShare

open ByteStream PathResolution TransitionMachine

/-! ## Where a state comes from -/

/-- A manifest and the directory the user received it into. -/
structure Offer where
  manifest : FileManifest
  outputDir : RawPath

def Offer.outputPath (offer : Offer) : RawPath :=
  outputPathFor offer.outputDir offer.manifest

/-- A chunk entered in a state, with its write. -/
structure Entry where
  index : ℕ
  offer : Offer
  op : FileOp

structure Provenance where
  first : Offer
  entries : List Entry

/-- The state files, and where the saved ones come from. -/
structure Store where
  files : StateFiles
  provenances : Bytes → Option Provenance

structure OpenTransfer (Loop : Type) where
  outputDir : RawPath
  receiver : Receiver Loop
  provenance : Option Provenance

/-- `tear`: the process dies between the truncation and the last byte of a
save. -/
inductive TransferEvent where
  | receiver (event : ReceiverEvent)
  | lookup (pathExists : RawPath → Bool)
  | frame (read : ℕ → Bytes → Option Bytes)
      (decode : Bytes → Option ControlMessage) (input : Bytes)
  | tear (error : Error)

namespace Store

def save (store : Store) (state : TransferState)
    (provenance : Option Provenance) : Store where
  files := state.save store.files
  provenances := Function.update store.provenances state.sessionId provenance

def delete (store : Store) (state : TransferState) : Store where
  files := state.delete store.files
  provenances := Function.update store.provenances state.sessionId none

def tear (store : Store) (state : TransferState) : Store where
  files := Function.update store.files state.sessionId .unreadable
  provenances := Function.update store.provenances state.sessionId none

end Store

namespace OpenTransfer

variable {Loop : Type} (kind : LoopKind Loop)

def begin (firstSetup : Setup) (outputDir : RawPath) : OpenTransfer Loop :=
  ⟨outputDir, .setup firstSetup, none⟩

/-- The provenance once the chunk the loop holds is entered. -/
def entered (t : OpenTransfer Loop) (op : FileOp) : Option Provenance :=
  match t.receiver with
  | .loop loop =>
      match kind.holding loop with
      | some (index, _) =>
          t.provenance.map fun provenance =>
            { provenance with
              entries := provenance.entries ++
                [⟨index, ⟨(kind.books loop).manifest, t.outputDir⟩, op⟩] }
      | none => t.provenance
  | _ => t.provenance

def emit (t : OpenTransfer Loop) (store : Store) (receiver : Receiver Loop) :
    ReceiverOutput → OpenTransfer Loop × Store
  | .save state => ({ t with receiver }, store.save state t.provenance)
  | .delete state => ({ t with receiver }, store.delete state)
  | .file op => ({ t with receiver, provenance := t.entered kind op }, store)
  | .none | .ctrl _ => ({ t with receiver }, store)

/-- A state that is found keeps its provenance, a new one begins here. -/
def provenanceFor (t : OpenTransfer Loop) (store : Store)
    (pathExists : RawPath → Bool) : Option Provenance :=
  match t.receiver with
  | .setup (.lookup manifest) =>
      match findResumable pathExists store.files manifest t.outputDir with
      | some _ => store.provenances manifest.sessionId
      | none => some ⟨⟨manifest, t.outputDir⟩, []⟩
  | _ => t.provenance

def step (t : OpenTransfer Loop) (store : Store) :
    TransferEvent → Option (OpenTransfer Loop × Store)
  | .receiver (.lookup _ _) => none
  | .receiver event =>
      (t.receiver.step kind.toReceiveLoop t.outputDir event).map
        fun (receiver, output) => t.emit kind store receiver output
  | .lookup pathExists =>
      (t.receiver.lookup t.outputDir pathExists store.files).map
        fun receiver =>
          (⟨t.outputDir, receiver, t.provenanceFor store pathExists⟩, store)
  | .frame read decode input =>
      match t.receiver with
      | .loop loop =>
          (kind.receive read decode input loop).map fun receiver =>
            ({ t with receiver }, store)
      | _ => none
  | .tear error =>
      match t.receiver.proceed kind.toReceiveLoop t.outputDir with
      | some (_, .save state) =>
          some ({ t with receiver := .failed error }, store.tear state)
      | _ => none

end OpenTransfer

structure History where
  store : Store
  transfers : ℕ → Option (OpenTransfer DirectLoop ⊕ OpenTransfer RelayLoop)

/-- Beginning a transfer under a number in use ends the one that had it, where
it stands. -/
inductive HistoryEvent where
  | beginDirect (id : ℕ) (outputDir : RawPath)
  | beginRelay (id : ℕ) (outputDir : RawPath)
  | transfer (id : ℕ) (event : TransferEvent)

namespace History

def next (h : History) : HistoryEvent → Option History
  | .beginDirect id outputDir =>
      let t := OpenTransfer.begin directSession.firstSetup outputDir
      some { h with transfers := Function.update h.transfers id (some (.inl t)) }
  | .beginRelay id outputDir =>
      let t := OpenTransfer.begin relaySession.firstSetup outputDir
      some { h with transfers := Function.update h.transfers id (some (.inr t)) }
  | .transfer id event =>
      match h.transfers id with
      | none => none
      | some (.inl t) =>
          (t.step directLoopKind h.store event).map fun (t, store) =>
            ⟨store, Function.update h.transfers id (some (.inl t))⟩
      | some (.inr t) =>
          (t.step relayLoopKind h.store event).map fun (t, store) =>
            ⟨store, Function.update h.transfers id (some (.inr t))⟩

def fresh : History where
  store := ⟨fun _ => .absent, fun _ => none⟩
  transfers := fun _ => none

def machine : Machine History HistoryEvent where
  start := fun h => h = fresh
  next := next

/-- The chunk was entered in the state of this session id with this write. -/
def EnteredBy (h : History) (sessionId : Bytes) (index : ℕ) (op : FileOp) :
    Prop :=
  ∃ provenance, h.store.provenances sessionId = some provenance ∧
    ∃ entry ∈ provenance.entries, entry.index = index ∧ entry.op = op

/-- The state belongs to the transfer on offer, and the chunks requested as
present were written into its output file, in their places. -/
structure ResumesInto (h : History) (offer : Offer) (state : TransferState)
    (request : List ℕ) : Prop where
  filename : state.manifest.filename = offer.manifest.filename
  totalSize : state.manifest.totalSize = offer.manifest.totalSize
  chunkSize : state.manifest.chunkSize = offer.manifest.chunkSize
  chunkCount : state.manifest.chunkCount = offer.manifest.chunkCount
  outputPath : state.outputPath = offer.outputPath
  below : ∀ index ∈ request, index < offer.manifest.chunkCount
  present : ∀ index ∈ request, ∃ plaintext,
    h.EnteredBy offer.manifest.sessionId index
      (.write offer.outputPath (offer.manifest.offset index) plaintext)

/-- Whatever state the lookup finds for the offer belongs to it. -/
def ResumesSameTransfer (h : History) (pathExists : RawPath → Bool)
    (offer : Offer) : Prop :=
  ∀ state request,
    Setup.afterLookup offer.manifest (findResumable pathExists h.store.files
        offer.manifest offer.outputDir) =
      .reply offer.manifest state (.resumeRequest request) →
    h.ResumesInto offer state request

end History

/-- The state was made for an offer of the same file to the same path, and every
chunk in it came with one that has the chunk in the same place. -/
structure Provenance.Fits (provenance : Provenance) (offer : Offer) : Prop where
  filename : provenance.first.manifest.filename = offer.manifest.filename
  totalSize : provenance.first.manifest.totalSize = offer.manifest.totalSize
  chunkSize : provenance.first.manifest.chunkSize = offer.manifest.chunkSize
  chunkCount : provenance.first.manifest.chunkCount = offer.manifest.chunkCount
  outputPath : provenance.first.outputPath = offer.outputPath
  below : ∀ entry ∈ provenance.entries, entry.index < offer.manifest.chunkCount
  present : ∀ entry ∈ provenance.entries, ∃ other ∈ provenance.entries,
    other.index = entry.index ∧ other.offer.outputPath = offer.outputPath ∧
      other.offer.manifest.offset entry.index =
        offer.manifest.offset entry.index

/-! ## What the loops do to their state -/

/-- The state of the next loop differs in its chunks alone, and what is saved
is the state. -/
structure LoopKind.StateFacts {Loop : Type} (kind : LoopKind Loop)
    (loop next : Loop) (output : ReceiverOutput) : Prop where
  keeps : (kind.books next).state =
    { (kind.books loop).state with
      chunksDone := (kind.books next).state.chunksDone }
  saves : ∀ state, output = .save state → state = (kind.books loop).state
  deletes : ∀ state, output ≠ .delete state

def LoopKind.KeepsState {Loop : Type} (kind : LoopKind Loop) : Prop :=
  ∀ loop next output, kind.proceed loop = some (.loop next, output) →
    kind.StateFacts loop next output

theorem directLoopKind_keepsState : directLoopKind.KeepsState := by
  intro loop next output hproceed
  change DirectLoop.proceed loop = _ at hproceed
  unfold DirectLoop.proceed at hproceed
  split at hproceed
  next => contradiction
  next =>
    cases hproceed
    exact ⟨rfl, by simp, by simp⟩
  next =>
    cases hproceed
    exact ⟨rfl, by simp, by simp⟩
  next index plaintext hpc =>
    cases hproceed
    refine ⟨?_, by simp, by simp⟩
    simp [directLoopKind, Books.record]
  next =>
    cases hproceed
    refine ⟨?_, by simp, by simp⟩
    simp [directLoopKind]
  next =>
    cases hproceed
    exact ⟨rfl, fun state hsave => (ReceiverOutput.save.inj hsave).symm,
      by simp⟩
  next =>
    cases hproceed
    exact ⟨rfl, by simp, by simp⟩
  next =>
    cases hproceed
    exact ⟨rfl, fun state hsave => (ReceiverOutput.save.inj hsave).symm,
      by simp⟩
  next =>
    cases hproceed
    exact ⟨rfl, by simp, by simp⟩
  next => cases hproceed

theorem relayLoopKind_keepsState : relayLoopKind.KeepsState := by
  intro loop next output hproceed
  change RelayLoop.proceed loop = _ at hproceed
  unfold RelayLoop.proceed at hproceed
  split at hproceed
  next => contradiction
  next =>
    cases hproceed
    exact ⟨rfl, by simp, by simp⟩
  next =>
    cases hproceed
    exact ⟨rfl, by simp, by simp⟩
  next =>
    cases hproceed
    refine ⟨?_, by simp, by simp⟩
    simp [relayLoopKind]
  next =>
    cases hproceed
    exact ⟨rfl, fun state hsave => (ReceiverOutput.save.inj hsave).symm,
      by simp⟩
  next =>
    cases hproceed
    exact ⟨rfl, fun state hsave => (ReceiverOutput.save.inj hsave).symm,
      by simp⟩
  next =>
    cases hproceed
    exact ⟨rfl, by simp, by simp⟩
  next => cases hproceed

/-! ## States and their provenance -/

/-- The provenance tells where the state comes from. -/
structure Provenance.Describes (provenance : Provenance)
    (state : TransferState) : Prop where
  manifest : state.manifest = provenance.first.manifest
  outputPath : state.outputPath = provenance.first.outputPath
  chunks : ∀ index, index ∈ state.chunksDone ↔
    ∃ entry ∈ provenance.entries, entry.index = index
  writes : ∀ entry ∈ provenance.entries, ∃ plaintext,
    entry.op = .write entry.offer.outputPath
      (entry.offer.manifest.offset entry.index) plaintext

def Described (provenance : Option Provenance) (state : TransferState) : Prop :=
  ∃ known, provenance = some known ∧ known.Describes state

def Store.Sound (store : Store) : Prop :=
  ∀ sessionId, match store.files sessionId with
    | .saved state => Described (store.provenances sessionId) state
    | .absent | .unreadable => store.provenances sessionId = none

theorem Provenance.describes_new (offer : Offer) :
    Provenance.Describes ⟨offer, []⟩ (.new offer.manifest offer.outputPath) where
  manifest := rfl
  outputPath := rfl
  chunks := by simp [TransferState.new]
  writes := by simp

theorem Provenance.Describes.enter {provenance : Provenance}
    {state next : TransferState} {index : ℕ} {offer : Offer} {plaintext : Bytes}
    {op : FileOp}
    (hdescribes : provenance.Describes state)
    (hkeeps : next = { state with chunksDone := insert index state.chunksDone })
    (hop : op = .write offer.outputPath (offer.manifest.offset index) plaintext) :
    Provenance.Describes
      { provenance with
        entries := provenance.entries ++ [⟨index, offer, op⟩] } next := by
  subst hkeeps
  constructor
  · exact hdescribes.manifest
  · exact hdescribes.outputPath
  · intro other
    rw [Finset.mem_insert, hdescribes.chunks other]
    simp only [List.mem_append, List.mem_singleton, or_and_right, exists_or,
      exists_eq_left]
    rw [or_comm, eq_comm]
  · intro entry hentry
    rcases List.mem_append.mp hentry with hold | hnew
    · exact hdescribes.writes entry hold
    · rw [List.mem_singleton.mp hnew]
      exact ⟨plaintext, hop⟩

namespace Store

variable {store : Store}

theorem sound_update {files : StateFiles}
    {provenances : Bytes → Option Provenance} {sessionId : Bytes}
    {file : StateFile} {provenance : Option Provenance}
    (hsound : Store.Sound ⟨files, provenances⟩)
    (hnew : match file with
      | .saved state => Described provenance state
      | .absent | .unreadable => provenance = none) :
    Store.Sound ⟨Function.update files sessionId file,
      Function.update provenances sessionId provenance⟩ := by
  intro other
  by_cases hother : other = sessionId
  · subst hother
    simpa only [Function.update_self] using hnew
  · simpa only [Function.update_of_ne hother] using hsound other

theorem sound_save (hsound : store.Sound) {state : TransferState}
    {provenance : Option Provenance} (hdescribed : Described provenance state) :
    (store.save state provenance).Sound := by
  apply sound_update hsound
  exact hdescribed

theorem sound_delete (hsound : store.Sound) (state : TransferState) :
    (store.delete state).Sound := by
  apply sound_update hsound
  rfl

theorem sound_tear (hsound : store.Sound) (state : TransferState) :
    (store.tear state).Sound := by
  apply sound_update hsound
  rfl

/-- A state that is found is described. -/
theorem described_of_findResumable (hsound : store.Sound)
    {pathExists : RawPath → Bool} {manifest : FileManifest}
    {outputDir : RawPath} {state : TransferState}
    (hfound : findResumable pathExists store.files manifest outputDir =
      some state) :
    pathExists (outputPathFor outputDir manifest) = true ∧
      Described (store.provenances manifest.sessionId) state := by
  unfold findResumable TransferState.load at hfound
  have hfile := hsound manifest.sessionId
  split at hfound
  next hexists =>
    refine ⟨hexists, ?_⟩
    cases hsaved : store.files manifest.sessionId with
    | absent =>
        rw [hsaved] at hfound
        contradiction
    | unreadable =>
        rw [hsaved] at hfound
        contradiction
    | saved saved =>
        rw [hsaved] at hfound hfile
        cases hfound
        exact hfile
  next => contradiction

theorem findResumable_of_provenance (hsound : store.Sound)
    {pathExists : RawPath → Bool} {manifest : FileManifest}
    {outputDir : RawPath} {provenance : Provenance}
    (hexists : pathExists (outputPathFor outputDir manifest) = true)
    (hknown : store.provenances manifest.sessionId = some provenance) :
    ∃ state, findResumable pathExists store.files manifest outputDir =
        some state ∧ provenance.Describes state := by
  have hfile := hsound manifest.sessionId
  cases hsaved : store.files manifest.sessionId with
  | absent =>
      rw [hsaved] at hfile
      simp [hknown] at hfile
  | unreadable =>
      rw [hsaved] at hfile
      simp [hknown] at hfile
  | saved state =>
      rw [hsaved] at hfile
      rcases hfile with ⟨known, hprovenance, hdescribes⟩
      rw [hknown] at hprovenance
      cases hprovenance
      refine ⟨state, ?_, hdescribes⟩
      simp [findResumable, TransferState.load, hexists, hsaved]

end Store

/-! ## One transfer -/

namespace OpenTransfer

variable {Loop : Type} {kind : LoopKind Loop} {store : Store}
  {t u : OpenTransfer Loop}

/-- Every state the setup has is described. -/
def SetupDescribed (outputDir : RawPath) (provenance : Option Provenance) :
    Setup → Prop
  | .acceptBi | .recvManifest | .reject | .lookup _ | .failed _ => True
  | .createDir manifest | .create manifest | .setLen manifest =>
      provenance = some ⟨⟨manifest, outputDir⟩, []⟩
  | .reply _ state _ | .openFile _ state | .ready _ state =>
      Described provenance state

variable (kind) in
structure LoopDescribed (t : OpenTransfer Loop) (loop : Loop) : Prop where
  regular : kind.Regular loop
  outputPath : (kind.books loop).outputPath =
    outputPathFor t.outputDir (kind.books loop).manifest
  described : Described t.provenance (kind.books loop).state

variable (kind) in
def Sound (t : OpenTransfer Loop) : Prop :=
  match t.receiver with
  | .setup setup => SetupDescribed t.outputDir t.provenance setup
  | .loop loop => t.LoopDescribed kind loop
  | .returned _ | .failed _ => True

theorem sound_of_setup {setup : Setup} (hreceiver : t.receiver = .ofSetup setup)
    (hsetup : SetupDescribed t.outputDir t.provenance setup) : t.Sound kind := by
  unfold Sound
  rw [hreceiver]
  cases setup <;> exact hsetup

/-- What the transfer and the store are after a step. -/
def After (kind : LoopKind Loop) (result : OpenTransfer Loop × Store) : Prop :=
  result.1.Sound kind ∧ result.2.Sound

theorem after_proceed_setup (hlaws : kind.Laws) (hstore : store.Sound)
    {setup : Setup} {receiver : Receiver Loop} {output : ReceiverOutput}
    (hstate : t.receiver = .setup setup) (hsound : t.Sound kind)
    (hproceed : t.receiver.proceed kind.toReceiveLoop t.outputDir =
      some (receiver, output)) :
    After kind (t.emit kind store receiver output) := by
  have hentered : ∀ op, t.entered kind op = t.provenance := by
    intro op
    simp [entered, hstate]
  unfold Sound at hsound
  rw [hstate] at hproceed hsound
  cases setup with
  | acceptBi =>
      cases hproceed
      exact ⟨trivial, hstore⟩
  | recvManifest => contradiction
  | reject =>
      cases hproceed
      exact ⟨trivial, hstore⟩
  | lookup manifest => contradiction
  | createDir manifest =>
      cases hproceed
      exact ⟨(hentered _).trans hsound, hstore⟩
  | create manifest =>
      cases hproceed
      exact ⟨(hentered _).trans hsound, hstore⟩
  | setLen manifest =>
      cases hproceed
      refine ⟨⟨_, (hentered _).trans hsound, ?_⟩, hstore⟩
      exact Provenance.describes_new ⟨manifest, t.outputDir⟩
  | reply manifest state message =>
      cases hproceed
      exact ⟨hsound, hstore⟩
  | openFile manifest state =>
      cases hproceed
      refine ⟨?_, hstore⟩
      change Described (t.entered kind _) state
      rw [hentered]
      exact hsound
  | ready manifest state =>
      cases hproceed
      refine ⟨⟨hlaws.start_regular _, ?_, ?_⟩, hstore⟩
      · rw [hlaws.start_books]
        rfl
      · rw [hlaws.start_books]
        exact hsound
  | failed error => contradiction

theorem after_proceed_loop (hlaws : kind.Laws) (hkeeps : kind.KeepsState)
    (hstore : store.Sound) {loop : Loop} {receiver : Receiver Loop}
    {output : ReceiverOutput} (hstate : t.receiver = .loop loop)
    (hsound : t.LoopDescribed kind loop)
    (hproceed : kind.proceed loop = some (receiver, output)) :
    After kind (t.emit kind store receiver output) := by
  rcases hlaws.proceed_cases hsound.regular hproceed with
    ⟨next, rfl, _, hfacts⟩ | ⟨_, rfl, rfl⟩
  · have hstateFacts := hkeeps loop next output hproceed
    have hpath : (kind.books next).outputPath =
        outputPathFor t.outputDir (kind.books next).manifest := by
      rw [hfacts.outputPath, hfacts.manifest]
      exact hsound.outputPath
    rcases hfacts.moves with ⟨index, plaintext, hwrites⟩ | hwaits
    · rcases hsound.described with ⟨known, hknown, hdescribes⟩
      have hop : (kind.books loop).writeOp index plaintext =
          .write (Offer.outputPath ⟨(kind.books loop).manifest, t.outputDir⟩)
            ((kind.books loop).manifest.offset index) plaintext := by
        unfold Books.writeOp
        rw [hsound.outputPath]
        rfl
      have hinsert : (kind.books next).state =
          { (kind.books loop).state with
            chunksDone := insert index (kind.books loop).state.chunksDone } := by
        rw [hstateFacts.keeps, hwrites.done]
      have hentered : t.entered kind ((kind.books loop).writeOp index plaintext) =
          some { known with
            entries := known.entries ++
              [⟨index, ⟨(kind.books loop).manifest, t.outputDir⟩,
                (kind.books loop).writeOp index plaintext⟩] } := by
        simp only [entered, hstate, hwrites.holding, hknown, Option.map_some]
      rw [hwrites.output]
      exact ⟨⟨hfacts.regular, hpath, _, hentered,
        hdescribes.enter hinsert hop⟩, hstore⟩
    · have hsame : (kind.books next).state = (kind.books loop).state := by
        rw [hstateFacts.keeps, hwaits.done]
      have hnext : Described t.provenance (kind.books next).state := by
        rw [hsame]
        exact hsound.described
      cases output with
      | file op => exact absurd rfl (hwaits.output op)
      | delete state => exact absurd rfl (hstateFacts.deletes state)
      | save state =>
          refine ⟨⟨hfacts.regular, hpath, hnext⟩, ?_⟩
          apply Store.sound_save hstore
          rw [hstateFacts.saves state rfl]
          exact hsound.described
      | none => exact ⟨⟨hfacts.regular, hpath, hnext⟩, hstore⟩
      | ctrl message => exact ⟨⟨hfacts.regular, hpath, hnext⟩, hstore⟩
  · exact ⟨trivial, Store.sound_delete hstore _⟩

theorem after_proceed (hlaws : kind.Laws) (hkeeps : kind.KeepsState)
    (hstore : store.Sound) (hsound : t.Sound kind) {receiver : Receiver Loop}
    {output : ReceiverOutput}
    (hproceed : t.receiver.proceed kind.toReceiveLoop t.outputDir =
      some (receiver, output)) :
    After kind (t.emit kind store receiver output) := by
  cases hstate : t.receiver with
  | setup setup => exact after_proceed_setup hlaws hstore hstate hsound hproceed
  | loop loop =>
      unfold Sound at hsound
      rw [hstate] at hproceed hsound
      exact after_proceed_loop hlaws hkeeps hstore hstate hsound hproceed
  | returned books =>
      rw [hstate] at hproceed
      contradiction
  | failed error =>
      rw [hstate] at hproceed
      contradiction

/-- The store does not depend on where the receiver goes. -/
theorem emit_failed {receiver : Receiver Loop} {output : ReceiverOutput}
    (error : Error) (hafter : After kind (t.emit kind store receiver output)) :
    After kind (t.emit kind store (.failed error) output) := by
  cases output <;> exact ⟨trivial, hafter.2⟩

theorem after_received (hstore : store.Sound)
    {result : Except Error ControlMessage} {receiver : Receiver Loop}
    (hreceived : t.receiver.received result = some receiver) :
    After kind (t.emit kind store receiver .none) := by
  refine ⟨?_, hstore⟩
  unfold Receiver.received at hreceived
  split at hreceived
  next =>
    cases hreceived
    apply sound_of_setup rfl
    cases result with
    | error error => trivial
    | ok message =>
        cases message with
        | manifest manifest =>
            simp only [Setup.afterManifest]
            split
            · trivial
            · trivial
        | _ => trivial
  next => contradiction

theorem after_lookup (hstore : store.Sound) {pathExists : RawPath → Bool}
    {receiver : Receiver Loop}
    (hlookup : t.receiver.lookup t.outputDir pathExists store.files =
      some receiver) :
    Sound kind ⟨t.outputDir, receiver, t.provenanceFor store pathExists⟩ := by
  unfold Receiver.lookup at hlookup
  split at hlookup
  next manifest hstate =>
    cases hlookup
    apply sound_of_setup rfl
    simp only [provenanceFor, hstate]
    cases hfound : findResumable pathExists store.files manifest t.outputDir with
    | none => rfl
    | some state => exact (Store.described_of_findResumable hstore hfound).2
  next => contradiction

theorem after_step (hlaws : kind.Laws) (hkeeps : kind.KeepsState)
    (hstore : store.Sound) (hsound : t.Sound kind) {event : TransferEvent}
    {result : OpenTransfer Loop × Store}
    (hstep : t.step kind store event = some result) : After kind result := by
  cases event with
  | receiver event =>
      cases event with
      | lookup pathExists files => contradiction
      | proceed =>
          rcases Option.map_eq_some_iff.mp hstep with
            ⟨⟨receiver, output⟩, hproceed, rfl⟩
          exact after_proceed hlaws hkeeps hstore hsound hproceed
      | fail error effect =>
          rcases Option.map_eq_some_iff.mp hstep with
            ⟨⟨receiver, output⟩, hfail, rfl⟩
          simp only [Receiver.step, Receiver.fail] at hfail
          split at hfail
          · contradiction
          · contradiction
          · split at hfail
            next proceeded output' hproceed =>
              cases hfail
              exact emit_failed error
                (after_proceed hlaws hkeeps hstore hsound hproceed)
            next =>
              cases hfail
              exact ⟨trivial, hstore⟩
      | received message =>
          rcases Option.map_eq_some_iff.mp hstep with
            ⟨⟨receiver, output⟩, hmap, rfl⟩
          rcases Option.map_eq_some_iff.mp hmap with ⟨next, hreceived, hnext⟩
          cases hnext
          exact after_received hstore hreceived
  | lookup pathExists =>
      rcases Option.map_eq_some_iff.mp hstep with ⟨receiver, hlookup, rfl⟩
      exact ⟨after_lookup hstore hlookup, hstore⟩
  | frame read decode input =>
      simp only [step] at hstep
      split at hstep
      next loop hstate =>
        rcases Option.map_eq_some_iff.mp hstep with ⟨receiver, hreceive, rfl⟩
        unfold Sound at hsound
        rw [hstate] at hsound
        refine ⟨?_, hstore⟩
        rcases hlaws.receive_cases hsound.regular hreceive with
          ⟨error, rfl⟩ | ⟨next, rfl, _, hfacts⟩
        · trivial
        · refine ⟨hfacts.regular, ?_, ?_⟩
          · rw [hfacts.outputPath, hfacts.manifest]
            exact hsound.outputPath
          · rw [hfacts.state]
            exact hsound.described
      next => contradiction
  | tear error =>
      simp only [step] at hstep
      split at hstep
      next =>
        cases hstep
        exact ⟨trivial, Store.sound_tear hstore _⟩
      next => contradiction

end OpenTransfer

/-! ## All transfers -/

namespace History

variable {h k : History}

structure Sound (h : History) : Prop where
  store : h.store.Sound
  direct : ∀ id t, h.transfers id = some (.inl t) → t.Sound directLoopKind
  relay : ∀ id t, h.transfers id = some (.inr t) → t.Sound relayLoopKind

theorem sound_fresh : fresh.Sound where
  store := by
    intro sessionId
    rfl
  direct := by
    intro id t htransfer
    contradiction
  relay := by
    intro id t htransfer
    contradiction

/-- A store and a transfer that are sound take the place of the old ones. -/
theorem Sound.update (hsound : h.Sound) {store : Store} (id : ℕ)
    {transfer : OpenTransfer DirectLoop ⊕ OpenTransfer RelayLoop}
    (hstore : store.Sound)
    (hdirect : ∀ t, transfer = .inl t → t.Sound directLoopKind)
    (hrelay : ∀ t, transfer = .inr t → t.Sound relayLoopKind) :
    Sound ⟨store, Function.update h.transfers id (some transfer)⟩ where
  store := hstore
  direct := by
    intro other t htransfer
    by_cases hother : other = id
    · subst hother
      simp only [Function.update_self, Option.some.injEq] at htransfer
      exact hdirect t htransfer
    · simp only [Function.update_of_ne hother] at htransfer
      exact hsound.direct other t htransfer
  relay := by
    intro other t htransfer
    by_cases hother : other = id
    · subst hother
      simp only [Function.update_self, Option.some.injEq] at htransfer
      exact hrelay t htransfer
    · simp only [Function.update_of_ne hother] at htransfer
      exact hsound.relay other t htransfer

theorem sound_next {event : HistoryEvent} (hsound : h.Sound)
    (hnext : h.next event = some k) : k.Sound := by
  cases event with
  | beginDirect id outputDir =>
      cases hnext
      apply hsound.update id hsound.store
      · intro t ht
        cases ht
        trivial
      · simp
  | beginRelay id outputDir =>
      cases hnext
      apply hsound.update id hsound.store
      · simp
      · intro t ht
        cases ht
        trivial
  | transfer id event =>
      simp only [next] at hnext
      split at hnext
      next => contradiction
      next t htransfer =>
        rcases Option.map_eq_some_iff.mp hnext with ⟨⟨u, store⟩, hstep, rfl⟩
        have hafter := OpenTransfer.after_step directLoopKind_laws
          directLoopKind_keepsState hsound.store (hsound.direct id t htransfer)
          hstep
        apply hsound.update id hafter.2
        · intro other hother
          cases hother
          exact hafter.1
        · simp
      next t htransfer =>
        rcases Option.map_eq_some_iff.mp hnext with ⟨⟨u, store⟩, hstep, rfl⟩
        have hafter := OpenTransfer.after_step relayLoopKind_laws
          relayLoopKind_keepsState hsound.store (hsound.relay id t htransfer)
          hstep
        apply hsound.update id hafter.2
        · simp
        · intro other hother
          cases hother
          exact hafter.1

theorem sound_of_reachable (hreach : machine.Reachable h) : h.Sound := by
  apply hreach.invariant
  · intro s₀ hstart
    cases hstart
    exact sound_fresh
  · exact fun _ _ _ hsound hnext => sound_next hsound hnext

theorem afterLookup_eq_reply {manifest : FileManifest}
    {found : Option TransferState} {state : TransferState} {request : List ℕ}
    (hreply : Setup.afterLookup manifest found =
      .reply manifest state (.resumeRequest request)) :
    found = some state ∧ request = state.haveChunks := by
  cases found with
  | none => contradiction
  | some existing =>
      cases hreply
      exact ⟨rfl, rfl⟩

/-- A state resumes into an offer exactly when its provenance fits. -/
theorem resumesInto_iff {offer : Offer} {state : TransferState}
    {provenance : Provenance}
    (hknown : h.store.provenances offer.manifest.sessionId = some provenance)
    (hdescribes : provenance.Describes state) :
    h.ResumesInto offer state state.haveChunks ↔ provenance.Fits offer := by
  constructor
  · intro hresumes
    have hhave : ∀ entry ∈ provenance.entries,
        entry.index ∈ state.haveChunks := by
      intro entry hentry
      rw [TransferState.mem_haveChunks, hdescribes.chunks]
      exact ⟨entry, hentry, rfl⟩
    constructor
    · rw [← hdescribes.manifest]
      exact hresumes.filename
    · rw [← hdescribes.manifest]
      exact hresumes.totalSize
    · rw [← hdescribes.manifest]
      exact hresumes.chunkSize
    · rw [← hdescribes.manifest]
      exact hresumes.chunkCount
    · rw [← hdescribes.outputPath]
      exact hresumes.outputPath
    · exact fun entry hentry => hresumes.below _ (hhave entry hentry)
    · intro entry hentry
      rcases hresumes.present _ (hhave entry hentry) with
        ⟨plaintext, known, hknown', other, hother, hindex, hop⟩
      rw [hknown] at hknown'
      cases hknown'
      rcases hdescribes.writes other hother with ⟨bytes, hwrite⟩
      rw [hop] at hwrite
      injection hwrite with hpath hoffset
      refine ⟨other, hother, hindex, hpath.symm, ?_⟩
      rw [← hindex, ← hoffset, hindex]
  · intro hfits
    have hentry : ∀ index ∈ state.haveChunks,
        ∃ entry ∈ provenance.entries, entry.index = index := by
      intro index hindex
      exact (hdescribes.chunks index).mp (TransferState.mem_haveChunks.mp hindex)
    constructor
    · rw [hdescribes.manifest]
      exact hfits.filename
    · rw [hdescribes.manifest]
      exact hfits.totalSize
    · rw [hdescribes.manifest]
      exact hfits.chunkSize
    · rw [hdescribes.manifest]
      exact hfits.chunkCount
    · rw [hdescribes.outputPath]
      exact hfits.outputPath
    · intro index hindex
      rcases hentry index hindex with ⟨entry, hmem, rfl⟩
      exact hfits.below entry hmem
    · intro index hindex
      rcases hentry index hindex with ⟨entry, hmem, rfl⟩
      rcases hfits.present entry hmem with
        ⟨other, hother, hsame, hpath, hoffset⟩
      rcases hdescribes.writes other hother with ⟨plaintext, hwrite⟩
      refine ⟨plaintext, provenance, hknown, other, hother, hsame, ?_⟩
      rw [hwrite, hpath, hsame, hoffset]

theorem resumesSameTransfer_iff (hsound : h.Sound)
    (pathExists : RawPath → Bool) (offer : Offer) :
    h.ResumesSameTransfer pathExists offer ↔
      (pathExists offer.outputPath = true → ∀ provenance,
        h.store.provenances offer.manifest.sessionId = some provenance →
          provenance.Fits offer) := by
  constructor
  · intro hresumes hexists provenance hknown
    rcases Store.findResumable_of_provenance hsound.store hexists hknown with
      ⟨state, hfound, hdescribes⟩
    rw [← resumesInto_iff hknown hdescribes]
    apply hresumes
    rw [hfound]
    rfl
  · intro hfits state request hreply
    rcases afterLookup_eq_reply hreply with ⟨hfound, rfl⟩
    rcases Store.described_of_findResumable hsound.store hfound with
      ⟨hexists, provenance, hknown, hdescribes⟩
    rw [resumesInto_iff hknown hdescribes]
    exact hfits hexists provenance hknown

end History

/-- A state is resumed into the transfer it belongs to exactly when the transfer
that made it, and those that added chunks to it, were offered the same file. -/
theorem resumed_into_same_transfer_iff {h : History}
    (hreach : History.machine.Reachable h) (pathExists : RawPath → Bool)
    (offer : Offer) :
    h.ResumesSameTransfer pathExists offer ↔
      (pathExists offer.outputPath = true → ∀ provenance,
        h.store.provenances offer.manifest.sessionId = some provenance →
          provenance.Fits offer) :=
  History.resumesSameTransfer_iff (History.sound_of_reachable hreach)
    pathExists offer

/-! ## Another file under the same session id -/

/-- The file `b`, with the session id, the length and the chunks of the file
`a`. -/
def otherOffer : Offer where
  manifest := buildManifest { sampleSource with filename := "b" }
  outputDir := ['d']

/-- The transfer of `a` ends between its last save and the message
`Complete`. -/
def interrupted : Option History :=
  History.machine.runFrom History.fresh
    ([.beginDirect 0 ['d'], .transfer 0 (.receiver .proceed),
        .transfer 0 (.receiver
          (.received (.ok (.manifest (buildManifest sampleSource))))),
        .transfer 0 (.lookup fun _ => false)] ++
      List.replicate 6 (.transfer 0 (.receiver .proceed)) ++
      [.transfer 0 (.frame tagRead rmpSerde.decode
        (chunkFrame lookupNoise 0 [1, 2, 3]).bytes)] ++
      List.replicate 5 (.transfer 0 (.receiver .proceed)) ++
      [.transfer 0 (.receiver (.fail .json false))])

theorem interrupted_found :
    interrupted.map (fun h => (findResumable (fun _ => true) h.store.files
        otherOffer.manifest otherOffer.outputDir).map fun state =>
      (state.manifest.filename, state.outputPath, state.haveChunks)) =
      some (some ("a", ['d', '/', 'a'], [0])) := by
  decide +kernel

theorem resumed_into_same_transfer_sample :
    ∃ h, interrupted = some h ∧
      (h.ResumesSameTransfer (fun _ => true) otherOffer ↔
        (true = true → ∀ provenance,
          h.store.provenances otherOffer.manifest.sessionId = some provenance →
            provenance.Fits otherOffer)) := by
  rcases Option.map_eq_some_iff.mp interrupted_found with ⟨h, hrun, _⟩
  exact ⟨h, hrun, resumed_into_same_transfer_iff
    (Machine.Reachable.of_runFrom rfl hrun) (fun _ => true) otherOffer⟩

/-- A state saved for `a` answers the offer of `b`, and its chunk is requested
as present in a file that does not hold it. -/
theorem resumed_into_other_transfer :
    ∃ h, History.machine.Reachable h ∧
      (∃ state, findResumable (fun _ => true) h.store.files
          otherOffer.manifest otherOffer.outputDir = some state ∧
        state.manifest.filename ≠ otherOffer.manifest.filename ∧
        state.outputPath ≠ otherOffer.outputPath ∧
        state.haveChunks = [0]) ∧
      ¬ h.ResumesSameTransfer (fun _ => true) otherOffer := by
  rcases Option.map_eq_some_iff.mp interrupted_found with ⟨h, hrun, hfound⟩
  rcases Option.map_eq_some_iff.mp hfound with ⟨state, hstate, hfields⟩
  simp only [Prod.mk.injEq] at hfields
  rcases hfields with ⟨hname, hpath, hchunks⟩
  refine ⟨h, Machine.Reachable.of_runFrom rfl hrun,
    ⟨state, hstate, ?_, ?_, hchunks⟩, fun hresumes => ?_⟩
  · rw [hname]
    decide
  · rw [hpath]
    decide
  · have hother := (hresumes state state.haveChunks (by rw [hstate]; rfl)).filename
    rw [hname] at hother
    exact absurd hother (by decide)

end P2pShare
