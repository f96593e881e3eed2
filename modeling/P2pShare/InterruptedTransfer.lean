import P2pShare.PathConfinement
import P2pShare.ResumeHistory
import P2pShare.ControlCodec

/-!
# What a cut costs

One run of a receiver, which may end after any step and inside a save.  A save
truncates the state file before it writes it, so a run that ends there leaves a
file that cannot be read.

The chunks that were written and would be transferred again are bounded by the
save interval as long as the state file is whole; without it all of them are.
-/

namespace P2pShare

open ByteStream PathResolution TransitionMachine

/-- What became of the state file: it was saved whole if at all, the run ended
inside a save, or it was deleted after `Complete`. -/
inductive StateFate where
  | whole
  | torn
  | deleted
  deriving DecidableEq

/-- `handed` lists the chunks whose writes were begun, in this run or in the
one it resumes; `written` those whose writes have ended. -/
structure CutRun (Loop : Type) where
  receiver : Receiver Loop
  files : StateFiles
  outputExists : Bool
  handed : Finset ℕ
  written : Finset ℕ
  fate : StateFate

/-- `lookup`: what exists, and the chunks that earlier runs have written. -/
inductive CutEvent where
  | receiver (event : ReceiverEvent)
  | lookup (pathExists : RawPath → Bool) (earlier : Finset ℕ)
  | frame (read : ℕ → Bytes → Option Bytes)
      (decode : Bytes → Option ControlMessage) (input : Bytes)
  | land (index : ℕ)
  | tear (error : Error)

/-- The chunks a state claims to have; without a state none. -/
def claimed : Option TransferState → Finset ℕ
  | some state => state.chunksDone
  | none => ∅

namespace CutRun

variable {Loop : Type} (kind : LoopKind Loop) (outputDir : RawPath)
  (manifest : FileManifest)

def holding (s : CutRun Loop) : Finset ℕ :=
  match s.receiver with
  | .loop loop => (kind.holding loop).elim ∅ fun (index, _) => {index}
  | _ => ∅

def emit (s : CutRun Loop) (receiver : Receiver Loop) :
    ReceiverOutput → CutRun Loop
  | .save state => { s with receiver, files := state.save s.files }
  | .delete state =>
      { s with receiver, files := state.delete s.files, fate := .deleted }
  | .file (.create _) => { s with receiver, outputExists := true }
  | .file (.write _ _ _) =>
      { s with receiver, handed := s.handed ∪ s.holding kind }
  | _ => { s with receiver }

def next (s : CutRun Loop) : CutEvent → Option (CutRun Loop)
  | .receiver (.lookup _ _) => none
  | .receiver event =>
      if Writer.admits manifest event then
        (s.receiver.step kind.toReceiveLoop outputDir event).map
          fun (receiver, output) => s.emit kind receiver output
      else none
  | .lookup pathExists earlier =>
      (s.receiver.lookup outputDir pathExists s.files).map fun receiver =>
        let chunks :=
          claimed (findResumable pathExists s.files manifest outputDir)
        { s with
          receiver
          outputExists := pathExists (outputPathFor outputDir manifest)
          handed := chunks
          written := chunks ∩ earlier }
  | .frame read decode input =>
      match s.receiver with
      | .loop loop =>
          (kind.receive read decode input loop).map fun receiver =>
            { s with receiver }
      | _ => none
  | .land index =>
      if index ∈ s.handed then some { s with written := insert index s.written }
      else none
  | .tear error =>
      match s.receiver.proceed kind.toReceiveLoop outputDir with
      | some (_, .save state) =>
          some
            { s with
              receiver := .failed error
              files := Function.update s.files state.sessionId .unreadable
              fate := .torn }
      | _ => none

/-- A state file has the name of its state. -/
def Keyed (files : StateFiles) : Prop :=
  ∀ sessionId state, files sessionId = .saved state →
    state.sessionId = sessionId

structure Starts (firstSetup : Setup) (s : CutRun Loop) : Prop where
  receiver : s.receiver = .setup firstSetup
  keyed : Keyed s.files
  handed : s.handed = ∅
  written : s.written = ∅
  fate : s.fate = .whole

def machine (firstSetup : Setup) : Machine (CutRun Loop) CutEvent where
  start := Starts firstSetup
  next := next kind outputDir manifest

/-- What a later lookup finds for the same manifest and directory. -/
def found (s : CutRun Loop) : Option TransferState :=
  findResumable
    (fun path => s.outputExists && path == outputPathFor outputDir manifest)
    s.files manifest outputDir

/-- The chunks written before the cut that a sender of the manifest sends
again. -/
def sentAgain (s : CutRun Loop) : Finset ℕ :=
  (s.written \ claimed (s.found outputDir manifest)).filter
    (· < manifest.chunkCount)

def writtenOf (s : CutRun Loop) : Finset ℕ :=
  s.written.filter (· < manifest.chunkCount)

/-- At most so many chunks as a save may be late are sent again. -/
def LosesLittle (s : CutRun Loop) : Prop :=
  (s.sentAgain outputDir manifest).card ≤ stateSaveInterval

end CutRun

/-! ## How far the chunks may run ahead of a save -/

/-- `Spaced loop base`: the loop is no further than it may be since it had
`base` chunks saved. -/
structure SaveRule {Loop : Type} (kind : LoopKind Loop) where
  Spaced : Loop → ℕ → Prop
  start : ∀ books, Spaced (kind.start books) books.state.chunksDone.card
  bound : ∀ {loop base}, Spaced loop base →
    (kind.books loop).state.chunksDone.card ≤ base + stateSaveInterval
  proceed : ∀ {loop next output base}, Spaced loop base →
    kind.proceed loop = some (.loop next, output) →
      (∀ state, output ≠ .save state) → Spaced next base
  save : ∀ {loop next state base}, Spaced loop base →
    kind.proceed loop = some (.loop next, .save state) →
      Spaced next (kind.books loop).state.chunksDone.card
  receive : ∀ {read decode input loop next base}, Spaced loop base →
    kind.receive read decode input loop = some (.loop next) → Spaced next base

theorem card_record_le (books : Books) (index size : ℕ) :
    (books.record index size).state.chunksDone.card ≤
      books.state.chunksDone.card + 1 :=
  Finset.card_insert_le index books.state.chunksDone

theorem le_card_record (books : Books) (index size : ℕ) :
    books.state.chunksDone.card ≤
      (books.record index size).state.chunksDone.card :=
  Finset.card_le_card (Finset.subset_insert index books.state.chunksDone)

namespace DirectLoop

/-- `sinceSave` counts the chunks entered since the last save; at the report the
latest is not counted yet. -/
def Spaced (loop : DirectLoop) (base : ℕ) : Prop :=
  match loop.pc with
  | .ack =>
      loop.books.state.chunksDone.card ≤ base + loop.sinceSave + 1 ∧
        loop.sinceSave < stateSaveInterval
  | .save =>
      loop.books.state.chunksDone.card ≤ base + stateSaveInterval
  | _ =>
      loop.books.state.chunksDone.card ≤ base + loop.sinceSave ∧
        loop.sinceSave < stateSaveInterval

variable {loop : DirectLoop} {base : ℕ}

theorem spaced_toHead
    (hcard : loop.books.state.chunksDone.card ≤ base + loop.sinceSave)
    (hsince : loop.sinceSave < stateSaveInterval) :
    loop.toHead.Spaced base := by
  unfold Spaced
  rcases toHead_cases loop with ⟨hpc, _⟩ | hpc
  · rw [hpc]
    exact ⟨hcard, hsince⟩
  · rw [hpc]
    exact ⟨hcard, hsince⟩

theorem spaced_countSave
    (hcard : loop.books.state.chunksDone.card ≤ base + loop.sinceSave + 1)
    (hsince : loop.sinceSave < stateSaveInterval) :
    loop.countSave.Spaced base := by
  unfold countSave
  by_cases hsave : loop.sinceSave + 1 ≥ stateSaveInterval
  · rw [if_pos hsave]
    unfold Spaced
    dsimp only
    omega
  · rw [if_neg hsave]
    apply spaced_toHead
    · exact hcard
    · exact Nat.lt_of_not_le hsave

theorem spaced_recordChunk
    (hcard : loop.books.state.chunksDone.card ≤ base + loop.sinceSave)
    (hsince : loop.sinceSave < stateSaveInterval) (index : ℕ)
    (plaintext : Bytes) : (loop.recordChunk index plaintext).Spaced base := by
  have hrecord := card_record_le loop.books index plaintext.length
  have hnext : (loop.books.record index plaintext.length).state.chunksDone.card ≤
      base + loop.sinceSave + 1 := by
    omega
  unfold recordChunk
  dsimp only
  split
  · exact ⟨hnext, hsince⟩
  · exact spaced_countSave hnext hsince

/-- Outside the report and the save. -/
theorem spaced_elsewhere (hspaced : loop.Spaced base)
    (hack : loop.pc ≠ .ack) (hsave : loop.pc ≠ .save) :
    loop.books.state.chunksDone.card ≤ base + loop.sinceSave ∧
      loop.sinceSave < stateSaveInterval := by
  unfold Spaced at hspaced
  split at hspaced
  next hpc => exact absurd hpc hack
  next hpc => exact absurd hpc hsave
  next => exact hspaced

theorem spaced_bound (hspaced : loop.Spaced base) :
    loop.books.state.chunksDone.card ≤ base + stateSaveInterval := by
  unfold Spaced at hspaced
  split at hspaced
  next => omega
  next => exact hspaced
  next => omega

theorem spaced_proceed {next : DirectLoop} {output : ReceiverOutput}
    (hspaced : loop.Spaced base)
    (hproceed : loop.proceed = some (.loop next, output))
    (hsave : ∀ state, output ≠ .save state) : next.Spaced base := by
  have helsewhere := spaced_elsewhere hspaced
  unfold proceed at hproceed
  split at hproceed
  next => contradiction
  next index hpc =>
    have hloop := helsewhere (by simp [hpc]) (by simp [hpc])
    cases hproceed
    exact spaced_toHead hloop.1 hloop.2
  next index plaintext hpc =>
    have hloop := helsewhere (by simp [hpc]) (by simp [hpc])
    cases hproceed
    exact hloop
  next index plaintext hpc =>
    have hloop := helsewhere (by simp [hpc]) (by simp [hpc])
    cases hproceed
    exact spaced_recordChunk hloop.1 hloop.2 index plaintext
  next hpc =>
    unfold Spaced at hspaced
    rw [hpc] at hspaced
    cases hproceed
    exact spaced_countSave hspaced.1 hspaced.2
  next =>
    cases hproceed
    exact absurd rfl (hsave _)
  next hpc =>
    have hloop := helsewhere (by simp [hpc]) (by simp [hpc])
    cases hproceed
    exact hloop
  next =>
    cases hproceed
    exact absurd rfl (hsave _)
  next hpc =>
    have hloop := helsewhere (by simp [hpc]) (by simp [hpc])
    cases hproceed
    exact hloop
  next => cases hproceed

theorem spaced_save {next : DirectLoop} {state : TransferState}
    (hspaced : loop.Spaced base)
    (hproceed : loop.proceed = some (.loop next, .save state)) :
    next.Spaced loop.books.state.chunksDone.card := by
  unfold proceed at hproceed
  split at hproceed
  next => contradiction
  next => cases hproceed
  next => cases hproceed
  next => cases hproceed
  next => cases hproceed
  next =>
    cases hproceed
    apply spaced_toHead
    · exact le_rfl
    · exact Nat.zero_lt_succ 15
  next => cases hproceed
  next hpc =>
    have hloop := spaced_elsewhere hspaced (by simp [hpc]) (by simp [hpc])
    cases hproceed
    exact ⟨Nat.le_add_right _ _, hloop.2⟩
  next => cases hproceed
  next => cases hproceed

theorem spaced_receive {read : ℕ → Bytes → Option Bytes}
    {decode : Bytes → Option ControlMessage} {input : Bytes}
    {next : DirectLoop} (hspaced : loop.Spaced base)
    (hreceive : directLoopKind.receive read decode input loop =
      some (.loop next)) : next.Spaced base := by
  obtain ⟨⟨receiver, rest⟩, hframe, hresult⟩ :=
    Option.map_eq_some_iff.mp hreceive
  unfold receive at hframe
  split at hframe
  next hpc =>
    have hloop := spaced_elsewhere hspaced (by simp [hpc]) (by simp [hpc])
    obtain ⟨⟨⟨outcome, bytesDone⟩, rest'⟩, _, hafter⟩ :=
      Option.map_eq_some_iff.mp hframe
    cases hafter
    cases outcome with
    | failed error => cases hresult
    | skipped =>
        cases hresult
        exact spaced_toHead hloop.1 hloop.2
    | nack index =>
        cases hresult
        exact hloop
    | accepted index plaintext =>
        cases hresult
        exact hloop
  next => contradiction

end DirectLoop

def directSaveRule : SaveRule directLoopKind where
  Spaced := DirectLoop.Spaced
  start := fun _ => DirectLoop.spaced_toHead le_rfl (Nat.zero_lt_succ 15)
  bound := DirectLoop.spaced_bound
  proceed := DirectLoop.spaced_proceed
  save := DirectLoop.spaced_save
  receive := DirectLoop.spaced_receive

namespace RelayLoop

/-- Saves come at the multiples of the interval, so outside the report and the
save the loop is in the block of its last one. -/
def Spaced (loop : RelayLoop) (base : ℕ) : Prop :=
  match loop.pc with
  | .ack =>
      loop.books.state.chunksDone.card ≤ base + stateSaveInterval ∧
        (loop.books.state.chunksDone.card % stateSaveInterval ≠ 0 →
          loop.books.state.chunksDone.card / stateSaveInterval =
            base / stateSaveInterval)
  | .save =>
      loop.books.state.chunksDone.card ≤ base + stateSaveInterval
  | _ =>
      loop.books.state.chunksDone.card / stateSaveInterval =
        base / stateSaveInterval

variable {loop : RelayLoop} {base : ℕ}

theorem spaced_toHead
    (hblock : loop.books.state.chunksDone.card / stateSaveInterval =
      base / stateSaveInterval) : loop.toHead.Spaced base := by
  unfold Spaced
  rcases toHead_cases loop with ⟨hpc, _⟩ | hpc
  · rw [hpc]
    exact hblock
  · rw [hpc]
    exact hblock

theorem spaced_elsewhere (hspaced : loop.Spaced base)
    (hack : loop.pc ≠ .ack) (hsave : loop.pc ≠ .save) :
    loop.books.state.chunksDone.card / stateSaveInterval =
      base / stateSaveInterval := by
  unfold Spaced at hspaced
  split at hspaced
  next hpc => exact absurd hpc hack
  next hpc => exact absurd hpc hsave
  next => exact hspaced

theorem spaced_bound (hspaced : loop.Spaced base) :
    loop.books.state.chunksDone.card ≤ base + stateSaveInterval := by
  unfold Spaced at hspaced
  split at hspaced
  next => exact hspaced.1
  next => exact hspaced
  next =>
    unfold stateSaveInterval at hspaced ⊢
    omega

theorem spaced_recordChunk
    (hblock : loop.books.state.chunksDone.card / stateSaveInterval =
      base / stateSaveInterval) (index : ℕ) (plaintext : Bytes) :
    (loop.recordChunk index plaintext).Spaced base := by
  have hupper := card_record_le loop.books index plaintext.length
  have hlower := le_card_record loop.books index plaintext.length
  unfold stateSaveInterval at hblock
  constructor
  · change (loop.books.record index plaintext.length).state.chunksDone.card ≤ _
    unfold stateSaveInterval
    omega
  · change (loop.books.record index plaintext.length).state.chunksDone.card % _ ≠
      0 → (loop.books.record index plaintext.length).state.chunksDone.card / _ = _
    unfold stateSaveInterval
    omega

theorem spaced_afterAck
    (hcard : loop.books.state.chunksDone.card ≤ base + stateSaveInterval)
    (hblock : loop.books.state.chunksDone.card % stateSaveInterval ≠ 0 →
      loop.books.state.chunksDone.card / stateSaveInterval =
        base / stateSaveInterval) : loop.afterAck.Spaced base := by
  unfold afterAck
  split
  next => exact hcard
  next hrest => exact spaced_toHead (hblock hrest)

theorem spaced_proceed {next : RelayLoop} {output : ReceiverOutput}
    (hspaced : loop.Spaced base)
    (hproceed : loop.proceed = some (.loop next, output))
    (hsave : ∀ state, output ≠ .save state) : next.Spaced base := by
  have helsewhere := spaced_elsewhere hspaced
  unfold proceed at hproceed
  split at hproceed
  next => contradiction
  next index hpc =>
    have hblock := helsewhere (by simp [hpc]) (by simp [hpc])
    cases hproceed
    exact spaced_toHead hblock
  next index plaintext hpc =>
    have hblock := helsewhere (by simp [hpc]) (by simp [hpc])
    cases hproceed
    exact spaced_recordChunk hblock index plaintext
  next hpc =>
    unfold Spaced at hspaced
    rw [hpc] at hspaced
    cases hproceed
    exact spaced_afterAck hspaced.1 hspaced.2
  next =>
    cases hproceed
    exact absurd rfl (hsave _)
  next =>
    cases hproceed
    exact absurd rfl (hsave _)
  next hpc =>
    have hblock := helsewhere (by simp [hpc]) (by simp [hpc])
    cases hproceed
    exact hblock
  next => cases hproceed

theorem spaced_save {next : RelayLoop} {state : TransferState}
    (hproceed : loop.proceed = some (.loop next, .save state)) :
    next.Spaced loop.books.state.chunksDone.card := by
  unfold proceed at hproceed
  split at hproceed
  next => contradiction
  next => cases hproceed
  next => cases hproceed
  next => cases hproceed
  next =>
    cases hproceed
    exact spaced_toHead rfl
  next =>
    cases hproceed
    rfl
  next => cases hproceed
  next => cases hproceed

theorem spaced_receive {read : ℕ → Bytes → Option Bytes}
    {decode : Bytes → Option ControlMessage} {input : Bytes}
    {next : RelayLoop} (hspaced : loop.Spaced base)
    (hreceive : relayLoopKind.receive read decode input loop =
      some (.loop next)) : next.Spaced base := by
  obtain ⟨⟨receiver, rest⟩, hmessage, hresult⟩ :=
    Option.map_eq_some_iff.mp hreceive
  unfold receive at hmessage
  split at hmessage
  next hpc =>
    have hblock := spaced_elsewhere hspaced (by simp [hpc]) (by simp [hpc])
    obtain ⟨⟨result, rest'⟩, _, hafter⟩ := Option.map_eq_some_iff.mp hmessage
    cases hafter
    cases houtcome : outcomeOf read loop.books.manifest result with
    | failed error =>
        rw [houtcome] at hresult
        cases hresult
    | skipped =>
        rw [houtcome] at hresult
        cases hresult
        exact spaced_toHead hblock
    | nack index =>
        rw [houtcome] at hresult
        cases hresult
        exact hblock
    | accepted index plaintext =>
        rw [houtcome] at hresult
        cases hresult
        exact hblock
  next => contradiction

end RelayLoop

def relaySaveRule : SaveRule relayLoopKind where
  Spaced := RelayLoop.Spaced
  start := fun _ => RelayLoop.spaced_toHead rfl
  bound := RelayLoop.spaced_bound
  proceed := RelayLoop.spaced_proceed
  save := fun _ => RelayLoop.spaced_save
  receive := RelayLoop.spaced_receive

/-! ## A run -/

namespace CutRun

variable {Loop : Type} {kind : LoopKind Loop} {outputDir : RawPath}
  {manifest : FileManifest} {s t : CutRun Loop}

/-- A state of this session id that has the chunks handed to the disk. -/
structure StateBooked (manifest : FileManifest) (outputExists : Bool)
    (handed : Finset ℕ) (state : TransferState) : Prop where
  sessionId : state.sessionId = manifest.sessionId
  outputExists : outputExists = true
  handed : handed = state.chunksDone

variable (outputDir manifest) in
/-- A state the loop begins with is one that would be found again. -/
def SetupSpaced (s : CutRun Loop) : Setup → Prop
  | .acceptBi | .recvManifest | .reject | .failed _ => s.handed = ∅
  | .lookup offered | .createDir offered | .create offered =>
      offered = manifest ∧ s.handed = ∅
  | .setLen offered =>
      offered = manifest ∧ s.handed = ∅ ∧ s.outputExists = true
  | .reply offered state _ | .openFile offered state | .ready offered state =>
      offered = manifest ∧
        StateBooked manifest s.outputExists s.handed state ∧
        state.chunksDone ⊆ claimed (s.found outputDir manifest)

variable (outputDir manifest) in
/-- `base` is a part of the chunks that would be found again. -/
structure LoopSpaced (rule : SaveRule kind) (s : CutRun Loop) (loop : Loop) :
    Prop where
  regular : kind.Regular loop
  booked : StateBooked manifest s.outputExists s.handed (kind.books loop).state
  spaced : ∃ base, base ⊆ (kind.books loop).state.chunksDone ∧
    base ⊆ claimed (s.found outputDir manifest) ∧ rule.Spaced loop base.card

variable (outputDir manifest) in
/-- No more chunks are missing from the state than a save may be late. -/
def Spare (s : CutRun Loop) : Prop :=
  (s.handed \ claimed (s.found outputDir manifest)).card ≤ stateSaveInterval

variable (outputDir manifest) in
def ReceiverSpaced (rule : SaveRule kind) (s : CutRun Loop) : Prop :=
  match s.receiver with
  | .setup setup => s.SetupSpaced outputDir manifest setup
  | .loop loop => s.LoopSpaced outputDir manifest rule loop
  | .returned _ => False
  | .failed _ => s.Spare outputDir manifest

variable (outputDir manifest) in
structure Sound (rule : SaveRule kind) (s : CutRun Loop) : Prop where
  keyed : Keyed s.files
  written : s.written ⊆ s.handed
  whole : s.fate = .whole → s.ReceiverSpaced outputDir manifest rule
  lost : s.fate ≠ .whole → s.found outputDir manifest = none ∧
    ((∃ books, s.receiver = .returned books) ∨ ∃ error, s.receiver = .failed error)

/-! ### State files -/

theorem keyed_save {files : StateFiles} (hkeyed : Keyed files)
    (state : TransferState) : Keyed (state.save files) := by
  intro sessionId saved hsaved
  unfold TransferState.save at hsaved
  by_cases hsame : sessionId = state.sessionId
  · subst hsame
    rw [Function.update_self] at hsaved
    cases hsaved
    rfl
  · rw [Function.update_of_ne hsame] at hsaved
    exact hkeyed sessionId saved hsaved

theorem keyed_update {files : StateFiles} (hkeyed : Keyed files)
    {file : StateFile} (hfile : ∀ state, file ≠ .saved state)
    (sessionId : Bytes) : Keyed (Function.update files sessionId file) := by
  intro other saved hsaved
  by_cases hsame : other = sessionId
  · subst hsame
    rw [Function.update_self] at hsaved
    exact absurd hsaved (hfile saved)
  · rw [Function.update_of_ne hsame] at hsaved
    exact hkeyed other saved hsaved

theorem found_sessionId {pathExists : RawPath → Bool} {files : StateFiles}
    (hkeyed : Keyed files) {state : TransferState}
    (hfound : findResumable pathExists files manifest outputDir = some state) :
    pathExists (outputPathFor outputDir manifest) = true ∧
      files manifest.sessionId = .saved state ∧
      state.sessionId = manifest.sessionId := by
  unfold findResumable TransferState.load at hfound
  split at hfound
  next hexists =>
    cases hfile : files manifest.sessionId with
    | absent =>
        rw [hfile] at hfound
        contradiction
    | unreadable =>
        rw [hfile] at hfound
        contradiction
    | saved saved =>
        rw [hfile] at hfound
        cases hfound
        exact ⟨hexists, rfl, hkeyed _ _ hfile⟩
  next => contradiction

theorem found_of_saved {state : TransferState} (hexists : s.outputExists = true)
    (hsaved : s.files manifest.sessionId = .saved state) :
    s.found outputDir manifest = some state := by
  simp [found, findResumable, TransferState.load, hexists, hsaved]

theorem found_of_not_saved
    (hfile : s.files manifest.sessionId = .absent ∨
      s.files manifest.sessionId = .unreadable) :
    s.found outputDir manifest = none := by
  rcases hfile with hfile | hfile
  · simp [found, findResumable, TransferState.load, hfile]
  · simp [found, findResumable, TransferState.load, hfile]

/-! ### Every state is spare -/

theorem spare_of_handed (hhanded : s.handed = ∅) :
    s.Spare outputDir manifest := by
  unfold Spare
  rw [hhanded, Finset.empty_sdiff, Finset.card_empty]
  exact Nat.zero_le _

theorem spare_of_base {base chunksDone : Finset ℕ}
    (hhanded : s.handed = chunksDone) (hbase : base ⊆ chunksDone)
    (hfound : base ⊆ claimed (s.found outputDir manifest))
    (hcard : chunksDone.card ≤ base.card + stateSaveInterval) :
    s.Spare outputDir manifest := by
  have hsubset : chunksDone \ claimed (s.found outputDir manifest) ⊆
      chunksDone \ base :=
    Finset.sdiff_subset_sdiff le_rfl hfound
  unfold Spare
  rw [hhanded]
  calc
    (chunksDone \ claimed (s.found outputDir manifest)).card ≤
        (chunksDone \ base).card := Finset.card_le_card hsubset
    _ = chunksDone.card - base.card := Finset.card_sdiff_of_subset hbase
    _ ≤ stateSaveInterval := by omega

theorem spare_of_setup {setup : Setup}
    (hsetup : s.SetupSpaced outputDir manifest setup) :
    s.Spare outputDir manifest := by
  have hstate : ∀ state, StateBooked manifest s.outputExists s.handed state →
      state.chunksDone ⊆ claimed (s.found outputDir manifest) →
      s.Spare outputDir manifest := by
    intro state hbooked hfound
    exact spare_of_base hbooked.handed le_rfl hfound (Nat.le_add_right _ _)
  cases setup with
  | acceptBi => exact spare_of_handed hsetup
  | recvManifest => exact spare_of_handed hsetup
  | reject => exact spare_of_handed hsetup
  | failed error => exact spare_of_handed hsetup
  | lookup offered => exact spare_of_handed hsetup.2
  | createDir offered => exact spare_of_handed hsetup.2
  | create offered => exact spare_of_handed hsetup.2
  | setLen offered => exact spare_of_handed hsetup.2.1
  | reply offered state message => exact hstate state hsetup.2.1 hsetup.2.2
  | openFile offered state => exact hstate state hsetup.2.1 hsetup.2.2
  | ready offered state => exact hstate state hsetup.2.1 hsetup.2.2

variable {rule : SaveRule kind}

theorem spare_of_spaced (hspaced : s.ReceiverSpaced outputDir manifest rule) :
    s.Spare outputDir manifest := by
  unfold ReceiverSpaced at hspaced
  split at hspaced
  next => exact spare_of_setup hspaced
  next =>
    obtain ⟨base, hbase, hfound, hrule⟩ := hspaced.spaced
    exact spare_of_base hspaced.booked.handed hbase hfound (rule.bound hrule)
  next => exact hspaced.elim
  next => exact hspaced

theorem sound_failed (hsound : s.Sound outputDir manifest rule)
    (error : Error) :
    Sound outputDir manifest rule { s with receiver := .failed error } where
  keyed := hsound.keyed
  written := hsound.written
  whole := by
    intro hwhole
    have hspare := spare_of_spaced (hsound.whole hwhole)
    exact hspare
  lost := fun hlost => ⟨(hsound.lost hlost).1, Or.inr ⟨error, rfl⟩⟩

/-- The bound holds exactly in the states whose file is whole, and in those that
have little to lose. -/
theorem losesLittle_iff_of_sound (hsound : s.Sound outputDir manifest rule) :
    s.LosesLittle outputDir manifest ↔
      s.fate = .whole ∨ (s.writtenOf manifest).card ≤ stateSaveInterval := by
  by_cases hwhole : s.fate = .whole
  · refine iff_of_true ?_ (Or.inl hwhole)
    have hspare := spare_of_spaced (hsound.whole hwhole)
    have hsubset : s.sentAgain outputDir manifest ⊆
        s.handed \ claimed (s.found outputDir manifest) :=
      (Finset.filter_subset _ _).trans
        (Finset.sdiff_subset_sdiff hsound.written le_rfl)
    exact (Finset.card_le_card hsubset).trans hspare
  · have hnone := (hsound.lost hwhole).1
    have hall : s.sentAgain outputDir manifest = s.writtenOf manifest := by
      unfold sentAgain writtenOf
      rw [hnone]
      simp [claimed]
    unfold LosesLittle
    rw [hall]
    simp [hwhole]

/-! ### Steps -/

theorem not_lost_of_proceed (hsound : s.Sound outputDir manifest rule)
    {receiver : Receiver Loop} {output : ReceiverOutput}
    (hproceed : s.receiver.proceed kind.toReceiveLoop outputDir =
      some (receiver, output)) : s.fate = .whole := by
  by_contra hlost
  rcases (hsound.lost hlost).2 with ⟨books, hstate⟩ | ⟨error, hstate⟩
  · rw [hstate] at hproceed
    contradiction
  · rw [hstate] at hproceed
    contradiction

theorem sound_of_whole (hkeyed : Keyed s.files) (hwritten : s.written ⊆ s.handed)
    (hwhole : s.fate = .whole)
    (hspaced : s.ReceiverSpaced outputDir manifest rule) :
    s.Sound outputDir manifest rule where
  keyed := hkeyed
  written := hwritten
  whole := fun _ => hspaced
  lost := fun hlost => absurd hwhole hlost

theorem sound_proceed_setup (hlaws : kind.Laws)
    (hsound : s.Sound outputDir manifest rule) (hwhole : s.fate = .whole)
    {setup : Setup} {receiver : Receiver Loop} {output : ReceiverOutput}
    (hstate : s.receiver = .setup setup)
    (hproceed : s.receiver.proceed kind.toReceiveLoop outputDir =
      some (receiver, output)) :
    (s.emit kind receiver output).Sound outputDir manifest rule := by
  have hspaced := hsound.whole hwhole
  unfold ReceiverSpaced at hspaced
  rw [hstate] at hproceed hspaced
  cases setup with
  | acceptBi =>
      cases hproceed
      exact sound_of_whole hsound.keyed hsound.written hwhole hspaced
  | recvManifest => contradiction
  | reject =>
      cases hproceed
      exact sound_of_whole hsound.keyed hsound.written hwhole
        (spare_of_handed hspaced)
  | lookup offered => contradiction
  | createDir offered =>
      cases hproceed
      exact sound_of_whole hsound.keyed hsound.written hwhole hspaced
  | create offered =>
      cases hproceed
      exact sound_of_whole hsound.keyed hsound.written hwhole
        ⟨hspaced.1, hspaced.2, rfl⟩
  | setLen offered =>
      obtain ⟨rfl, hhanded, hexists⟩ := hspaced
      cases hproceed
      refine sound_of_whole hsound.keyed hsound.written hwhole ?_
      exact ⟨rfl, ⟨rfl, hexists, hhanded⟩, Finset.empty_subset _⟩
  | reply offered state message =>
      cases hproceed
      exact sound_of_whole hsound.keyed hsound.written hwhole hspaced
  | openFile offered state =>
      cases hproceed
      exact sound_of_whole hsound.keyed hsound.written hwhole hspaced
  | ready offered state =>
      obtain ⟨rfl, hbooked, hfound⟩ := hspaced
      cases hproceed
      refine sound_of_whole hsound.keyed hsound.written hwhole ?_
      have hbooks := hlaws.start_books (.start outputDir offered state)
      constructor
      · exact hlaws.start_regular _
      · rw [hbooks]
        exact hbooked
      · refine ⟨state.chunksDone, ?_, hfound, rule.start _⟩
        rw [hbooks]
        exact le_rfl
  | failed error => contradiction

theorem sound_proceed_loop (hlaws : kind.Laws) (hkeeps : kind.KeepsState)
    (hsound : s.Sound outputDir manifest rule) (hwhole : s.fate = .whole)
    {loop : Loop} {receiver : Receiver Loop} {output : ReceiverOutput}
    (hstate : s.receiver = .loop loop)
    (hproceed : kind.proceed loop = some (receiver, output)) :
    (s.emit kind receiver output).Sound outputDir manifest rule := by
  have hspaced := hsound.whole hwhole
  unfold ReceiverSpaced at hspaced
  rw [hstate] at hspaced
  have hbooked := hspaced.booked
  obtain ⟨base, hbase, hfound, hrule⟩ := hspaced.spaced
  rcases hlaws.proceed_cases hspaced.regular hproceed with
    ⟨next, rfl, _, hfacts⟩ | ⟨_, rfl, rfl⟩
  · have hstateFacts := hkeeps loop next output hproceed
    have hsession : (kind.books next).state.sessionId = manifest.sessionId := by
      rw [hstateFacts.keeps]
      exact hbooked.sessionId
    rcases hfacts.moves with ⟨index, plaintext, hwrites⟩ | hwaits
    · have houtput := hwrites.output
      subst houtput
      have hholding : s.holding kind = {index} := by
        simp [holding, hstate, hwrites.holding]
      have hhanded : s.handed ∪ s.holding kind =
          (kind.books next).state.chunksDone := by
        rw [hholding, hbooked.handed, hwrites.done, Finset.union_comm]
        rfl
      have hnext : rule.Spaced next base.card :=
        rule.proceed hrule hproceed (by simp)
      refine sound_of_whole hsound.keyed ?_ hwhole ?_
      · exact hsound.written.trans Finset.subset_union_left
      · refine ⟨hfacts.regular, ⟨hsession, hbooked.outputExists, hhanded⟩,
          base, ?_, hfound, hnext⟩
        rw [hwrites.done]
        exact hbase.trans (Finset.subset_insert _ _)
    · have hdone : s.handed = (kind.books next).state.chunksDone := by
        rw [hwaits.done]
        exact hbooked.handed
      have hstay : (∀ state, output ≠ .save state) →
          Sound outputDir manifest rule { s with receiver := .loop next } := by
        intro hsave
        refine sound_of_whole hsound.keyed hsound.written hwhole ?_
        refine ⟨hfacts.regular, ⟨hsession, hbooked.outputExists, hdone⟩, base,
          ?_, hfound, rule.proceed hrule hproceed hsave⟩
        rw [hwaits.done]
        exact hbase
      cases output with
      | none => exact hstay (by simp)
      | ctrl message => exact hstay (by simp)
      | file op => exact absurd rfl (hwaits.output op)
      | delete state => exact absurd rfl (hstateFacts.deletes state)
      | save state =>
          have hsaved := hstateFacts.saves state rfl
          subst hsaved
          have hlater : (s.emit kind (.loop next)
              (.save (kind.books loop).state)).found outputDir manifest =
                some (kind.books loop).state := by
            refine found_of_saved hbooked.outputExists ?_
            change Function.update s.files (kind.books loop).state.sessionId _
              manifest.sessionId = _
            rw [hbooked.sessionId, Function.update_self]
          have hnext := rule.save hrule hproceed
          refine sound_of_whole (keyed_save hsound.keyed _) hsound.written hwhole ?_
          refine ⟨hfacts.regular, ⟨hsession, hbooked.outputExists, hdone⟩,
            (kind.books loop).state.chunksDone, ?_, ?_, hnext⟩
          · rw [hwaits.done]
          · rw [hlater]
            exact le_rfl
  · constructor
    · apply keyed_update hsound.keyed
      simp
    · exact hsound.written
    · intro hdeleted
      contradiction
    · intro _
      refine ⟨found_of_not_saved (Or.inl ?_), Or.inl ⟨_, rfl⟩⟩
      change Function.update s.files (kind.books loop).state.sessionId _
        manifest.sessionId = _
      rw [hbooked.sessionId, Function.update_self]

theorem sound_proceed (hlaws : kind.Laws) (hkeeps : kind.KeepsState)
    (hsound : s.Sound outputDir manifest rule) {receiver : Receiver Loop}
    {output : ReceiverOutput}
    (hproceed : s.receiver.proceed kind.toReceiveLoop outputDir =
      some (receiver, output)) :
    (s.emit kind receiver output).Sound outputDir manifest rule := by
  have hwhole := not_lost_of_proceed hsound hproceed
  cases hstate : s.receiver with
  | setup setup => exact sound_proceed_setup hlaws hsound hwhole hstate hproceed
  | loop loop =>
      rw [hstate] at hproceed
      exact sound_proceed_loop hlaws hkeeps hsound hwhole hstate hproceed
  | returned books =>
      rw [hstate] at hproceed
      contradiction
  | failed error =>
      rw [hstate] at hproceed
      contradiction

/-- An await that fails after its effect leaves what it would have left. -/
theorem emit_failed (receiver : Receiver Loop) (output : ReceiverOutput)
    (error : Error) :
    s.emit kind (.failed error) output =
      { s.emit kind receiver output with receiver := .failed error } := by
  cases output with
  | file op => cases op <;> rfl
  | _ => rfl

theorem sound_fail (hlaws : kind.Laws) (hkeeps : kind.KeepsState)
    (hsound : s.Sound outputDir manifest rule) {error : Error} {effect : Bool}
    {receiver : Receiver Loop} {output : ReceiverOutput}
    (hfail : s.receiver.fail kind.toReceiveLoop outputDir error effect =
      some (receiver, output)) :
    (s.emit kind receiver output).Sound outputDir manifest rule := by
  unfold Receiver.fail at hfail
  split at hfail
  next => contradiction
  next => contradiction
  next =>
    split at hfail
    next proceeded output' hproceed =>
      cases hfail
      rw [emit_failed proceeded]
      exact sound_failed (sound_proceed hlaws hkeeps hsound hproceed) error
    next =>
      cases hfail
      exact sound_failed hsound error

theorem sound_received (hsound : s.Sound outputDir manifest rule)
    {result : Except Error ControlMessage} {receiver : Receiver Loop}
    (hadmits : Writer.admits manifest (.received result) = true)
    (hreceived : s.receiver.received result = some receiver) :
    (s.emit kind receiver .none).Sound outputDir manifest rule := by
  unfold Receiver.received at hreceived
  split at hreceived
  next hstate =>
    cases hreceived
    by_cases hwhole : s.fate = .whole
    · have hspaced := hsound.whole hwhole
      unfold ReceiverSpaced at hspaced
      rw [hstate] at hspaced
      have hhanded : s.handed = ∅ := hspaced
      refine sound_of_whole hsound.keyed hsound.written hwhole ?_
      cases result with
      | error error => exact spare_of_handed hhanded
      | ok message =>
          cases message with
          | manifest offered =>
              have hoffered : offered = manifest := by
                simpa [Writer.admits] using hadmits
              unfold emit
              simp only [Setup.afterManifest]
              split
              · exact hhanded
              · exact ⟨hoffered, hhanded⟩
          | _ => exact spare_of_handed hhanded
    · rcases (hsound.lost hwhole).2 with ⟨books, hother⟩ | ⟨error, hother⟩
      · rw [hstate] at hother
        contradiction
      · rw [hstate] at hother
        contradiction
  next => contradiction

theorem sound_lookup (hsound : s.Sound outputDir manifest rule)
    {pathExists : RawPath → Bool} {earlier : Finset ℕ}
    (hnext : s.next kind outputDir manifest (.lookup pathExists earlier) =
      some t) : t.Sound outputDir manifest rule := by
  obtain ⟨receiver, hlookup, rfl⟩ := Option.map_eq_some_iff.mp hnext
  unfold Receiver.lookup at hlookup
  split at hlookup
  next offered hstate =>
    cases hlookup
    by_cases hwhole : s.fate = .whole
    · have hspaced := hsound.whole hwhole
      unfold ReceiverSpaced at hspaced
      rw [hstate] at hspaced
      obtain ⟨rfl, _⟩ := hspaced
      refine sound_of_whole hsound.keyed Finset.inter_subset_left hwhole ?_
      unfold ReceiverSpaced
      cases hfound : findResumable pathExists s.files offered outputDir with
      | none => exact ⟨rfl, rfl⟩
      | some state =>
          obtain ⟨hexists, hfile, hsession⟩ :=
            found_sessionId hsound.keyed hfound
          refine ⟨rfl, ⟨hsession, hexists, rfl⟩, ?_⟩
          refine (congrArg claimed (found_of_saved ?_ ?_)).ge
          · exact hexists
          · exact hfile
    · rcases (hsound.lost hwhole).2 with ⟨books, hother⟩ | ⟨error, hother⟩
      · rw [hstate] at hother
        contradiction
      · rw [hstate] at hother
        contradiction
  next => contradiction

theorem sound_frame (hlaws : kind.Laws)
    (hsound : s.Sound outputDir manifest rule) {loop : Loop}
    {receiver : Receiver Loop} {read : ℕ → Bytes → Option Bytes}
    {decode : Bytes → Option ControlMessage} {input : Bytes}
    (hstate : s.receiver = .loop loop)
    (hreceive : kind.receive read decode input loop = some receiver) :
    Sound outputDir manifest rule { s with receiver } := by
  by_cases hwhole : s.fate = .whole
  · have hspaced := hsound.whole hwhole
    unfold ReceiverSpaced at hspaced
    rw [hstate] at hspaced
    rcases hlaws.receive_cases hspaced.regular hreceive with
      ⟨error, rfl⟩ | ⟨next, rfl, _, hfacts⟩
    · exact sound_failed hsound error
    · obtain ⟨base, hbase, hfound, hrule⟩ := hspaced.spaced
      refine sound_of_whole hsound.keyed hsound.written hwhole ?_
      constructor
      · exact hfacts.regular
      · rw [hfacts.state]
        exact hspaced.booked
      · refine ⟨base, ?_, hfound, rule.receive hrule hreceive⟩
        rw [hfacts.state]
        exact hbase
  · rcases (hsound.lost hwhole).2 with ⟨books, hother⟩ | ⟨error, hother⟩
    · rw [hstate] at hother
      contradiction
    · rw [hstate] at hother
      contradiction

theorem receiverSpaced_land (written : Finset ℕ)
    (hspaced : s.ReceiverSpaced outputDir manifest rule) :
    ReceiverSpaced outputDir manifest rule { s with written } := by
  unfold ReceiverSpaced at hspaced ⊢
  dsimp only
  split at hspaced
  next => exact hspaced
  next => exact ⟨hspaced.regular, hspaced.booked, hspaced.spaced⟩
  next => exact hspaced.elim
  next => exact hspaced

/-- What is being saved is the state of the loop. -/
theorem sessionId_of_saving (hlaws : kind.Laws) (hkeeps : kind.KeepsState)
    (hsound : s.Sound outputDir manifest rule) {receiver : Receiver Loop}
    {state : TransferState}
    (hproceed : s.receiver.proceed kind.toReceiveLoop outputDir =
      some (receiver, .save state)) : state.sessionId = manifest.sessionId := by
  have hwhole := not_lost_of_proceed hsound hproceed
  have hspaced := hsound.whole hwhole
  unfold ReceiverSpaced at hspaced
  cases hstate : s.receiver with
  | setup setup =>
      rw [hstate] at hproceed
      cases setup <;> cases hproceed
  | loop loop =>
      rw [hstate] at hproceed hspaced
      rcases hlaws.proceed_cases hspaced.regular hproceed with
        ⟨next, rfl, _, hfacts⟩ | ⟨_, rfl, houtput⟩
      · rw [(hkeeps loop next _ hproceed).saves state rfl]
        exact hspaced.booked.sessionId
      · contradiction
  | returned books =>
      rw [hstate] at hproceed
      contradiction
  | failed error =>
      rw [hstate] at hproceed
      contradiction

theorem sound_next (hlaws : kind.Laws) (hkeeps : kind.KeepsState)
    {event : CutEvent} (hsound : s.Sound outputDir manifest rule)
    (hnext : s.next kind outputDir manifest event = some t) :
    t.Sound outputDir manifest rule := by
  cases event with
  | receiver event =>
      cases event with
      | lookup pathExists files => contradiction
      | proceed =>
          obtain ⟨⟨receiver, output⟩, hproceed, rfl⟩ :=
            Option.map_eq_some_iff.mp hnext
          exact sound_proceed hlaws hkeeps hsound hproceed
      | fail error effect =>
          obtain ⟨⟨receiver, output⟩, hfail, rfl⟩ :=
            Option.map_eq_some_iff.mp hnext
          exact sound_fail hlaws hkeeps hsound hfail
      | received result =>
          simp only [next] at hnext
          split at hnext
          next hadmits =>
            obtain ⟨⟨receiver, output⟩, hstep, rfl⟩ :=
              Option.map_eq_some_iff.mp hnext
            obtain ⟨receiver', hreceived, hresult⟩ :=
              Option.map_eq_some_iff.mp hstep
            cases hresult
            exact sound_received hsound hadmits hreceived
          next => contradiction
  | lookup pathExists earlier => exact sound_lookup hsound hnext
  | frame read decode input =>
      simp only [next] at hnext
      split at hnext
      next loop hstate =>
        obtain ⟨receiver, hreceive, rfl⟩ := Option.map_eq_some_iff.mp hnext
        exact sound_frame hlaws hsound hstate hreceive
      next => contradiction
  | land index =>
      simp only [next] at hnext
      split at hnext
      next hindex =>
        cases hnext
        constructor
        · exact hsound.keyed
        · exact Finset.insert_subset hindex hsound.written
        · exact fun hwhole => receiverSpaced_land _ (hsound.whole hwhole)
        · exact hsound.lost
      next => contradiction
  | tear error =>
      simp only [next] at hnext
      split at hnext
      next receiver state hproceed =>
        cases hnext
        have hsession := sessionId_of_saving hlaws hkeeps hsound hproceed
        constructor
        · apply keyed_update hsound.keyed
          simp
        · exact hsound.written
        · intro htorn
          contradiction
        · intro _
          refine ⟨found_of_not_saved (Or.inr ?_), Or.inr ⟨_, rfl⟩⟩
          change Function.update s.files state.sessionId _ manifest.sessionId = _
          rw [hsession, Function.update_self]
      next => contradiction

theorem sound_of_starts {firstSetup : Setup}
    (hfirst : firstSetup = .acceptBi ∨ firstSetup = .recvManifest)
    (hstart : Starts firstSetup s) : s.Sound outputDir manifest rule := by
  refine sound_of_whole hstart.keyed ?_ hstart.fate ?_
  · rw [hstart.written]
    exact Finset.empty_subset _
  · unfold ReceiverSpaced
    rw [hstart.receiver]
    rcases hfirst with rfl | rfl
    · exact hstart.handed
    · exact hstart.handed

theorem losesLittle_iff (hlaws : kind.Laws) (hkeeps : kind.KeepsState)
    (rule : SaveRule kind) {firstSetup : Setup}
    (hfirst : firstSetup = .acceptBi ∨ firstSetup = .recvManifest)
    (hreach : (machine kind outputDir manifest firstSetup).Reachable s) :
    s.LosesLittle outputDir manifest ↔
      s.fate = .whole ∨ (s.writtenOf manifest).card ≤ stateSaveInterval := by
  have hsound : s.Sound outputDir manifest rule := by
    apply hreach.invariant
    · exact fun s₀ hstart => sound_of_starts hfirst hstart
    · exact fun u event v hu hnext => sound_next hlaws hkeeps hu hnext
  exact losesLittle_iff_of_sound hsound

end CutRun

/-- After a cut at most sixteen written chunks are sent again exactly when the
run did not end inside a save or past the deletion of its state, or had written
no more than sixteen. -/
theorem cut_loses_little_iff (outputDir : RawPath) (manifest : FileManifest) :
    (∀ s : CutRun DirectLoop,
        (CutRun.machine directLoopKind outputDir manifest
          directSession.firstSetup).Reachable s →
        (s.LosesLittle outputDir manifest ↔
          s.fate = .whole ∨
            (s.writtenOf manifest).card ≤ stateSaveInterval)) ∧
      ∀ s : CutRun RelayLoop,
        (CutRun.machine relayLoopKind outputDir manifest
          relaySession.firstSetup).Reachable s →
        (s.LosesLittle outputDir manifest ↔
          s.fate = .whole ∨
            (s.writtenOf manifest).card ≤ stateSaveInterval) :=
  ⟨fun _ hreach => CutRun.losesLittle_iff directLoopKind_laws
      directLoopKind_keepsState directSaveRule (Or.inl rfl) hreach,
    fun _ hreach => CutRun.losesLittle_iff relayLoopKind_laws
      relayLoopKind_keepsState relaySaveRule (Or.inr rfl) hreach⟩

/-! ## A cut inside a save -/

/-- Seventeen chunks of one byte. -/
def seventeenChunks : FileManifest := numbersManifest 17 1 17

def CutRun.fresh : CutRun DirectLoop where
  receiver := .setup directSession.firstSetup
  files := fun _ => .absent
  outputExists := false
  handed := ∅
  written := ∅
  fate := .whole

theorem CutRun.starts_fresh : Starts directSession.firstSetup fresh where
  receiver := rfl
  keyed := by
    intro sessionId state hsaved
    contradiction
  handed := rfl
  written := rfl
  fate := rfl

/-- The chunk arrives and lands; the reports and the save after it are made. -/
def chunkEvents (index : ℕ) : List CutEvent :=
  let proceeds := 2 + (if index % 4 = 3 ∨ index = 16 then 1 else 0) +
    (if index = 15 then 1 else 0)
  .frame tagRead rmpSerde.decode (chunkFrame lookupNoise index [1]).bytes ::
    List.replicate proceeds (.receiver .proceed) ++ [.land index]

/-- All chunks are on disk when the final save is cut. -/
def cutInFinalSave : Option (CutRun DirectLoop) :=
  (CutRun.machine directLoopKind ['d'] seventeenChunks
      directSession.firstSetup).runFrom CutRun.fresh
    ([.receiver .proceed,
        .receiver (.received (.ok (.manifest seventeenChunks))),
        .lookup (fun _ => false) ∅] ++
      List.replicate 6 (.receiver .proceed) ++
      (List.range 17).flatMap chunkEvents ++
      [.receiver .proceed, .tear .json])

theorem cutInFinalSave_sentAgain :
    cutInFinalSave.map (fun s => (s.sentAgain ['d'] seventeenChunks).card) =
      some 17 := by
  decide +kernel

theorem cut_loses_little_sample :
    ∃ s, cutInFinalSave = some s ∧
      (s.LosesLittle ['d'] seventeenChunks ↔
        s.fate = .whole ∨
          (s.writtenOf seventeenChunks).card ≤ stateSaveInterval) := by
  obtain ⟨s, hrun, _⟩ := Option.map_eq_some_iff.mp cutInFinalSave_sentAgain
  exact ⟨s, hrun, (cut_loses_little_iff ['d'] seventeenChunks).1 s
    (Machine.Reachable.of_runFrom CutRun.starts_fresh hrun)⟩

/-- After a cut inside the last save all seventeen chunks are sent again. -/
theorem cut_in_save_loses_all :
    ∃ s : CutRun DirectLoop,
      (CutRun.machine directLoopKind ['d'] seventeenChunks
        directSession.firstSetup).Reachable s ∧
      ¬ s.LosesLittle ['d'] seventeenChunks := by
  obtain ⟨s, hrun, hcard⟩ :=
    Option.map_eq_some_iff.mp cutInFinalSave_sentAgain
  refine ⟨s, Machine.Reachable.of_runFrom CutRun.starts_fresh hrun, ?_⟩
  unfold CutRun.LosesLittle
  rw [hcard]
  decide

end P2pShare
