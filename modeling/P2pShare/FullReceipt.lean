import P2pShare.PathConfinement
import P2pShare.HostileTransport

/-!
# What a manifest makes the receivers write

A receiver on a fresh transfer, against a peer that chooses the manifest, the
frames and what they decrypt to.  The total size, the chunk size and the chunk
count of a manifest are three numbers of the peer; the length of the file, the
places of the chunks and the chunks waited for come from different pairs of
them.

When `Complete` is sent the file is exactly covered if and only if the chunks
accepted tile it.
-/

namespace P2pShare

open ByteStream PathResolution RandomAccessFile TransitionMachine

/-- `accepted` lists the chunks written, with their plaintexts; `completed` says
that `Complete` was sent. -/
structure FillRun (Loop : Type) where
  receiver : Receiver Loop
  disk : Disk
  accepted : List (ℕ × Bytes)
  completed : Bool

/-- `noState`: the lookup finds no saved state. -/
inductive FillEvent where
  | receiver (event : ReceiverEvent)
  | noState
  | frame (decode : Bytes → Option ControlMessage) (input : Bytes)
  | land

namespace FillRun

variable {Loop : Type} (kind : LoopKind Loop) (read : ℕ → Bytes → Option Bytes)
  (outputDir : RawPath) (manifest : FileManifest)

def held (s : FillRun Loop) : List (ℕ × Bytes) :=
  match s.receiver with
  | .loop loop => (kind.holding loop).toList
  | _ => []

def emit (s : FillRun Loop) (receiver : Receiver Loop) :
    ReceiverOutput → FillRun Loop
  | .ctrl message =>
      { s with
        receiver, completed := s.completed || decide (message = .complete) }
  | .file op =>
      let disk := s.disk.apply kind.background op
      match op with
      | .write _ _ _ =>
          { s with receiver, disk, accepted := s.accepted ++ s.held kind }
      | _ => { s with receiver, disk }
  | .none | .save _ | .delete _ => { s with receiver }

/-- The receiver awaits a write that has not landed. -/
def blocked (s : FillRun Loop) : Bool :=
  match s.receiver with
  | .loop loop => kind.joins loop && s.disk.inFlight.isSome
  | _ => false

def stepReceiver (s : FillRun Loop) (event : ReceiverEvent) :
    Option (FillRun Loop) :=
  (s.receiver.step kind.toReceiveLoop outputDir event).map
    fun (receiver, output) => s.emit kind receiver output

def next (s : FillRun Loop) : FillEvent → Option (FillRun Loop)
  | .receiver (.lookup _ _) => none
  | .receiver .proceed =>
      if s.blocked kind then none else s.stepReceiver kind outputDir .proceed
  | .receiver event =>
      if Writer.admits manifest event then s.stepReceiver kind outputDir event
      else none
  | .noState =>
      match s.receiver with
      | .setup (.lookup offered) =>
          some { s with receiver := .ofSetup (.afterLookup offered none) }
      | _ => none
  | .frame decode input =>
      match s.receiver with
      | .loop loop =>
          (kind.receive read decode input loop).map fun receiver =>
            { s with receiver }
      | _ => none
  | .land =>
      s.disk.inFlight.map fun (offset, bytes) =>
        { s with
          disk.file := writeAt s.disk.file offset bytes
          disk.inFlight := none }

structure Starts (firstSetup : Setup) (s : FillRun Loop) : Prop where
  receiver : s.receiver = .setup firstSetup
  inFlight : s.disk.inFlight = none
  accepted : s.accepted = []
  completed : s.completed = false

def machine (firstSetup : Setup) : Machine (FillRun Loop) FillEvent where
  start := Starts firstSetup
  next := next kind read outputDir manifest

/-- The file has the length of the manifest, and each of its bytes is one of an
authenticated chunk, in its place. -/
structure FullyReceived (s : FillRun Loop) : Prop where
  length : s.disk.file.length = manifest.totalSize
  bytes : ∀ position < manifest.totalSize, ∃ chunk ∈ s.accepted,
    Decrypts read chunk.1 chunk.2 ∧
      Covers (manifest.offset chunk.1, chunk.2) position ∧
      s.disk.file[position]? = chunk.2[position - manifest.offset chunk.1]?

end FillRun

/-- Chunks of these indices cover the file, and none begins past its end. -/
structure FileManifest.TiledBy (manifest : FileManifest) (indices : List ℕ) :
    Prop where
  inside : ∀ index ∈ indices, manifest.offset index ≤ manifest.totalSize
  covered : ∀ position < manifest.totalSize, ∃ index ∈ indices,
    manifest.offset index ≤ position ∧ position < manifest.offset (index + 1)

/-- The chunks the manifest counts cover the file, and the last of them does not
begin past its end. -/
structure FileManifest.Tiled (manifest : FileManifest) : Prop where
  inside : manifest.offset (manifest.chunkCount - 1) ≤ manifest.totalSize
  covered : manifest.totalSize ≤ manifest.offset manifest.chunkCount

/-! ## Chunks that tile a file -/

namespace FileManifest

variable {manifest : FileManifest}

theorem offset_le_offset {low high : ℕ} (hle : low ≤ high) :
    manifest.offset low ≤ manifest.offset high :=
  Nat.mul_le_mul_right manifest.chunkSize hle

/-- Where a chunk that begins in the file ends. -/
theorem offset_add_sizeOf_of_le {index : ℕ}
    (hoffset : manifest.offset index ≤ manifest.totalSize) :
    manifest.offset index + manifest.sizeOf index =
      min manifest.totalSize (manifest.offset (index + 1)) := by
  rw [sizeOf_of_offset_le hoffset, offset_succ]
  omega

/-- A chunk ends in the file unless it begins past the end. -/
theorem offset_add_sizeOf_le_iff {index : ℕ} (hindex : index < 2 ^ 32) :
    (0 < manifest.sizeOf index →
        manifest.offset index + manifest.sizeOf index ≤ manifest.totalSize) ↔
      manifest.offset index ≤ manifest.totalSize := by
  constructor
  · intro hends
    by_contra hpast
    have hlt : manifest.totalSize < manifest.offset index :=
      Nat.lt_of_not_le hpast
    have hsize := sizeOf_of_totalSize_lt hindex hlt
    have hpos : 0 < manifest.chunkSize := by
      rw [Nat.pos_iff_ne_zero]
      intro hzero
      have hoffset : manifest.offset index = 0 := by
        unfold offset
        rw [hzero, Nat.mul_zero]
      omega
    rw [hsize] at hends
    have hend := hends hpos
    omega
  · intro hoffset _
    rw [offset_add_sizeOf_of_le hoffset]
    exact min_le_left _ _

/-- A position of the file lies in a chunk exactly when it lies in its block. -/
theorem covers_iff {index position : ℕ} {plaintext : Bytes}
    (hlength : plaintext.length = manifest.sizeOf index)
    (hposition : position < manifest.totalSize) :
    Covers (manifest.offset index, plaintext) position ↔
      manifest.offset index ≤ position ∧
        position < manifest.offset (index + 1) := by
  unfold Covers
  rw [hlength]
  dsimp only
  constructor
  · rintro ⟨hlow, hhigh⟩
    have hend := offset_add_sizeOf_of_le (hlow.trans hposition.le)
    omega
  · rintro ⟨hlow, hhigh⟩
    have hend := offset_add_sizeOf_of_le (hlow.trans hposition.le)
    omega

/-- The blocks of all indices below the count. -/
theorem exists_block {position : ℕ}
    (hcovered : position < manifest.offset manifest.chunkCount) :
    ∃ index < manifest.chunkCount, manifest.offset index ≤ position ∧
      position < manifest.offset (index + 1) := by
  have hpos : 0 < manifest.chunkSize := by
    rw [Nat.pos_iff_ne_zero]
    intro hzero
    unfold offset at hcovered
    rw [hzero, Nat.mul_zero] at hcovered
    omega
  refine ⟨position / manifest.chunkSize, ?_, ?_, ?_⟩
  · exact (Nat.div_lt_iff_lt_mul hpos).mpr hcovered
  · exact Nat.div_mul_le_self position manifest.chunkSize
  · exact Nat.lt_mul_of_div_lt (Nat.lt_succ_self _) hpos

theorem tiledBy_iff_tiled {indices : List ℕ}
    (hindices : ∀ index, index ∈ indices ↔ index < manifest.chunkCount) :
    manifest.TiledBy indices ↔ manifest.Tiled := by
  constructor
  · intro htiled
    constructor
    · by_cases hzero : manifest.chunkCount = 0
      · rw [hzero]
        exact le_of_eq_of_le (Nat.zero_mul _) (Nat.zero_le _)
      · apply htiled.inside
        rw [hindices]
        omega
    · by_contra hshort
      obtain ⟨index, hindex, _, hhigh⟩ :=
        htiled.covered _ (Nat.lt_of_not_le hshort)
      rw [hindices] at hindex
      have hle : manifest.offset (index + 1) ≤
          manifest.offset manifest.chunkCount := offset_le_offset hindex
      omega
  · intro htiled
    constructor
    · intro index hindex
      rw [hindices] at hindex
      have hle : manifest.offset index ≤
          manifest.offset (manifest.chunkCount - 1) := offset_le_offset (by omega)
      exact hle.trans htiled.inside
    · intro position hposition
      obtain ⟨index, hindex, hblock⟩ :=
        exists_block (hposition.trans_le htiled.covered)
      exact ⟨index, (hindices index).mpr hindex, hblock⟩

end FileManifest

/-! ## A run -/

/-- Which indices a loop accepts, when the indices it waits for are below the
chunk count. -/
def LoopKind.Admits {Loop : Type} (kind : LoopKind Loop)
    (admitted : FileManifest → ℕ → Prop) : Prop :=
  ∀ read decode input loop next index plaintext,
    (∀ other ∈ (kind.books loop).pending,
      other < (kind.books loop).manifest.chunkCount) →
    kind.receive read decode input loop = some (.loop next) →
    kind.holding next = some (index, plaintext) →
      admitted (kind.books loop).manifest index

def directAdmitted (manifest : FileManifest) (index : ℕ) : Prop :=
  index < manifest.chunkCount

def relayAdmitted (_ : FileManifest) (index : ℕ) : Prop := index < 2 ^ 32

theorem directLoopKind_admits : directLoopKind.Admits directAdmitted := by
  intro read decode input loop next index plaintext hpending hreceive hholding
  obtain ⟨⟨receiver, rest⟩, hframe, hresult⟩ :=
    Option.map_eq_some_iff.mp hreceive
  unfold DirectLoop.receive at hframe
  split at hframe
  next hpc =>
    obtain ⟨⟨⟨outcome, bytesDone⟩, rest'⟩, hread, hafter⟩ :=
      Option.map_eq_some_iff.mp hframe
    cases hafter
    cases outcome with
    | failed error => cases hresult
    | skipped =>
        cases hresult
        simp only [directLoopKind, DirectLoop.toHead_holding] at hholding
        contradiction
    | nack other =>
        cases hresult
        simp [directLoopKind, DirectLoop.holding] at hholding
    | accepted other bytes =>
        cases hresult
        simp only [directLoopKind, DirectLoop.holding, Option.some.injEq,
          Prod.mk.injEq] at hholding
        obtain ⟨rfl, rfl⟩ := hholding
        exact hpending _ (readFrame_accepted hread).1
  next => contradiction

theorem relayLoopKind_admits : relayLoopKind.Admits relayAdmitted := by
  intro read decode input loop next index plaintext _ hreceive hholding
  obtain ⟨⟨receiver, rest⟩, hmessage, hresult⟩ :=
    Option.map_eq_some_iff.mp hreceive
  unfold RelayLoop.receive at hmessage
  split at hmessage
  next hpc =>
    obtain ⟨⟨result, rest'⟩, hrecv, hafter⟩ :=
      Option.map_eq_some_iff.mp hmessage
    cases hafter
    cases houtcome : RelayLoop.outcomeOf read loop.books.manifest result with
    | failed error =>
        rw [houtcome] at hresult
        cases hresult
    | skipped =>
        rw [houtcome] at hresult
        cases hresult
        simp only [relayLoopKind, RelayLoop.toHead_holding] at hholding
        contradiction
    | nack other =>
        rw [houtcome] at hresult
        cases hresult
        simp [relayLoopKind, RelayLoop.holding] at hholding
    | accepted other bytes =>
        rw [houtcome] at hresult
        cases hresult
        simp only [relayLoopKind, RelayLoop.holding, Option.some.injEq,
          Prod.mk.injEq] at hholding
        obtain ⟨rfl, rfl⟩ := hholding
        cases result with
        | error error => contradiction
        | ok message =>
            obtain ⟨ciphertext, rfl, _⟩ := relayOutcome_accepted houtcome
            exact recvMsg_chunk_index_lt hrecv
  next => contradiction

namespace FillRun

variable {Loop : Type} {kind : LoopKind Loop} {read : ℕ → Bytes → Option Bytes}
  {outputDir : RawPath} {manifest : FileManifest}
  {admitted : FileManifest → ℕ → Prop} {s t : FillRun Loop}

/-- Where the accepted chunks are written. -/
def placed (manifest : FileManifest) (accepted : List (ℕ × Bytes)) :
    List (ℕ × Bytes) :=
  accepted.map fun chunk => (manifest.offset chunk.1, chunk.2)

/-- An authenticated chunk of the right size under an index that is admitted. -/
structure GoodChunk (read : ℕ → Bytes → Option Bytes) (manifest : FileManifest)
    (admitted : FileManifest → ℕ → Prop) (chunk : ℕ × Bytes) : Prop where
  length : chunk.2.length = manifest.sizeOf chunk.1
  decrypts : Decrypts read chunk.1 chunk.2
  admitted : admitted manifest chunk.1

/-- The file is what the accepted chunks make of an empty one of the manifest's
length. -/
structure Filled (read : ℕ → Bytes → Option Bytes) (manifest : FileManifest)
    (admitted : FileManifest → ℕ → Prop) (accepted : List (ℕ × Bytes))
    (file : Bytes) : Prop where
  good : ∀ chunk ∈ accepted, GoodChunk read manifest admitted chunk
  written : Written manifest.totalSize (placed manifest accepted) file

variable (kind read manifest admitted) in
structure LoopFilled (s : FillRun Loop) (loop : Loop) : Prop where
  regular : kind.Regular loop
  offered : (kind.books loop).manifest = manifest
  filled : Filled read manifest admitted s.accepted s.disk.landed
  held : ∀ index plaintext, kind.holding loop = some (index, plaintext) →
    GoodChunk read manifest admitted (index, plaintext)
  pending : ∀ index ∈ (kind.books loop).pending, index < manifest.chunkCount
  covers : ∀ index < manifest.chunkCount,
    index ∈ (kind.books loop).pending ∨ index ∈ s.accepted.map Prod.fst
  settled : kind.writing loop = false → s.disk.inFlight = none

variable (outputDir manifest) in
def SetupFilled (file : Bytes) : Setup → Prop
  | .acceptBi | .recvManifest | .reject | .failed _ => True
  | .lookup offered | .createDir offered | .create offered => offered = manifest
  | .setLen offered => offered = manifest ∧ file = []
  | .reply offered state message =>
      offered = manifest ∧
        state = .new manifest (outputPathFor outputDir manifest) ∧
        message ≠ .complete ∧ file.length = manifest.totalSize
  | .openFile offered state | .ready offered state =>
      offered = manifest ∧
        state = .new manifest (outputPathFor outputDir manifest) ∧
        file.length = manifest.totalSize

variable (kind read outputDir manifest admitted) in
def ReceiverFilled (s : FillRun Loop) : Prop :=
  match s.receiver with
  | .setup setup =>
      s.disk.inFlight = none ∧ s.accepted = [] ∧
        SetupFilled outputDir manifest s.disk.file setup
  | .loop loop => s.LoopFilled kind read manifest admitted loop
  | .returned _ | .failed _ => True

variable (read manifest admitted) in
/-- All has landed, and every chunk of the manifest is among the accepted. -/
structure Done (s : FillRun Loop) : Prop where
  inFlight : s.disk.inFlight = none
  filled : Filled read manifest admitted s.accepted s.disk.file
  all : ∀ index < manifest.chunkCount, index ∈ s.accepted.map Prod.fst

variable (kind) in
/-- The receiver has nothing left to do but to return. -/
def Closed (s : FillRun Loop) : Prop :=
  match s.receiver with
  | .setup _ => False
  | .loop loop => kind.completed loop
  | .returned _ | .failed _ => True

variable (kind read outputDir manifest admitted) in
structure Sound (s : FillRun Loop) : Prop where
  receiver : s.ReceiverFilled kind read outputDir manifest admitted
  done : s.completed = true → s.Done read manifest admitted ∧ s.Closed kind

theorem filled_nil {file : Bytes} (hlength : file.length = manifest.totalSize) :
    Filled read manifest admitted [] file where
  good := by simp
  written := by
    rw [← hlength]
    exact written_nil file

theorem Filled.snoc {accepted : List (ℕ × Bytes)} {file : Bytes} {index : ℕ}
    {plaintext : Bytes}
    (hfilled : Filled read manifest admitted accepted file)
    (hchunk : GoodChunk read manifest admitted (index, plaintext)) :
    Filled read manifest admitted (accepted ++ [(index, plaintext)])
      (writeAt file (manifest.offset index) plaintext) where
  good := by
    intro chunk hmem
    rcases List.mem_append.mp hmem with hold | hnew
    · exact hfilled.good chunk hold
    · rw [List.mem_singleton.mp hnew]
      exact hchunk
  written := by
    unfold placed
    rw [List.map_append]
    exact hfilled.written.write _ _

/-! ### Steps -/

theorem not_completed_of_not_closed
    (hsound : s.Sound kind read outputDir manifest admitted)
    (hopen : ¬ s.Closed kind) : s.completed = false := by
  by_contra hcompleted
  exact hopen (hsound.done (by simpa using hcompleted)).2

theorem sound_of_open (hcompleted : s.completed = false)
    (hfilled : s.ReceiverFilled kind read outputDir manifest admitted) :
    s.Sound kind read outputDir manifest admitted where
  receiver := hfilled
  done := by simp [hcompleted]

theorem sound_proceed_setup (hlaws : kind.Laws)
    (hsound : s.Sound kind read outputDir manifest admitted) {setup : Setup}
    {receiver : Receiver Loop} {output : ReceiverOutput}
    (hstate : s.receiver = .setup setup)
    (hproceed : s.receiver.proceed kind.toReceiveLoop outputDir =
      some (receiver, output)) :
    (s.emit kind receiver output).Sound kind read outputDir manifest
      admitted := by
  have hopen : s.completed = false := by
    apply not_completed_of_not_closed hsound
    unfold Closed
    rw [hstate]
    exact id
  have hreceiver := hsound.receiver
  unfold ReceiverFilled at hreceiver
  rw [hstate] at hproceed hreceiver
  obtain ⟨hinFlight, haccepted, hsetup⟩ := hreceiver
  cases setup with
  | acceptBi =>
      cases hproceed
      exact sound_of_open hopen ⟨hinFlight, haccepted, trivial⟩
  | recvManifest => contradiction
  | reject =>
      cases hproceed
      refine sound_of_open ?_ trivial
      simp [emit, hopen]
  | lookup offered => contradiction
  | createDir offered =>
      cases hproceed
      exact sound_of_open hopen ⟨hinFlight, haccepted, hsetup⟩
  | create offered =>
      cases hproceed
      exact sound_of_open hopen ⟨hinFlight, haccepted, hsetup, rfl⟩
  | setLen offered =>
      obtain ⟨rfl, hfile⟩ := hsetup
      cases hproceed
      refine sound_of_open hopen ⟨hinFlight, haccepted, rfl, rfl, by simp, ?_⟩
      exact length_setLen _ _
  | reply offered state message =>
      obtain ⟨rfl, hnew, hmessage, hlength⟩ := hsetup
      cases hproceed
      refine sound_of_open ?_ ⟨hinFlight, haccepted, rfl, hnew, hlength⟩
      simp [emit, hopen, hmessage]
  | openFile offered state =>
      cases hproceed
      exact sound_of_open hopen ⟨hinFlight, haccepted, hsetup⟩
  | ready offered state =>
      obtain ⟨rfl, rfl, hlength⟩ := hsetup
      cases hproceed
      refine sound_of_open hopen ?_
      have hbooks := hlaws.start_books (.start outputDir offered
        (.new offered (outputPathFor outputDir offered)))
      constructor
      · exact hlaws.start_regular _
      · rw [hbooks]
        rfl
      · change Filled read offered admitted s.accepted s.disk.landed
        rw [haccepted, Disk.landed_of_inFlight_eq_none hinFlight]
        exact filled_nil hlength
      · rw [hlaws.start_holding]
        simp
      · rw [hbooks]
        simp [Books.start, TransferState.new]
      · intro index hindex
        left
        rw [hbooks]
        simpa [Books.start, TransferState.new] using hindex
      · exact fun _ => hinFlight
  | failed error => contradiction

theorem done_of_completing {loop : Loop}
    (hfilled : s.LoopFilled kind read manifest admitted loop)
    (hpending : (kind.books loop).pending = ∅)
    (hwriting : kind.writing loop = false) : s.Done read manifest admitted where
  inFlight := hfilled.settled hwriting
  filled := by
    rw [← Disk.landed_of_inFlight_eq_none (hfilled.settled hwriting)]
    exact hfilled.filled
  all := by
    intro index hindex
    rcases hfilled.covers index hindex with hmem | hmem
    · rw [hpending] at hmem
      exact absurd hmem (Finset.notMem_empty index)
    · exact hmem

/-- A step that hands a chunk to the disk. -/
theorem loopFilled_write
    {loop next : Loop} {output : ReceiverOutput} {index : ℕ} {plaintext : Bytes}
    (hstate : s.receiver = .loop loop)
    (hfilled : s.LoopFilled kind read manifest admitted loop)
    (hfacts : kind.ProceedFacts loop next output)
    (hwrites : kind.Writes loop next output index plaintext) :
    (s.emit kind (.loop next)
      (.file ((kind.books loop).writeOp index plaintext))).LoopFilled kind read
        manifest admitted next := by
  have hheld : s.held kind = [(index, plaintext)] := by
    simp [held, hstate, hwrites.holding]
  have hinFlight := hfilled.settled hwrites.settled
  constructor
  · exact hfacts.regular
  · rw [hfacts.manifest]
    exact hfilled.offered
  · change Filled read manifest admitted (s.accepted ++ s.held kind)
      (s.disk.apply kind.background
        ((kind.books loop).writeOp index plaintext)).landed
    unfold Books.writeOp
    rw [hheld, Disk.landed_apply_write hinFlight, hfilled.offered]
    apply Filled.snoc
    · rw [← Disk.landed_of_inFlight_eq_none hinFlight]
      exact hfilled.filled
    · exact hfilled.held index plaintext hwrites.holding
  · rw [hwrites.holding_next]
    simp
  · intro other hother
    rw [hwrites.pending] at hother
    exact hfilled.pending other (Finset.mem_of_mem_erase hother)
  · intro other hother
    change other ∈ (kind.books next).pending ∨
      other ∈ (s.accepted ++ s.held kind).map Prod.fst
    rw [hheld, List.map_append, List.mem_append, hwrites.pending]
    by_cases hsame : other = index
    · right
      right
      simp [hsame]
    · rcases hfilled.covers other hother with hmem | hmem
      · exact Or.inl (Finset.mem_erase.mpr ⟨hsame, hmem⟩)
      · exact Or.inr (Or.inl hmem)
  · intro hwriting
    rw [hwrites.writing_next] at hwriting
    change (s.disk.apply kind.background _).inFlight = none
    unfold Books.writeOp
    rw [hwriting]
    exact hinFlight

theorem loopFilled_wait {loop next : Loop} {output : ReceiverOutput}
    (hunblocked : s.blocked kind = false) (hstate : s.receiver = .loop loop)
    (hfilled : s.LoopFilled kind read manifest admitted loop)
    (hfacts : kind.ProceedFacts loop next output)
    (hwaits : kind.Waits loop next output) (u : FillRun Loop)
    (hdisk : u.disk = s.disk) (haccepted : u.accepted = s.accepted) :
    u.LoopFilled kind read manifest admitted next := by
  constructor
  · exact hfacts.regular
  · rw [hfacts.manifest]
    exact hfilled.offered
  · rw [hdisk, haccepted]
    exact hfilled.filled
  · intro index plaintext hholding
    rcases hwaits.holding with hsame | hnone
    · rw [hsame] at hholding
      exact hfilled.held index plaintext hholding
    · rw [hnone] at hholding
      contradiction
  · rw [hwaits.pending]
    exact hfilled.pending
  · rw [hwaits.pending, haccepted]
    exact hfilled.covers
  · intro hwriting
    rw [hdisk]
    rcases hwaits.writing with hsame | ⟨hjoins, _⟩
    · rw [hsame] at hwriting
      exact hfilled.settled hwriting
    · unfold blocked at hunblocked
      rw [hstate] at hunblocked
      simpa [hjoins] using hunblocked

/-- Once `Complete` is sent the only step is the last. -/
theorem output_of_completed (hlaws : kind.Laws)
    (hsound : s.Sound kind read outputDir manifest admitted)
    (hcompleted : s.completed = true) {receiver : Receiver Loop}
    {output : ReceiverOutput}
    (hproceed : s.receiver.proceed kind.toReceiveLoop outputDir =
      some (receiver, output)) :
    (∃ books, receiver = .returned books) ∧ ∃ state, output = .delete state := by
  have hclosed := (hsound.done hcompleted).2
  have hreceiver := hsound.receiver
  unfold Closed at hclosed
  unfold ReceiverFilled at hreceiver
  cases hstate : s.receiver with
  | setup setup =>
      rw [hstate] at hclosed
      exact hclosed.elim
  | loop loop =>
      rw [hstate] at hclosed hreceiver hproceed
      rcases hlaws.proceed_cases hreceiver.regular hproceed with
        ⟨next, _, hnot, _⟩ | ⟨_, rfl, rfl⟩
      · exact absurd hclosed hnot
      · exact ⟨⟨_, rfl⟩, _, rfl⟩
  | returned books =>
      rw [hstate] at hproceed
      contradiction
  | failed error =>
      rw [hstate] at hproceed
      contradiction

/-- Whatever `Complete` is the output of leaves everything done. -/
theorem done_of_output (hlaws : kind.Laws)
    (hsound : s.Sound kind read outputDir manifest admitted)
    {receiver : Receiver Loop}
    (hproceed : s.receiver.proceed kind.toReceiveLoop outputDir =
      some (receiver, .ctrl .complete)) :
    s.Done read manifest admitted ∧
      ∃ next, receiver = .loop next ∧ kind.completed next := by
  have hreceiver := hsound.receiver
  unfold ReceiverFilled at hreceiver
  cases hstate : s.receiver with
  | setup setup =>
      rw [hstate] at hproceed hreceiver
      cases setup with
      | reply offered state message =>
          cases hproceed
          exact absurd rfl hreceiver.2.2.2.2.1
      | _ => cases hproceed
  | loop loop =>
      rw [hstate] at hproceed hreceiver
      rcases hlaws.proceed_cases hreceiver.regular hproceed with
        ⟨next, rfl, _, hfacts⟩ | ⟨_, _, houtput⟩
      · obtain ⟨_, hnext, hpending, _, hwriting⟩ := hfacts.complete (Or.inl rfl)
        exact ⟨done_of_completing hreceiver hpending hwriting, next, rfl, hnext⟩
      · contradiction
  | returned books =>
      rw [hstate] at hproceed
      contradiction
  | failed error =>
      rw [hstate] at hproceed
      contradiction

/-- The receiver returns or fails, after an await that had its output. -/
theorem sound_ended (hlaws : kind.Laws)
    (hsound : s.Sound kind read outputDir manifest admitted)
    {receiver ended : Receiver Loop} {output : ReceiverOutput}
    (hproceed : s.receiver.proceed kind.toReceiveLoop outputDir =
      some (receiver, output))
    (hended : (∃ books, ended = .returned books) ∨ ∃ error, ended = .failed error) :
    (s.emit kind ended output).Sound kind read outputDir manifest
      admitted := by
  have hclosed : ∀ u : FillRun Loop, u.receiver = ended → u.Closed kind := by
    intro u hu
    unfold Closed
    rcases hended with ⟨books, rfl⟩ | ⟨error, rfl⟩
    · rw [hu]
      trivial
    · rw [hu]
      trivial
  have hreceiver : ∀ u : FillRun Loop, u.receiver = ended →
      u.ReceiverFilled kind read outputDir manifest admitted := by
    intro u hu
    unfold ReceiverFilled
    rcases hended with ⟨books, rfl⟩ | ⟨error, rfl⟩
    · rw [hu]
      trivial
    · rw [hu]
      trivial
  cases output with
  | file op =>
      have hopen : s.completed = false := by
        by_contra hcompleted
        obtain ⟨_, state, houtput⟩ := output_of_completed hlaws hsound
          (by simpa using hcompleted) hproceed
        contradiction
      cases op <;> exact sound_of_open hopen (hreceiver _ rfl)
  | ctrl message =>
      refine ⟨hreceiver _ rfl, fun hcompleted => ⟨?_, hclosed _ rfl⟩⟩
      simp only [emit, Bool.or_eq_true, decide_eq_true_eq] at hcompleted
      rcases hcompleted with hcompleted | rfl
      · obtain ⟨_, state, houtput⟩ :=
          output_of_completed hlaws hsound hcompleted hproceed
        contradiction
      · have hdone := (done_of_output hlaws hsound hproceed).1
        exact ⟨hdone.inFlight, hdone.filled, hdone.all⟩
  | none =>
      refine ⟨hreceiver _ rfl, fun hcompleted => ⟨?_, hclosed _ rfl⟩⟩
      have hdone := (hsound.done hcompleted).1
      exact ⟨hdone.inFlight, hdone.filled, hdone.all⟩
  | save state =>
      refine ⟨hreceiver _ rfl, fun hcompleted => ⟨?_, hclosed _ rfl⟩⟩
      have hdone := (hsound.done hcompleted).1
      exact ⟨hdone.inFlight, hdone.filled, hdone.all⟩
  | delete state =>
      refine ⟨hreceiver _ rfl, fun hcompleted => ⟨?_, hclosed _ rfl⟩⟩
      have hdone := (hsound.done hcompleted).1
      exact ⟨hdone.inFlight, hdone.filled, hdone.all⟩

theorem sound_proceed_loop (hlaws : kind.Laws)
    (hsound : s.Sound kind read outputDir manifest admitted)
    (hunblocked : s.blocked kind = false) {loop : Loop}
    {receiver : Receiver Loop} {output : ReceiverOutput}
    (hstate : s.receiver = .loop loop)
    (hproceed : s.receiver.proceed kind.toReceiveLoop outputDir =
      some (receiver, output)) :
    (s.emit kind receiver output).Sound kind read outputDir manifest
      admitted := by
  have hfilled := hsound.receiver
  unfold ReceiverFilled at hfilled
  rw [hstate] at hfilled
  have hloop : kind.proceed loop = some (receiver, output) := by
    rw [hstate] at hproceed
    exact hproceed
  rcases hlaws.proceed_cases hfilled.regular hloop with
    ⟨next, rfl, hnot, hfacts⟩ | ⟨_, rfl, rfl⟩
  · have hopen : s.completed = false := by
      apply not_completed_of_not_closed hsound
      unfold Closed
      rw [hstate]
      exact hnot
    rcases hfacts.moves with ⟨index, plaintext, hwrites⟩ | hwaits
    · have hnext := loopFilled_write hstate hfilled hfacts hwrites
      rw [hwrites.output]
      exact sound_of_open hopen hnext
    · have hnext := loopFilled_wait hunblocked hstate hfilled hfacts hwaits
      cases output with
      | none => exact sound_of_open hopen (hnext _ rfl rfl)
      | save state => exact sound_of_open hopen (hnext _ rfl rfl)
      | delete state => exact sound_of_open hopen (hnext _ rfl rfl)
      | file op => exact absurd rfl (hwaits.output op)
      | ctrl message =>
          refine ⟨hnext _ rfl rfl, fun hcompleted => ?_⟩
          simp only [emit, hopen, Bool.false_or, decide_eq_true_eq] at hcompleted
          subst hcompleted
          obtain ⟨hdone, next', hsame, hclosed⟩ :=
            done_of_output hlaws hsound hproceed
          cases hsame
          exact ⟨⟨hdone.inFlight, hdone.filled, hdone.all⟩, hclosed⟩
  · exact sound_ended hlaws hsound hproceed (Or.inl ⟨_, rfl⟩)

theorem sound_stepReceiver (hlaws : kind.Laws)
    (hsound : s.Sound kind read outputDir manifest admitted)
    {event : ReceiverEvent}
    (hproceeds : event = .proceed → s.blocked kind = false)
    (hadmits : Writer.admits manifest event = true)
    (hlookup : ∀ pathExists files, event ≠ .lookup pathExists files)
    (hstep : s.stepReceiver kind outputDir event = some t) :
    t.Sound kind read outputDir manifest admitted := by
  obtain ⟨⟨receiver, output⟩, hreceiver, rfl⟩ := Option.map_eq_some_iff.mp hstep
  cases event with
  | proceed =>
      change s.receiver.proceed kind.toReceiveLoop outputDir = _ at hreceiver
      cases hstate : s.receiver with
      | setup setup => exact sound_proceed_setup hlaws hsound hstate hreceiver
      | loop loop =>
          exact sound_proceed_loop hlaws hsound (hproceeds rfl) hstate hreceiver
      | returned books =>
          rw [hstate] at hreceiver
          contradiction
      | failed error =>
          rw [hstate] at hreceiver
          contradiction
  | fail error effect =>
      simp only [Receiver.step, Receiver.fail] at hreceiver
      split at hreceiver
      next => contradiction
      next => contradiction
      next =>
        split at hreceiver
        next proceeded output' hproceed =>
          cases hreceiver
          exact sound_ended hlaws hsound hproceed (Or.inr ⟨error, rfl⟩)
        next =>
          cases hreceiver
          refine ⟨trivial, fun hcompleted => ⟨?_, trivial⟩⟩
          have hdone := (hsound.done hcompleted).1
          exact ⟨hdone.inFlight, hdone.filled, hdone.all⟩
  | lookup pathExists files => exact absurd rfl (hlookup pathExists files)
  | received result =>
      obtain ⟨next, hreceived, hresult⟩ := Option.map_eq_some_iff.mp hreceiver
      cases hresult
      unfold Receiver.received at hreceived
      split at hreceived
      next hstate =>
        cases hreceived
        have hopen : s.completed = false := by
          apply not_completed_of_not_closed hsound
          unfold Closed
          rw [hstate]
          exact id
        have hsetup := hsound.receiver
        unfold ReceiverFilled at hsetup
        rw [hstate] at hsetup
        obtain ⟨hinFlight, haccepted, _⟩ := hsetup
        refine sound_of_open hopen ?_
        cases result with
        | error error => trivial
        | ok message =>
            cases message with
            | manifest offered =>
                have hoffered : offered = manifest := by
                  simpa [Writer.admits] using hadmits
                unfold emit
                simp only [Setup.afterManifest]
                split
                · exact ⟨hinFlight, haccepted, trivial⟩
                · exact ⟨hinFlight, haccepted, hoffered⟩
            | _ => trivial
      next => contradiction

theorem sound_frame (hlaws : kind.Laws) (hindices : kind.Admits admitted)
    (hsound : s.Sound kind read outputDir manifest admitted) {loop : Loop}
    {receiver : Receiver Loop} {decode : Bytes → Option ControlMessage}
    {input : Bytes} (hstate : s.receiver = .loop loop)
    (hreceive : kind.receive read decode input loop = some receiver) :
    Sound kind read outputDir manifest admitted { s with receiver } := by
  have hfilled := hsound.receiver
  unfold ReceiverFilled at hfilled
  rw [hstate] at hfilled
  rcases hlaws.receive_cases hfilled.regular hreceive with
    ⟨error, rfl⟩ | ⟨next, rfl, hnot, hfacts⟩
  · refine ⟨trivial, fun hcompleted => ⟨?_, trivial⟩⟩
    have hdone := (hsound.done hcompleted).1
    exact ⟨hdone.inFlight, hdone.filled, hdone.all⟩
  · have hopen : s.completed = false := by
      apply not_completed_of_not_closed hsound
      unfold Closed
      rw [hstate]
      exact hnot
    have hbound : ∀ index ∈ (kind.books loop).pending,
        index < (kind.books loop).manifest.chunkCount := by
      rw [hfilled.offered]
      exact hfilled.pending
    refine sound_of_open hopen ?_
    constructor
    · exact hfacts.regular
    · rw [hfacts.manifest]
      exact hfilled.offered
    · exact hfilled.filled
    · intro index plaintext hholding
      have hgood := hfacts.holding index plaintext hholding
      have hadmitted := hindices _ _ _ _ _ _ _ hbound hreceive hholding
      rw [hfilled.offered] at hgood hadmitted
      exact ⟨hgood.1, hgood.2, hadmitted⟩
    · rw [hfacts.pending]
      exact hfilled.pending
    · rw [hfacts.pending]
      exact hfilled.covers
    · rw [hfacts.writing]
      exact hfilled.settled

theorem sound_land
    (hsound : s.Sound kind read outputDir manifest admitted) {offset : ℕ}
    {bytes : Bytes} (hinFlight : s.disk.inFlight = some (offset, bytes)) :
    Sound kind read outputDir manifest admitted
      { s with
        disk.file := writeAt s.disk.file offset bytes
        disk.inFlight := none } := by
  have hopen : s.completed = false := by
    by_contra hcompleted
    have hdone := (hsound.done (by simpa using hcompleted)).1
    rw [hdone.inFlight] at hinFlight
    contradiction
  have hlanded : s.disk.landed = writeAt s.disk.file offset bytes := by
    simp [Disk.landed, hinFlight]
  have hreceiver := hsound.receiver
  refine sound_of_open hopen ?_
  unfold ReceiverFilled at hreceiver ⊢
  dsimp only
  split at hreceiver
  next =>
    rw [hreceiver.1] at hinFlight
    contradiction
  next =>
    constructor
    · exact hreceiver.regular
    · exact hreceiver.offered
    · change Filled read manifest admitted s.accepted
        (writeAt s.disk.file offset bytes)
      rw [← hlanded]
      exact hreceiver.filled
    · exact hreceiver.held
    · exact hreceiver.pending
    · exact hreceiver.covers
    · exact fun _ => rfl
  next => trivial
  next => trivial

theorem sound_next (hlaws : kind.Laws) (hindices : kind.Admits admitted)
    {event : FillEvent}
    (hsound : s.Sound kind read outputDir manifest admitted)
    (hnext : s.next kind read outputDir manifest event = some t) :
    t.Sound kind read outputDir manifest admitted := by
  cases event with
  | receiver event =>
      cases event with
      | lookup pathExists files => contradiction
      | proceed =>
          simp only [next] at hnext
          split at hnext
          next => contradiction
          next hblocked =>
            exact sound_stepReceiver hlaws hsound
              (fun _ => by simpa using hblocked) rfl (by simp) hnext
      | fail error effect =>
          exact sound_stepReceiver hlaws hsound (by simp) rfl (by simp) hnext
      | received result =>
          simp only [next] at hnext
          split at hnext
          next hadmits =>
            exact sound_stepReceiver hlaws hsound (by simp) hadmits (by simp)
              hnext
          next => contradiction
  | noState =>
      simp only [next] at hnext
      split at hnext
      next offered hstate =>
        cases hnext
        have hopen : s.completed = false := by
          apply not_completed_of_not_closed hsound
          unfold Closed
          rw [hstate]
          exact id
        have hsetup := hsound.receiver
        unfold ReceiverFilled at hsetup
        rw [hstate] at hsetup
        exact sound_of_open hopen hsetup
      next => contradiction
  | frame decode input =>
      simp only [next] at hnext
      split at hnext
      next loop hstate =>
        obtain ⟨receiver, hreceive, rfl⟩ := Option.map_eq_some_iff.mp hnext
        exact sound_frame hlaws hindices hsound hstate hreceive
      next => contradiction
  | land =>
      obtain ⟨⟨offset, bytes⟩, hinFlight, rfl⟩ :=
        Option.map_eq_some_iff.mp hnext
      exact sound_land hsound hinFlight

theorem sound_of_reachable (hlaws : kind.Laws) (hindices : kind.Admits admitted)
    {firstSetup : Setup}
    (hfirst : firstSetup = .acceptBi ∨ firstSetup = .recvManifest)
    (hreach : (machine kind read outputDir manifest firstSetup).Reachable s) :
    s.Sound kind read outputDir manifest admitted := by
  apply hreach.invariant
  · intro s₀ hstart
    apply sound_of_open hstart.completed
    unfold ReceiverFilled
    rw [hstart.receiver]
    rcases hfirst with rfl | rfl
    · exact ⟨hstart.inFlight, hstart.accepted, trivial⟩
    · exact ⟨hstart.inFlight, hstart.accepted, trivial⟩
  · exact fun u event v hu hnext => sound_next hlaws hindices hu hnext

/-- What the accepted chunks have to be, whatever their number. -/
theorem fullyReceived_iff_tiledBy
    (hbounded : ∀ index, admitted manifest index → index < 2 ^ 32)
    (hdone : s.Done read manifest admitted) :
    s.FullyReceived read manifest ↔
      manifest.TiledBy (s.accepted.map Prod.fst) := by
  have hgood := hdone.filled.good
  have hwritten := hdone.filled.written
  have hlength : s.disk.file.length = manifest.totalSize ↔
      ∀ index ∈ s.accepted.map Prod.fst,
        manifest.offset index ≤ manifest.totalSize := by
    rw [hwritten.length_eq_iff]
    unfold placed
    simp only [List.forall_mem_map]
    apply forall₂_congr
    intro chunk hchunk
    have hindex : chunk.1 < 2 ^ 32 := hbounded _ (hgood chunk hchunk).admitted
    rw [← FileManifest.offset_add_sizeOf_le_iff hindex,
      ← (hgood chunk hchunk).length, List.length_pos_iff]
  constructor
  · intro hreceived
    constructor
    · exact hlength.mp hreceived.length
    · intro position hposition
      obtain ⟨chunk, hchunk, _, hcovers, _⟩ := hreceived.bytes position hposition
      rw [FileManifest.covers_iff (hgood chunk hchunk).length hposition] at hcovers
      exact ⟨chunk.1, List.mem_map_of_mem hchunk, hcovers⟩
  · intro htiled
    constructor
    · exact hlength.mpr htiled.inside
    · intro position hposition
      obtain ⟨index, hindex, hblock⟩ := htiled.covered position hposition
      obtain ⟨chunk, hchunk, rfl⟩ := List.mem_map.mp hindex
      have hcovered : ∃ write ∈ placed manifest s.accepted,
          Covers write position := by
        refine ⟨_, List.mem_map_of_mem hchunk, ?_⟩
        rw [FileManifest.covers_iff (hgood chunk hchunk).length hposition]
        exact hblock
      obtain ⟨write, hwrite, hcovers, hbyte⟩ := hwritten.bytes position hcovered
      obtain ⟨other, hother, rfl⟩ := List.mem_map.mp hwrite
      exact ⟨other, hother, (hgood other hother).decrypts, hcovers, hbyte⟩

end FillRun

/-- After `Complete` the file is fully received exactly when the accepted chunks
tile it; for the direct receiver these are the chunks the manifest counts. -/
theorem fully_received_iff (read : ℕ → Bytes → Option Bytes)
    (outputDir : RawPath) (manifest : FileManifest) :
    (∀ s : FillRun DirectLoop,
        (FillRun.machine directLoopKind read outputDir manifest
          directSession.firstSetup).Reachable s → s.completed = true →
        (s.FullyReceived read manifest ↔ manifest.Tiled)) ∧
      ∀ s : FillRun RelayLoop,
        (FillRun.machine relayLoopKind read outputDir manifest
          relaySession.firstSetup).Reachable s → s.completed = true →
        (s.FullyReceived read manifest ↔
          manifest.TiledBy (s.accepted.map Prod.fst)) := by
  constructor
  · intro s hreach hcompleted
    have hsound := FillRun.sound_of_reachable directLoopKind_laws
      directLoopKind_admits (Or.inl rfl) hreach
    have hdone := (hsound.done hcompleted).1
    have hcount := manifest.chunkCount_lt
    rw [FillRun.fullyReceived_iff_tiledBy (fun _ hindex => hindex.trans hcount)
      hdone]
    apply FileManifest.tiledBy_iff_tiled
    intro index
    constructor
    · intro hindex
      obtain ⟨chunk, hchunk, rfl⟩ := List.mem_map.mp hindex
      exact (hdone.filled.good chunk hchunk).admitted
    · exact hdone.all index
  · intro s hreach hcompleted
    have hsound := FillRun.sound_of_reachable relayLoopKind_laws
      relayLoopKind_admits (Or.inr rfl) hreach
    have hdone := (hsound.done hcompleted).1
    exact FillRun.fullyReceived_iff_tiledBy (fun _ hindex => hindex) hdone

/-! ## Numbers that do not fit together -/

/-- Three bytes in no chunks. -/
def tooFewChunks : FileManifest := numbersManifest 3 1 0

/-- One byte in two chunks of two bytes. -/
def tooManyChunks : FileManifest := numbersManifest 1 2 2

def FillRun.fresh {Loop : Type} (firstSetup : Setup) : FillRun Loop where
  receiver := .setup firstSetup
  disk := ⟨[], none, fun _ => .absent⟩
  accepted := []
  completed := false

theorem FillRun.starts_fresh {Loop : Type} (firstSetup : Setup) :
    Starts firstSetup (fresh firstSetup : FillRun Loop) where
  receiver := rfl
  inFlight := rfl
  accepted := rfl
  completed := rfl

/-- The manifest is all that the direct receiver gets. -/
def completedWithoutChunks : Option (FillRun DirectLoop) :=
  (FillRun.machine directLoopKind tagRead ['d'] tooFewChunks
      directSession.firstSetup).runFrom (FillRun.fresh directSession.firstSetup)
    ([.receiver .proceed, .receiver (.received (.ok (.manifest tooFewChunks))),
        .noState] ++ List.replicate 9 (.receiver .proceed))

/-- The relay receiver gets both chunks. -/
def completedPastTheEnd : Option (FillRun RelayLoop) :=
  (FillRun.machine relayLoopKind tagRead ['d'] tooManyChunks
      relaySession.firstSetup).runFrom (FillRun.fresh relaySession.firstSetup)
    ([.receiver (.received (.ok (.manifest tooManyChunks))), .noState] ++
      List.replicate 6 (.receiver .proceed) ++
      [.frame rmpSerde.decode (1 :: (chunkFrame lookupNoise 0 [1]).bytes),
        .receiver .proceed, .receiver .proceed,
        .frame rmpSerde.decode (1 :: (chunkFrame lookupNoise 1 [2, 3]).bytes)] ++
      List.replicate 4 (.receiver .proceed))

theorem completedWithoutChunks_completed :
    completedWithoutChunks.map (fun s => (s.completed, s.accepted)) =
      some (true, []) := by
  decide +kernel

theorem completedPastTheEnd_completed :
    completedPastTheEnd.map (fun s => (s.completed, s.disk.file)) =
      some (true, [1, 0, 2, 3]) := by
  decide +kernel

theorem fully_received_sample :
    (∃ s, completedWithoutChunks = some s ∧
        (s.FullyReceived tagRead tooFewChunks ↔ tooFewChunks.Tiled)) ∧
      ∃ s, completedPastTheEnd = some s ∧
        (s.FullyReceived tagRead tooManyChunks ↔
          tooManyChunks.TiledBy (s.accepted.map Prod.fst)) := by
  obtain ⟨s, hs, hfields⟩ :=
    Option.map_eq_some_iff.mp completedWithoutChunks_completed
  obtain ⟨t, ht, hfields'⟩ :=
    Option.map_eq_some_iff.mp completedPastTheEnd_completed
  exact ⟨⟨s, hs, (fully_received_iff tagRead ['d'] tooFewChunks).1 s
      (Machine.Reachable.of_runFrom (FillRun.starts_fresh _) hs)
      (congrArg Prod.fst hfields)⟩,
    t, ht, (fully_received_iff tagRead ['d'] tooManyChunks).2 t
      (Machine.Reachable.of_runFrom (FillRun.starts_fresh _) ht)
      (congrArg Prod.fst hfields')⟩

/-- `Complete` is sent for a file of which no byte was received, and for one of
four bytes in the place of one. -/
theorem completed_not_fully_received :
    (∃ s : FillRun DirectLoop,
        (FillRun.machine directLoopKind tagRead ['d'] tooFewChunks
          directSession.firstSetup).Reachable s ∧ s.completed = true ∧
          ¬ s.FullyReceived tagRead tooFewChunks) ∧
      ∃ s : FillRun RelayLoop,
        (FillRun.machine relayLoopKind tagRead ['d'] tooManyChunks
          relaySession.firstSetup).Reachable s ∧ s.completed = true ∧
          ¬ s.FullyReceived tagRead tooManyChunks := by
  obtain ⟨s, hs, hfields⟩ :=
    Option.map_eq_some_iff.mp completedWithoutChunks_completed
  obtain ⟨t, ht, hfields'⟩ :=
    Option.map_eq_some_iff.mp completedPastTheEnd_completed
  simp only [Prod.mk.injEq] at hfields hfields'
  obtain ⟨hcompleted, haccepted⟩ := hfields
  obtain ⟨hcompleted', hfile⟩ := hfields'
  refine ⟨⟨s, Machine.Reachable.of_runFrom (FillRun.starts_fresh _) hs,
    hcompleted, fun hreceived => ?_⟩,
    t, Machine.Reachable.of_runFrom (FillRun.starts_fresh _) ht, hcompleted',
    fun hreceived => ?_⟩
  · obtain ⟨chunk, hchunk, _⟩ := hreceived.bytes 0 (by decide)
    rw [haccepted] at hchunk
    exact absurd hchunk List.not_mem_nil
  · have hlength := hreceived.length
    rw [hfile] at hlength
    exact absurd hlength (by decide)

end P2pShare
