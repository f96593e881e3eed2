import P2pShare.ChunkBooks
import P2pShare.ChunkIndices

/-!
# The books of the relay receiver

The receive loop of `receive_file_relay` does not ask whether the chunk it has
decrypted is one it waits for.  What it does then to its four books depends on
whether it was.
-/

namespace P2pShare

open ByteStream TransitionMachine

/-! ## The relay loop -/

namespace RelayLoop

variable {loop : RelayLoop} {receiver : RelayReceiver}
  {output : ReceiverOutput}

/-- Only the write of a chunk changes the books. -/
theorem proceed_books (hproceed : loop.proceed = some (receiver, output)) :
    (∃ index plaintext, loop.pc = .write index plaintext ∧
        receiver = .loop (loop.recordChunk index plaintext) ∧
        output = .file (loop.books.writeOp index plaintext)) ∨
      (∀ index plaintext, loop.pc ≠ .write index plaintext) ∧
        ((∃ next, receiver = .loop next ∧ next.books = loop.books ∧
            next.holding = none) ∨
          receiver = .returned loop.books) := by
  unfold proceed at hproceed
  split at hproceed
  next => contradiction
  next index hpc =>
    cases hproceed
    exact Or.inr ⟨by simp [hpc], Or.inl ⟨_, rfl, rfl, toHead_holding loop⟩⟩
  next index plaintext hpc =>
    cases hproceed
    exact Or.inl ⟨index, plaintext, hpc, rfl, rfl⟩
  next hpc =>
    cases hproceed
    exact Or.inr ⟨by simp [hpc],
      Or.inl ⟨_, rfl, afterAck_books loop, afterAck_holding loop⟩⟩
  next hpc =>
    cases hproceed
    exact Or.inr ⟨by simp [hpc], Or.inl ⟨_, rfl, rfl, toHead_holding loop⟩⟩
  next hpc =>
    cases hproceed
    exact Or.inr ⟨by simp [hpc], Or.inl ⟨_, rfl, rfl, rfl⟩⟩
  next hpc =>
    cases hproceed
    exact Or.inr ⟨by simp [hpc], Or.inl ⟨_, rfl, rfl, rfl⟩⟩
  next hpc =>
    cases hproceed
    exact Or.inr ⟨by simp [hpc], Or.inr rfl⟩

/-- A message changes no book, and the chunk it may bring is authentic and of
its size. -/
theorem receive_books {read : ℕ → Bytes → Option Bytes}
    {decode : Bytes → Option ControlMessage} {input rest : Bytes}
    (hreceive : loop.receive read decode input = some (receiver, rest)) :
    (∃ error, receiver = .failed error) ∨
      ∃ next, receiver = .loop next ∧ next.books = loop.books ∧
        ∀ index plaintext, next.pc = .write index plaintext →
          plaintext.length = loop.books.manifest.sizeOf index ∧
            Decrypts read index plaintext := by
  unfold receive at hreceive
  split at hreceive
  next hpc =>
    obtain ⟨⟨result, rest'⟩, hmessage, hresult⟩ :=
      Option.map_eq_some_iff.mp hreceive
    cases hresult
    cases houtcome : outcomeOf read loop.books.manifest result with
    | failed error => exact Or.inl ⟨error, rfl⟩
    | skipped =>
        refine Or.inr ⟨_, rfl, rfl, ?_⟩
        intro index plaintext hwrite
        obtain ⟨hhead, _⟩ | hhead := toHead_cases loop
        · rw [hhead] at hwrite
          contradiction
        · rw [hhead] at hwrite
          contradiction
    | nack index => exact Or.inr ⟨_, rfl, rfl, fun _ _ hwrite => by cases hwrite⟩
    | accepted index plaintext =>
        refine Or.inr ⟨_, rfl, rfl, ?_⟩
        intro index' plaintext' hwrite
        cases hwrite
        cases result with
        | error error => contradiction
        | ok message =>
            obtain ⟨_, _, hlength, hdecrypts⟩ := relayOutcome_accepted houtcome
            exact ⟨hlength, hdecrypts⟩
  next => contradiction

end RelayLoop

theorem FileManifest.Consistent.within {manifest : FileManifest}
    (hconsistent : manifest.Consistent) : manifest.CountedWithin where
  chunkSize := hconsistent.chunkSize
  offset_lt := fun index hindex => (hconsistent.lt_chunkCount_iff index).mp hindex

/-- The receive loop with the chunks it has written. -/
structure RelayBooksRun where
  receiver : RelayReceiver
  accepted : List (ℕ × Bytes)

namespace RelayBooksRun

variable (read : ℕ → Bytes → Option Bytes)
  (decode : Bytes → Option ControlMessage) (outputDir : PathResolution.RawPath)
  (manifest : FileManifest) (initial : Finset ℕ)

/-- The chunk that the write in the output has put into the file. -/
def written (loop : RelayLoop) : ReceiverOutput → List (ℕ × Bytes)
  | .file (.write _ _ _) => loop.holding.toList
  | _ => []

def next (s : RelayBooksRun) : RelayReceiverEvent → Option RelayBooksRun
  | .receiver event =>
      match s.receiver with
      | .loop loop =>
          ((Receiver.loop loop).step relayKind outputDir event).map
            fun (receiver, output) =>
              ⟨receiver, s.accepted ++ written loop output⟩
      | _ => none
  | .message input =>
      match s.receiver with
      | .loop loop =>
          (loop.receive read decode input).map fun (receiver, _) =>
            { s with receiver }
      | _ => none

/-- The loop begins with the books of a state of this manifest. -/
def machine : Machine RelayBooksRun RelayReceiverEvent where
  start := fun s => s.accepted = [] ∧
    ∃ state : TransferState, state.manifest = manifest ∧
      state.chunksDone = initial ∧
      s.receiver = .loop (.start (.start outputDir manifest state))
  next := next read decode outputDir

/-- What the receive loop and its result say of the chunks. -/
def Exact (s : RelayBooksRun) : Prop :=
  match s.receiver with
  | .loop loop =>
      BooksExact read manifest initial s.accepted loop.books.state.chunksDone
        loop.books.pending loop.books.confirmed
  | .returned books =>
      BooksExact read manifest initial s.accepted books.state.chunksDone
        books.pending books.confirmed
  | .setup _ | .failed _ => True

/-- The chunk that is written is still pending. -/
def WritesPending (s : RelayBooksRun) : RelayReceiverEvent → Prop
  | .receiver .proceed =>
      ∀ loop index plaintext, s.receiver = .loop loop →
        loop.pc = .write index plaintext → index ∈ loop.books.pending
  | _ => True

/-- What holds of a chunk that is about to be written. -/
def Holds (s : RelayBooksRun) : Prop :=
  ∀ loop, s.receiver = .loop loop → loop.books.manifest = manifest ∧
    ∀ index plaintext, loop.pc = .write index plaintext →
      plaintext.length = manifest.sizeOf index ∧ Decrypts read index plaintext

variable {read decode outputDir manifest initial} {s t : RelayBooksRun}

theorem holds_next (hholds : s.Holds read manifest)
    {event : RelayReceiverEvent}
    (hnext : s.next read decode outputDir event = some t) :
    t.Holds read manifest := by
  intro after hafter
  cases event with
  | receiver event =>
      simp only [next] at hnext
      split at hnext
      next loop hstate =>
        obtain ⟨⟨receiver, output⟩, hstep, rfl⟩ :=
          Option.map_eq_some_iff.mp hnext
        dsimp only at hafter
        subst hafter
        have hmanifest := (hholds loop hstate).1
        obtain ⟨_, hproceed⟩ | ⟨error, hfailed⟩ := Receiver.step_loop hstep
        · obtain ⟨index, plaintext, _, hrecord, _⟩ |
              ⟨_, ⟨next, hnext, hbooks, hholding⟩ | hreturned⟩ :=
            RelayLoop.proceed_books hproceed
          · cases hrecord
            exact ⟨hmanifest, fun _ _ hwrite => by cases hwrite⟩
          · cases hnext
            refine ⟨by rw [hbooks]; exact hmanifest, ?_⟩
            intro index plaintext hwrite
            simp [RelayLoop.holding, hwrite] at hholding
          · contradiction
        · contradiction
      next => contradiction
  | message input =>
      simp only [next] at hnext
      split at hnext
      next loop hstate =>
        obtain ⟨⟨receiver, rest⟩, hreceive, rfl⟩ :=
          Option.map_eq_some_iff.mp hnext
        dsimp only at hafter
        subst hafter
        have hmanifest := (hholds loop hstate).1
        obtain ⟨error, hfailed⟩ | ⟨next, hnext, hbooks, hwrite⟩ :=
          RelayLoop.receive_books hreceive
        · contradiction
        · cases hnext
          rw [hmanifest] at hwrite
          exact ⟨by rw [hbooks]; exact hmanifest, hwrite⟩
      next => contradiction

theorem holds_of_reachable
    (hreach : (machine read decode outputDir manifest initial).Reachable s) :
    s.Holds read manifest := by
  apply hreach.invariant
  · rintro s₀ ⟨_, state, _, _, hreceiver⟩ loop hloop
    rw [hreceiver] at hloop
    cases hloop
    refine ⟨rfl, ?_⟩
    intro index plaintext hwrite
    obtain ⟨hhead, _⟩ | hhead := RelayLoop.toHead_cases
      ⟨.start outputDir manifest state, .head⟩
    · rw [RelayLoop.start, hhead] at hwrite
      contradiction
    · rw [RelayLoop.start, hhead] at hwrite
      contradiction
  · exact fun u event v hu hnext => holds_next hu hnext

theorem exact_start (hconsistent : manifest.Consistent)
    (hinside : initial ⊆ Finset.range manifest.chunkCount)
    (hstart : (machine read decode outputDir manifest initial).start s) :
    s.Exact read manifest initial := by
  obtain ⟨haccepted, state, hmanifest, hinitial, hreceiver⟩ := hstart
  unfold Exact
  rw [hreceiver, haccepted]
  have hpending : state.missingChunks.toFinset =
      Finset.range manifest.chunkCount \ initial := by
    ext index
    simp [hmanifest, hinitial]
  have hexact : BooksExact read manifest initial [] initial
      state.missingChunks.toFinset (initialDone manifest state) :=
    booksExact_start hconsistent.within hinside hpending (by
      rw [initialDone, hinitial])
  rw [← hinitial] at hexact ⊢
  exact hexact

theorem written_of_not_write {loop : RelayLoop} (output : ReceiverOutput)
    (hwrite : ∀ index plaintext, loop.pc ≠ .write index plaintext) :
    written loop output = [] := by
  have hholding : loop.holding = none := by
    unfold RelayLoop.holding
    split
    next index plaintext hpc => exact absurd hpc (hwrite index plaintext)
    next => rfl
  unfold written
  split
  · rw [hholding]
    rfl
  · rfl

/-- A step of the loop's own keeps the books exactly when it writes no chunk
twice and none that is not counted. -/
theorem exact_proceed_iff (hconsistent : manifest.Consistent)
    (hholds : s.Holds read manifest) (hexact : s.Exact read manifest initial)
    {loop : RelayLoop} (hstate : s.receiver = .loop loop)
    {receiver : RelayReceiver} {output : ReceiverOutput}
    (hproceed : loop.proceed = some (receiver, output)) :
    Exact read manifest initial ⟨receiver, s.accepted ++ written loop output⟩ ↔
      s.WritesPending (.receiver .proceed) := by
  unfold Exact at hexact
  rw [hstate] at hexact
  obtain ⟨hmanifest, hheld⟩ := hholds loop hstate
  obtain ⟨index, plaintext, hpc, rfl, rfl⟩ | ⟨hpc, hother⟩ :=
    RelayLoop.proceed_books hproceed
  · obtain ⟨hlength, hdecrypts⟩ := hheld index plaintext hpc
    have hwritten : written loop (.file (loop.books.writeOp index plaintext)) =
        [(index, plaintext)] := by
      simp [written, Books.writeOp, RelayLoop.holding, hpc]
    have hrecord := booksExact_record_iff hconsistent.within hexact hlength hdecrypts
    unfold Exact
    rw [hwritten]
    refine hrecord.trans ⟨?_, ?_⟩
    · intro hpending loop' index' plaintext' hstate' hpc'
      rw [hstate] at hstate'
      cases hstate'
      rw [hpc] at hpc'
      cases hpc'
      exact hpending
    · intro hwrites
      exact hwrites loop index plaintext hstate hpc
  · have hwrites : s.WritesPending (.receiver .proceed) := by
      intro loop' index plaintext hstate' hpc'
      rw [hstate] at hstate'
      cases hstate'
      exact absurd hpc' (hpc index plaintext)
    rw [written_of_not_write output hpc, List.append_nil]
    refine iff_of_true ?_ hwrites
    obtain ⟨next, rfl, hbooks, _⟩ | rfl := hother
    · unfold Exact
      dsimp only
      rw [hbooks]
      exact hexact
    · exact hexact

theorem exact_next_iff (hconsistent : manifest.Consistent)
    (hholds : s.Holds read manifest) (hexact : s.Exact read manifest initial)
    {event : RelayReceiverEvent}
    (hnext : s.next read decode outputDir event = some t) :
    t.Exact read manifest initial ↔ s.WritesPending event := by
  cases event with
  | receiver event =>
      simp only [next] at hnext
      split at hnext
      next loop hstate =>
        obtain ⟨⟨receiver, output⟩, hstep, rfl⟩ :=
          Option.map_eq_some_iff.mp hnext
        cases event with
        | proceed =>
            exact exact_proceed_iff hconsistent hholds hexact hstate hstep
        | fail error effect =>
            obtain ⟨hproceed, _⟩ | ⟨error', rfl⟩ := Receiver.step_loop hstep
            · contradiction
            · exact iff_of_true trivial trivial
        | received result => contradiction
        | lookup pathExists files => contradiction
      next => contradiction
  | message input =>
      simp only [next] at hnext
      split at hnext
      next loop hstate =>
        obtain ⟨⟨receiver, rest⟩, hreceive, rfl⟩ :=
          Option.map_eq_some_iff.mp hnext
        unfold Exact at hexact
        rw [hstate] at hexact
        refine iff_of_true ?_ trivial
        obtain ⟨error, rfl⟩ | ⟨next, rfl, hbooks, _⟩ :=
          RelayLoop.receive_books hreceive
        · trivial
        · unfold Exact
          dsimp only
          rw [hbooks]
          exact hexact
      next => contradiction

end RelayBooksRun

/-- The books of the relay receiver are exact throughout a run exactly when each
chunk it writes is still pending. -/
theorem relay_books_exact_iff {manifest : FileManifest}
    (hconsistent : manifest.Consistent) {initial : Finset ℕ}
    (hinside : initial ⊆ Finset.range manifest.chunkCount)
    (read : ℕ → Bytes → Option Bytes) (decode : Bytes → Option ControlMessage)
    (outputDir : PathResolution.RawPath)
    {history : List (RelayBooksRun × RelayReceiverEvent)} {s : RelayBooksRun}
    (hexec : (RelayBooksRun.machine read decode outputDir manifest
      initial).Execution history s) :
    Machine.Throughout (RelayBooksRun.Exact read manifest initial) history s ↔
      ∀ entry ∈ history, entry.1.WritesPending entry.2 := by
  apply hexec.throughout_iff
  · intro s₀ hstart
    exact RelayBooksRun.exact_start hconsistent hinside hstart
  · intro u event v hreach hu hnext
    exact RelayBooksRun.exact_next_iff hconsistent
      (RelayBooksRun.holds_of_reachable hreach) hu hnext

/-! ## A file of exactly one chunk -/

def fullChunkSource : ManifestSource where
  totalSize := 524288
  filename := "a"
  sessionId := List.replicate 20 7
  createdAt := 0
  totalSize_lt := by norm_num
  sessionId_length := length_sampleId

theorem fullChunkSource_consistent :
    (buildManifest fullChunkSource).Consistent :=
  buildManifest_consistent (by decide +kernel)

def fullChunkStart : RelayBooksRun where
  receiver := .loop (.start (.start ['d'] (buildManifest fullChunkSource)
    (.new (buildManifest fullChunkSource) ['d', '/', 'a'])))
  accepted := []

/-- The relay sends a frame for the chunk after the last, without a
sub-message. -/
def emptyChunkRun : Option RelayBooksRun :=
  (RelayBooksRun.machine tagRead rmpSerde.decode ['d']
      (buildManifest fullChunkSource) ∅).runFrom fullChunkStart
    [.message (1 :: (Frame.mk 1 []).bytes), .receiver .proceed]

def RelayBooksRun.done (s : RelayBooksRun) : Finset ℕ :=
  match s.receiver with
  | .loop loop => loop.books.state.chunksDone
  | _ => ∅

theorem emptyChunkRun_done : emptyChunkRun.map RelayBooksRun.done = some {1} := by
  decide +kernel

theorem fullChunkStart_start :
    (RelayBooksRun.machine tagRead rmpSerde.decode ['d']
      (buildManifest fullChunkSource) ∅).start fullChunkStart :=
  ⟨rfl, _, rfl, rfl, rfl⟩

/-- Chunk 1 of a file of one chunk is done, and nothing was decrypted. -/
theorem relay_books_not_exact :
    ∃ s, (RelayBooksRun.machine tagRead rmpSerde.decode ['d']
        (buildManifest fullChunkSource) ∅).Reachable s ∧
      ¬ s.Exact tagRead (buildManifest fullChunkSource) ∅ := by
  obtain ⟨s, hs, hdone⟩ := Option.map_eq_some_iff.mp emptyChunkRun_done
  refine ⟨s, Machine.Reachable.of_runFrom fullChunkStart_start hs, ?_⟩
  intro hexact
  unfold RelayBooksRun.done at hdone
  unfold RelayBooksRun.Exact at hexact
  split at hexact
  next loop hstate =>
    rw [hstate] at hdone
    dsimp only at hdone
    have hinside := hexact.inside
    rw [hdone] at hinside
    exact absurd hinside (by decide +kernel)
  next books hstate =>
    rw [hstate] at hdone
    exact absurd hdone.symm (Finset.singleton_ne_empty 1)
  next setup hstate =>
    rw [hstate] at hdone
    exact absurd hdone.symm (Finset.singleton_ne_empty 1)
  next error hstate =>
    rw [hstate] at hdone
    exact absurd hdone.symm (Finset.singleton_ne_empty 1)

theorem relay_books_exact_sample :
    ∃ s history, emptyChunkRun = some s ∧
      (RelayBooksRun.machine tagRead rmpSerde.decode ['d']
        (buildManifest fullChunkSource) ∅).Execution history s ∧
      (Machine.Throughout (RelayBooksRun.Exact tagRead
          (buildManifest fullChunkSource) ∅) history s ↔
        ∀ entry ∈ history, entry.1.WritesPending entry.2) := by
  obtain ⟨s, hs, _⟩ := Option.map_eq_some_iff.mp emptyChunkRun_done
  obtain ⟨history, hexec⟩ :=
    (Machine.Reachable.of_runFrom fullChunkStart_start hs).execution
  exact ⟨s, history, hs, hexec, relay_books_exact_iff fullChunkSource_consistent
    (Finset.empty_subset _) tagRead rmpSerde.decode ['d'] hexec⟩

end P2pShare
