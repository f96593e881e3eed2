import P2pShare.ChunkTiling
import P2pShare.HostileTransport

/-!
# Chunk indices that come from the peer

`actual_chunk_size` subtracts the offset of a chunk from the length of the file.
The senders apply it to the indices of a `ResumeRequest` and of a `ChunkNack`,
and the relay receiver to the index in the header of a chunk it has decrypted.
-/

namespace P2pShare

open ByteStream TransitionMachine

namespace FileManifest

/-- The numbers of the manifest fit together as `build_manifest` makes them. -/
structure Consistent (manifest : FileManifest) : Prop where
  chunkSize : 0 < manifest.chunkSize
  chunkCount : manifest.chunkCount = manifest.totalSize ⌈/⌉ manifest.chunkSize

/-- A chunk the manifest counts, or the index after the last of them where that
one is full. -/
def InRange (manifest : FileManifest) (index : ℕ) : Prop :=
  index < manifest.chunkCount ∨
    index = manifest.chunkCount ∧ manifest.chunkSize ∣ manifest.totalSize

variable {manifest : FileManifest}

theorem Consistent.lt_chunkCount_iff (hconsistent : manifest.Consistent)
    (index : ℕ) :
    index < manifest.chunkCount ↔
      manifest.offset index < manifest.totalSize := by
  have hle := ceilDiv_le_iff_le_smul (a := manifest.chunkSize)
    (b := manifest.totalSize) (c := index) hconsistent.chunkSize
  rw [smul_eq_mul, Nat.mul_comm] at hle
  rw [hconsistent.chunkCount, ← Nat.not_le, hle, Nat.not_le]
  rfl

/-- The subtraction of `actual_chunk_size` stays in range for these indices. -/
theorem Consistent.inRange_iff (hconsistent : manifest.Consistent)
    (index : ℕ) :
    manifest.InRange index ↔ manifest.offset index ≤ manifest.totalSize := by
  have hcount := hconsistent.lt_chunkCount_iff
  unfold InRange
  constructor
  · rintro (hbelow | ⟨rfl, quotient, htotal⟩)
    · exact ((hcount index).mp hbelow).le
    · by_contra hpast
      have hlt : quotient < manifest.chunkCount := by
        by_contra hge
        have hle := manifest.offset_le_offset (Nat.le_of_not_lt hge)
        have heq : manifest.offset quotient = manifest.totalSize := by
          rw [htotal]
          exact Nat.mul_comm _ _
        omega
      have hbefore := (hcount quotient).mp hlt
      unfold offset at hbefore
      rw [htotal, Nat.mul_comm] at hbefore
      exact absurd hbefore (Nat.lt_irrefl _)
  · intro hle
    by_cases hlt : manifest.offset index < manifest.totalSize
    · exact Or.inl ((hcount index).mpr hlt)
    · have heq : manifest.offset index = manifest.totalSize := by omega
      refine Or.inr ⟨?_, index, ?_⟩
      · have hge : ¬ index < manifest.chunkCount := fun hbelow =>
          hlt ((hcount index).mp hbelow)
        have hnot : ¬ manifest.chunkCount < index := by
          intro hpast
          have hbefore : manifest.offset manifest.chunkCount <
              manifest.totalSize := by
            rw [← heq]
            exact Nat.mul_lt_mul_of_pos_right hpast hconsistent.chunkSize
          exact absurd ((hcount _).mpr hbefore) (Nat.lt_irrefl _)
        omega
      · rw [← heq]
        exact Nat.mul_comm _ _

end FileManifest

theorem buildManifest_consistent {source : ManifestSource}
    (hcount : source.totalSize ⌈/⌉ chunkSizeFor source.totalSize < 2 ^ 32) :
    (buildManifest source).Consistent where
  chunkSize := chunkSizeFor_pos source.totalSize
  chunkCount := Nat.mod_eq_of_lt hcount

/-! ## Who computes chunk sizes, and of which indices -/

/-- A party to a transfer: `sizes` lists the calls of `actual_chunk_size` in a
step, by manifest and index, and `credits` is the set of chunks whose sizes it
adds up to `initial_done`. -/
structure SizeParty (State Event : Type) where
  start : State → Prop
  step : State → Event → Option State
  sizes : State → Event → List (FileManifest × ℕ)
  credits : State → Event → Option (Finset ℕ)

structure SizeRun (State : Type) where
  party : State
  sized : List (FileManifest × ℕ)
  initialDone : ℕ

/-- No subtraction wrapped, and no more than the file was credited. -/
structure SizeRun.InBounds {State : Type} (manifest : FileManifest)
    (s : SizeRun State) : Prop where
  sized : ∀ call ∈ s.sized, call.1.offset call.2 ≤ call.1.totalSize
  credited : s.initialDone ≤ manifest.totalSize

namespace SizeParty

variable {State Event : Type} (party : SizeParty State Event)
  (manifest : FileManifest)

def credit (initialDone : ℕ) : Option (Finset ℕ) → ℕ
  | none => initialDone
  | some skip => skippedBytes manifest skip

def machine : Machine (SizeRun State) Event where
  start := fun s => party.start s.party ∧ s.sized = [] ∧ s.initialDone = 0
  next := fun s event =>
    (party.step s.party event).map fun next =>
      ⟨next, s.sized ++ party.sizes s.party event,
        credit manifest s.initialDone (party.credits s.party event)⟩

/-- The indices whose sizes the step computes are in range. -/
def Handles (s : SizeRun State) (event : Event) : Prop :=
  ∀ call ∈ party.sizes s.party event, call.1.InRange call.2

/-- Credited chunks are chunks whose sizes were computed. -/
def CreditsSized : Prop :=
  ∀ s event skip, party.credits s event = some skip →
    ∀ index ∈ skip, (manifest, index) ∈ party.sizes s event

variable {party manifest}

theorem inBounds_next_iff (hcredits : party.CreditsSized manifest)
    {s t : SizeRun State} {event : Event}
    (hconsistent : ∀ call ∈ party.sizes s.party event, call.1.Consistent)
    (hbefore : s.InBounds manifest)
    (hnext : (party.machine manifest).next s event = some t) :
    t.InBounds manifest ↔ party.Handles s event := by
  obtain ⟨next, _, rfl⟩ := Option.map_eq_some_iff.mp hnext
  constructor
  · intro hafter call hcall
    rw [(hconsistent call hcall).inRange_iff]
    exact hafter.sized call (List.mem_append_right _ hcall)
  · intro hhandles
    have hoffset : ∀ call ∈ party.sizes s.party event,
        call.1.offset call.2 ≤ call.1.totalSize := by
      intro call hcall
      rw [← (hconsistent call hcall).inRange_iff]
      exact hhandles call hcall
    constructor
    · intro call hcall
      obtain hold | hnew := List.mem_append.mp hcall
      · exact hbefore.sized call hold
      · exact hoffset call hnew
    · cases hskip : party.credits s.party event with
      | none => exact hbefore.credited
      | some skip =>
          apply FileManifest.sum_sizeOf_le
          intro index hindex
          exact hoffset _ (hcredits s.party event skip hskip index hindex)

theorem inBounds_iff (hcredits : party.CreditsSized manifest)
    (hconsistent : ∀ s event, (party.machine manifest).Reachable s →
      ∀ call ∈ party.sizes s.party event, call.1.Consistent)
    {history : List (SizeRun State × Event)} {s : SizeRun State}
    (hexec : (party.machine manifest).Execution history s) :
    Machine.Throughout (SizeRun.InBounds manifest) history s ↔
      ∀ entry ∈ history, party.Handles entry.1 entry.2 := by
  apply hexec.throughout_iff
  · rintro s₀ ⟨_, hsized, hdone⟩
    constructor
    · simp [hsized]
    · rw [hdone]
      exact Nat.zero_le _
  · intro u event v hreach hu hnext
    exact inBounds_next_iff hcredits (hconsistent u event hreach) hu hnext

end SizeParty

/-! ## The three parties -/

/-- `send_file_direct`.  `read_chunk` computes a size whether or not the read
then fails. -/
def directSenderParty (manifest : FileManifest) :
    SizeParty DirectSender SenderEvent where
  start := fun sender => sender = .openBi
  step := fun sender event => (sender.step manifest event).map Prod.fst
  sizes := fun sender event =>
    match sender, event with
    | .awaitReply, .received (.ok (.resumeRequest haveChunks)) =>
        haveChunks.map fun index => (manifest, index)
    | .transfer state, .read _ | .transfer state, .fail _ _ =>
        state.reading?.toList.map fun index => (manifest, index)
    | _, _ => []
  credits := fun sender event =>
    match sender, event with
    | .awaitReply, .received (.ok (.resumeRequest haveChunks)) =>
        some haveChunks.toFinset
    | _, _ => none

/-- The index whose chunk this loop of the relay sender is reading. -/
def Worker.reading? : Worker → Option ℕ
  | .reading index => some index
  | _ => none

/-- `send_file_relay`. -/
def relaySenderParty (manifest : FileManifest) :
    SizeParty RelaySender SenderEvent where
  start := fun sender => sender = .greet
  step := fun sender event => (sender.step manifest event).map Prod.fst
  sizes := fun sender event =>
    match sender, event with
    | .awaitReply, .received (.ok (.resumeRequest haveChunks)) =>
        haveChunks.map fun index => (manifest, index)
    | .transfer state, .read _ =>
        state.sendWorker.reading?.toList.map fun index => (manifest, index)
    | .transfer state, .ctrlRead _ =>
        state.ctrlWorker.reading?.toList.map fun index => (manifest, index)
    | .transfer state, .fail _ _ =>
        (state.sendWorker.reading?.toList ++
          state.ctrlWorker.reading?.toList).map fun index => (manifest, index)
    | _, _ => []
  credits := fun sender event =>
    match sender, event with
    | .awaitReply, .received (.ok (.resumeRequest haveChunks)) =>
        some haveChunks.toFinset
    | _, _ => none

inductive RelayReceiverEvent where
  | receiver (event : ReceiverEvent)
  | message (input : Bytes)

section RelayReceiver

variable (read : ℕ → Bytes → Option Bytes)
  (decode : Bytes → Option ControlMessage) (outputDir : PathResolution.RawPath)
  (manifest : FileManifest)

/-- The chunk whose size the receive loop checks: it was decrypted. -/
def RelayLoop.sizedIndex (loop : RelayLoop) (input : Bytes) : Option ℕ :=
  if loop.pc = .head then
    match recvMsg read decode input with
    | some (.ok (.chunk index ciphertext), _) =>
        match decryptChunk read index ciphertext with
        | .ok _ => some index
        | .error _ => none
    | _ => none
  else none

/-- The receive loop of `receive_file_relay`, from any books. -/
def relayReceiverParty : SizeParty RelayReceiver RelayReceiverEvent where
  start := fun receiver => ∃ books : Books, books.manifest = manifest ∧
    receiver = .loop (.start books)
  step := fun receiver event =>
    match receiver, event with
    | .loop loop, .receiver event =>
        ((Receiver.loop loop).step relayKind outputDir event).map Prod.fst
    | .loop loop, .message input =>
        (loop.receive read decode input).map Prod.fst
    | _, _ => none
  sizes := fun receiver event =>
    match receiver, event with
    | .loop loop, .message input =>
        (loop.sizedIndex read decode input).toList.map fun index =>
          (loop.books.manifest, index)
    | _, _ => []
  credits := fun _ _ => none

variable {read decode outputDir manifest}

/-- The receive loop computes with one manifest throughout. -/
theorem relayReceiverParty_manifest {s : SizeRun RelayReceiver}
    (hreach : ((relayReceiverParty read decode outputDir manifest).machine
      manifest).Reachable s) :
    ∀ loop, s.party = .loop loop →
      loop.Regular ∧ loop.books.manifest = manifest := by
  apply hreach.invariant
  · rintro s₀ ⟨⟨books, hmanifest, hparty⟩, _⟩ loop hloop
    rw [hparty] at hloop
    cases hloop
    exact ⟨RelayLoop.toHead_regular _, hmanifest⟩
  · intro u event v hu hnext loop hloop
    obtain ⟨receiver, hstep, rfl⟩ := Option.map_eq_some_iff.mp hnext
    dsimp only at hloop
    subst hloop
    simp only [relayReceiverParty] at hstep
    split at hstep
    next before event hparty =>
      obtain ⟨hregular, hmanifest⟩ := hu before hparty
      obtain ⟨⟨receiver, output⟩, hreceiver, hresult⟩ :=
        Option.map_eq_some_iff.mp hstep
      dsimp only at hresult
      subst hresult
      obtain ⟨_, hproceed⟩ | ⟨error, hfailed⟩ := Receiver.step_loop hreceiver
      · obtain ⟨next, hnext, _, hfacts⟩ | ⟨_, hreturned, _⟩ :=
          RelayLoop.proceed_cases hregular hproceed
        · cases hnext
          exact ⟨hfacts.regular, hfacts.manifest.trans hmanifest⟩
        · contradiction
      · contradiction
    next before input hparty =>
      obtain ⟨hregular, hmanifest⟩ := hu before hparty
      obtain ⟨⟨receiver, rest⟩, hreceive, hresult⟩ :=
        Option.map_eq_some_iff.mp hstep
      dsimp only at hresult
      subst hresult
      obtain ⟨error, hfailed⟩ | ⟨next, hnext, _, hfacts⟩ :=
        RelayLoop.receive_cases hreceive
      · contradiction
      · cases hnext
        exact ⟨hfacts.regular, hfacts.manifest.trans hmanifest⟩
    next => contradiction

end RelayReceiver

/-! ## Results -/

theorem directSenderParty_sizes {manifest : FileManifest}
    {sender : DirectSender} {event : SenderEvent} {call : FileManifest × ℕ}
    (hcall : call ∈ (directSenderParty manifest).sizes sender event) :
    call.1 = manifest := by
  simp only [directSenderParty] at hcall
  split at hcall
  · obtain ⟨index, _, rfl⟩ := List.mem_map.mp hcall
    rfl
  · obtain ⟨index, _, rfl⟩ := List.mem_map.mp hcall
    rfl
  · obtain ⟨index, _, rfl⟩ := List.mem_map.mp hcall
    rfl
  · contradiction

theorem relaySenderParty_sizes {manifest : FileManifest}
    {sender : RelaySender} {event : SenderEvent} {call : FileManifest × ℕ}
    (hcall : call ∈ (relaySenderParty manifest).sizes sender event) :
    call.1 = manifest := by
  simp only [relaySenderParty] at hcall
  split at hcall
  · obtain ⟨index, _, rfl⟩ := List.mem_map.mp hcall
    rfl
  · obtain ⟨index, _, rfl⟩ := List.mem_map.mp hcall
    rfl
  · obtain ⟨index, _, rfl⟩ := List.mem_map.mp hcall
    rfl
  · obtain ⟨index, _, rfl⟩ := List.mem_map.mp hcall
    rfl
  · contradiction

theorem directSenderParty_creditsSized (manifest : FileManifest) :
    (directSenderParty manifest).CreditsSized manifest := by
  intro sender event skip hskip index hindex
  simp only [directSenderParty] at hskip
  split at hskip
  next haveChunks =>
    cases hskip
    exact List.mem_map_of_mem (List.mem_toFinset.mp hindex)
  next => contradiction

theorem relaySenderParty_creditsSized (manifest : FileManifest) :
    (relaySenderParty manifest).CreditsSized manifest := by
  intro sender event skip hskip index hindex
  simp only [relaySenderParty] at hskip
  split at hskip
  next haveChunks =>
    cases hskip
    exact List.mem_map_of_mem (List.mem_toFinset.mp hindex)
  next => contradiction

/-- In a run of a sender or of the relay receiver no subtraction wraps, and no
more than the file is credited, exactly when each index a size is computed for
is in range. -/
theorem peer_indices_iff {manifest : FileManifest}
    (hconsistent : manifest.Consistent) (read : ℕ → Bytes → Option Bytes)
    (decode : Bytes → Option ControlMessage)
    (outputDir : PathResolution.RawPath) :
    (∀ history s,
      ((directSenderParty manifest).machine manifest).Execution history s →
        (Machine.Throughout (SizeRun.InBounds manifest) history s ↔
          ∀ entry ∈ history,
            (directSenderParty manifest).Handles entry.1 entry.2)) ∧
      (∀ history s,
        ((relaySenderParty manifest).machine manifest).Execution history s →
          (Machine.Throughout (SizeRun.InBounds manifest) history s ↔
            ∀ entry ∈ history,
              (relaySenderParty manifest).Handles entry.1 entry.2)) ∧
      ∀ history s,
        ((relayReceiverParty read decode outputDir manifest).machine
          manifest).Execution history s →
          (Machine.Throughout (SizeRun.InBounds manifest) history s ↔
            ∀ entry ∈ history,
              (relayReceiverParty read decode outputDir manifest).Handles
                entry.1 entry.2) := by
  refine ⟨?_, ?_, ?_⟩
  · intro history s hexec
    apply SizeParty.inBounds_iff (directSenderParty_creditsSized manifest) _ hexec
    intro t event _ call hcall
    rw [directSenderParty_sizes hcall]
    exact hconsistent
  · intro history s hexec
    apply SizeParty.inBounds_iff (relaySenderParty_creditsSized manifest) _ hexec
    intro t event _ call hcall
    rw [relaySenderParty_sizes hcall]
    exact hconsistent
  · intro history s hexec
    have hcredits : (relayReceiverParty read decode outputDir
        manifest).CreditsSized manifest := by
      intro _ _ _ hskip
      contradiction
    apply SizeParty.inBounds_iff hcredits _ hexec
    intro t event hreach call hcall
    simp only [relayReceiverParty] at hcall
    split at hcall
    next loop input hparty =>
      obtain ⟨index, _, rfl⟩ := List.mem_map.mp hcall
      rw [(relayReceiverParty_manifest hreach loop hparty).2]
      exact hconsistent
    next => contradiction

/-! ## Indices past the end of a file of three bytes -/

theorem sampleSource_consistent : (buildManifest sampleSource).Consistent :=
  buildManifest_consistent (by decide +kernel)

def SizeRun.fresh {State : Type} (party : State) : SizeRun State :=
  ⟨party, [], 0⟩

theorem SizeParty.start_fresh {State Event : Type}
    {party : SizeParty State Event} {state : State} (manifest : FileManifest)
    (hstart : party.start state) :
    (party.machine manifest).start (.fresh state) :=
  ⟨hstart, rfl, rfl⟩

theorem directSenderParty_start (manifest : FileManifest) :
    (directSenderParty manifest).start .openBi :=
  rfl

theorem relaySenderParty_start (manifest : FileManifest) :
    (relaySenderParty manifest).start .greet :=
  rfl

/-- A resume request for chunk 7. -/
def resumedPastTheEnd : Option (SizeRun DirectSender) :=
  ((directSenderParty (buildManifest sampleSource)).machine
      (buildManifest sampleSource)).runFrom (.fresh .openBi)
    [.proceed, .received (.ok (.resumeRequest [7]))]

/-- A NACK for chunk 7. -/
def nackedPastTheEnd : Option (SizeRun RelaySender) :=
  ((relaySenderParty (buildManifest sampleSource)).machine
      (buildManifest sampleSource)).runFrom (.fresh .greet)
    [.proceed, .received (.ok .manifestAck), .received (.ok (.chunkNack 7)),
      .ctrlRead [1, 2, 3]]

def sampleBooks : Books :=
  .start ['d'] (buildManifest sampleSource)
    (.new (buildManifest sampleSource) ['d', '/', 'a'])

/-- A chunk message for chunk 7, with no sub-message. -/
def headerPastTheEnd : Option (SizeRun RelayReceiver) :=
  ((relayReceiverParty tagRead rmpSerde.decode ['d']
        (buildManifest sampleSource)).machine
      (buildManifest sampleSource)).runFrom (.fresh (.loop (.start sampleBooks)))
    [.message (1 :: (Frame.mk 7 []).bytes)]

/-- A size was computed whose subtraction wraps. -/
def SizeRun.wrapped {State : Type} (s : SizeRun State) : Bool :=
  s.sized.any fun call => decide (call.1.totalSize < call.1.offset call.2)

theorem SizeRun.not_inBounds_of_wrapped {State : Type} {s : SizeRun State}
    (manifest : FileManifest) (hwrapped : s.wrapped = true) :
    ¬ s.InBounds manifest := by
  intro hbounds
  obtain ⟨call, hcall, hpast⟩ := List.any_eq_true.mp hwrapped
  have hle := hbounds.sized call hcall
  simp only [decide_eq_true_eq] at hpast
  omega

theorem resumedPastTheEnd_wrapped :
    resumedPastTheEnd.map (fun s => (s.wrapped, s.initialDone)) =
      some (true, 524288) := by
  decide +kernel

theorem nackedPastTheEnd_wrapped :
    nackedPastTheEnd.map SizeRun.wrapped = some true := by
  decide +kernel

theorem headerPastTheEnd_wrapped :
    headerPastTheEnd.map SizeRun.wrapped = some true := by
  decide +kernel

/-- The subtraction wraps on an index of each of the three kinds. -/
theorem peer_indices_wrap :
    (∃ s, ((directSenderParty (buildManifest sampleSource)).machine
          (buildManifest sampleSource)).Reachable s ∧
        ¬ s.InBounds (buildManifest sampleSource)) ∧
      (∃ s, ((relaySenderParty (buildManifest sampleSource)).machine
            (buildManifest sampleSource)).Reachable s ∧
          ¬ s.InBounds (buildManifest sampleSource)) ∧
      ∃ s, ((relayReceiverParty tagRead rmpSerde.decode ['d']
            (buildManifest sampleSource)).machine
            (buildManifest sampleSource)).Reachable s ∧
          ¬ s.InBounds (buildManifest sampleSource) := by
  obtain ⟨s, hs, hwrapped⟩ :=
    Option.map_eq_some_iff.mp resumedPastTheEnd_wrapped
  obtain ⟨t, ht, hwrapped'⟩ :=
    Option.map_eq_some_iff.mp nackedPastTheEnd_wrapped
  obtain ⟨u, hu, hwrapped''⟩ :=
    Option.map_eq_some_iff.mp headerPastTheEnd_wrapped
  have hstart := SizeParty.start_fresh (buildManifest sampleSource)
    (directSenderParty_start (buildManifest sampleSource))
  have hstart' := SizeParty.start_fresh (buildManifest sampleSource)
    (relaySenderParty_start (buildManifest sampleSource))
  refine ⟨⟨s, Machine.Reachable.of_runFrom hstart hs, ?_⟩,
    ⟨t, Machine.Reachable.of_runFrom hstart' ht, ?_⟩,
    u, Machine.Reachable.of_runFrom ⟨⟨sampleBooks, rfl, rfl⟩, rfl, rfl⟩ hu, ?_⟩
  · exact SizeRun.not_inBounds_of_wrapped _ (congrArg Prod.fst hwrapped)
  · exact SizeRun.not_inBounds_of_wrapped _ hwrapped'
  · exact SizeRun.not_inBounds_of_wrapped _ hwrapped''

theorem peer_indices_sample :
    ∃ s history, resumedPastTheEnd = some s ∧
      ((directSenderParty (buildManifest sampleSource)).machine
        (buildManifest sampleSource)).Execution history s ∧
      (Machine.Throughout (SizeRun.InBounds (buildManifest sampleSource))
          history s ↔
        ∀ entry ∈ history, (directSenderParty
          (buildManifest sampleSource)).Handles entry.1 entry.2) := by
  obtain ⟨s, hs, _⟩ := Option.map_eq_some_iff.mp resumedPastTheEnd_wrapped
  have hreach := Machine.Reachable.of_runFrom
    (SizeParty.start_fresh (buildManifest sampleSource)
      (directSenderParty_start (buildManifest sampleSource))) hs
  obtain ⟨history, hexec⟩ := hreach.execution
  exact ⟨s, history, hs, hexec, (peer_indices_iff sampleSource_consistent tagRead
    rmpSerde.decode ['d']).1 history s hexec⟩

end P2pShare
