import P2pShare.FrameDecoding
import P2pShare.ResumeRequests

/-!
# Chunks on the data stream

What the direct receiver reads from the frames that `encode_chunk_frame`
makes, and how its sub-message loop compares with `decrypt_chunk` of the two
sessions.
-/

namespace P2pShare

open ByteStream

/-! ## Frame after frame -/

/-- One pass of the frame loop: what was read, and how many bytes it took. -/
structure Pass where
  result : Except Error FrameRead
  consumed : ℕ

/-- `count` passes of the frame loop.  `books` holds the pending chunks and the
progress counter at each pass, the first of them being number `pass`. -/
def readPasses (read : ℕ → Bytes → Option Bytes) (manifest : FileManifest)
    (books : ℕ → Finset ℕ × ℕ) : ℕ → ℕ → Bytes → Option (List Pass × Bytes)
  | 0, _, input => some ([], input)
  | count + 1, pass, input =>
      (readParts read manifest (books pass).1 (books pass).2 input).bind
        fun (result, rest) =>
          (readPasses read manifest books count (pass + 1) rest).map
            fun (passes, rest') =>
              (⟨result, input.length - rest.length⟩ :: passes, rest')

/-- What a frame leaves when every sub-message was read. -/
def readWhole (bytesDone index : ℕ) (plaintext : Bytes) (payloadLen : ℕ) :
    Pass where
  result := .ok ⟨index, payloadLen,
    ⟨plaintext, false, plaintext.length, bytesDone + plaintext.length⟩⟩
  consumed := 8 + payloadLen

def framePayloadLen (noise : Noise) (chunk : ℕ × Bytes) : ℕ :=
  (payload (subCiphertexts noise chunk.1 chunk.2)).length

/-- The frames of the chunks, one after another. -/
def encodeChunkFrames (noise : Noise) (chunks : List (ℕ × Bytes)) :
    Option Bytes :=
  (chunks.mapM fun (index, plaintext) =>
    encodeChunkFrame noise index plaintext).map List.flatten

section RoundTrip

variable {noise : Noise} {read : ℕ → Bytes → Option Bytes}

/-- Sub-messages that are read under their nonces add up. -/
theorem takeSubs_cipher
    (hread : ∀ nonce plain, read nonce (noise.cipher nonce plain) = some plain)
    (index : ℕ) (plains : List Bytes) (subIndex : ℕ) {state : SubState}
    (hok : state.decryptFailed = false) :
    takeSubs read index true subIndex
        (plains.mapIdx fun offset plain =>
          noise.cipher (chunkNonce index (subIndex + offset)) plain) state =
      ⟨state.plaintext ++ plains.flatten, false,
        state.advanced + plains.flatten.length,
        state.bytesDone + plains.flatten.length⟩ := by
  induction plains generalizing subIndex state with
  | nil =>
      cases state with
      | mk plaintext decryptFailed advanced bytesDone =>
          subst hok
          simp [takeSubs]
  | cons plain plains ih =>
      have hshift : (fun (offset : ℕ) (plain : Bytes) =>
          noise.cipher (chunkNonce index (subIndex + (offset + 1))) plain) =
          fun offset plain =>
            noise.cipher (chunkNonce index (subIndex + 1 + offset)) plain := by
        funext offset plain
        rw [Nat.add_right_comm, Nat.add_assoc]
      have htake : state.take read index true subIndex
          (noise.cipher (chunkNonce index (subIndex + 0)) plain) =
          { state with
            plaintext := state.plaintext ++ plain
            advanced := state.advanced + plain.length
            bytesDone := state.bytesDone + plain.length } := by
        simp [SubState.take, hok, hread]
      have hok' : (state.take read index true subIndex
          (noise.cipher (chunkNonce index (subIndex + 0)) plain)).decryptFailed =
            false := by
        rw [htake]
        exact hok
      rw [List.mapIdx_cons, takeSubs, hshift, ih (subIndex + 1) hok', htake]
      simp only [List.flatten_cons, List.append_assoc, List.length_append,
        Nat.add_assoc]

theorem takeSubs_subCiphertexts
    (hread : ∀ nonce plain, read nonce (noise.cipher nonce plain) = some plain)
    (index bytesDone : ℕ) (plaintext : Bytes) :
    takeSubs read index true 0 (subCiphertexts noise index plaintext)
        (.initial bytesDone) =
      ⟨plaintext, false, plaintext.length, bytesDone + plaintext.length⟩ := by
  have hsubs : subCiphertexts noise index plaintext =
      (pieces maxPlain plaintext).mapIdx fun offset plain =>
        noise.cipher (chunkNonce index (0 + offset)) plain := by
    apply List.ext_getElem?
    intro offset
    simp [subCiphertexts, sealedChunk, Noise.sealed, Function.comp_def]
  rw [hsubs, takeSubs_cipher hread index _ 0 rfl,
    flatten_pieces (by norm_num [maxPlain])]
  simp [SubState.initial]

/-- One frame, and whatever follows it. -/
theorem readParts_encoded
    (hread : ∀ nonce plain, read nonce (noise.cipher nonce plain) = some plain)
    (source : ManifestSource) {pending : Finset ℕ} (bytesDone : ℕ) {index : ℕ}
    {plaintext : Bytes} (hindex : index < 2 ^ 32)
    (hlength : plaintext.length ≤ (buildManifest source).chunkSize)
    (hpending : index ∈ pending) (rest : Bytes) :
    readParts read (buildManifest source) pending bytesDone
        ((chunkFrame noise index plaintext).bytes ++ rest) =
      some ((readWhole bytesDone index plaintext
        (framePayloadLen noise (index, plaintext))).result, rest) := by
  have hframed := chunkFrame_wellFramed noise source hindex hlength
  have hmem : decide ((chunkFrame noise index plaintext).index ∈ pending) =
      true := decide_eq_true hpending
  rw [readParts_bytes read pending bytesDone hframed, hmem]
  simp only [chunkFrame, takeSubs_subCiphertexts hread]
  rfl

theorem length_chunkFrame_bytes (noise : Noise) (index : ℕ)
    (plaintext : Bytes) :
    (chunkFrame noise index plaintext).bytes.length =
      8 + framePayloadLen noise (index, plaintext) := by
  simp [Frame.bytes, chunkFrame, framePayloadLen]
  omega

theorem encodeChunkFrames_eq (noise : Noise) (chunks : List (ℕ × Bytes)) :
    encodeChunkFrames noise chunks =
      some (chunks.flatMap fun chunk =>
        (chunkFrame noise chunk.1 chunk.2).bytes) := by
  have hframes : chunks.mapM (fun chunk =>
      encodeChunkFrame noise chunk.1 chunk.2) =
      some (chunks.map fun chunk => (chunkFrame noise chunk.1 chunk.2).bytes) := by
    induction chunks with
    | nil => rfl
    | cons chunk chunks ih =>
        rw [List.mapM_cons, ih]
        simp only [encodeChunkFrame_eq]
        rfl
  unfold encodeChunkFrames
  rw [hframes, Option.map_some, List.flatMap_def]

theorem readPasses_encoded
    (hread : ∀ nonce plain, read nonce (noise.cipher nonce plain) = some plain)
    (source : ManifestSource) (books : ℕ → Finset ℕ × ℕ) (pass : ℕ)
    {chunks : List (ℕ × Bytes)}
    (hindex : ∀ chunk ∈ chunks, chunk.1 < 2 ^ 32)
    (hlength : ∀ chunk ∈ chunks,
      chunk.2.length ≤ (buildManifest source).chunkSize)
    (hpending : ∀ offset chunk, chunks[offset]? = some chunk →
      chunk.1 ∈ (books (pass + offset)).1)
    (rest : Bytes) :
    readPasses read (buildManifest source) books chunks.length pass
        ((chunks.flatMap fun chunk =>
          (chunkFrame noise chunk.1 chunk.2).bytes) ++ rest) =
      some (chunks.mapIdx fun offset chunk =>
        readWhole (books (pass + offset)).2 chunk.1 chunk.2
          (framePayloadLen noise chunk), rest) := by
  induction chunks generalizing pass with
  | nil => rfl
  | cons chunk chunks ih =>
      obtain ⟨index, plaintext⟩ := chunk
      let later : Bytes := chunks.flatMap fun chunk =>
        (chunkFrame noise chunk.1 chunk.2).bytes
      have hfirst : index ∈ (books pass).1 :=
        hpending 0 (index, plaintext) rfl
      have hparts := readParts_encoded hread source (books pass).2
        (hindex (index, plaintext) List.mem_cons_self)
        (hlength (index, plaintext) List.mem_cons_self) hfirst (later ++ rest)
      have hconsumed : ((chunkFrame noise index plaintext).bytes ++
          (later ++ rest)).length - (later ++ rest).length =
            8 + framePayloadLen noise (index, plaintext) := by
        rw [List.length_append, Nat.add_sub_cancel, length_chunkFrame_bytes]
      have hshift : ∀ offset, pass + 1 + offset = pass + (offset + 1) := by
        intro offset
        omega
      have hothers := ih (pass + 1)
        (fun other hother => hindex other (List.mem_cons_of_mem _ hother))
        (fun other hother => hlength other (List.mem_cons_of_mem _ hother))
        (fun offset other hother => by
          rw [hshift]
          exact hpending (offset + 1) other hother)
      rw [List.length_cons, readPasses, List.flatMap_cons, List.append_assoc,
        hparts,
        Option.bind_some]
      dsimp only
      rw [hothers, Option.map_some, hconsumed, List.mapIdx_cons]
      simp only [hshift, Nat.add_zero]
      rfl

end RoundTrip

/-- The frames of any chunks are made, and each is read back: with its index and
its plaintext, from exactly the bytes of its header and its payload. -/
theorem chunk_stream_round_trip (noise : Noise)
    (read : ℕ → Bytes → Option Bytes)
    (hread : ∀ nonce plain, read nonce (noise.cipher nonce plain) = some plain)
    (source : ManifestSource) (books : ℕ → Finset ℕ × ℕ)
    (chunks : List (ℕ × Bytes)) (hindex : ∀ chunk ∈ chunks, chunk.1 < 2 ^ 32)
    (hlength : ∀ chunk ∈ chunks, 1 ≤ chunk.2.length ∧
      chunk.2.length ≤ chunkSizeFor source.totalSize)
    (hpending : ∀ pass chunk, chunks[pass]? = some chunk →
      chunk.1 ∈ (books pass).1) (rest : Bytes) :
    ∃ stream, encodeChunkFrames noise chunks = some stream ∧
      readPasses read (buildManifest source) books chunks.length 0
          (stream ++ rest) =
        some (chunks.mapIdx fun pass chunk =>
          readWhole (books pass).2 chunk.1 chunk.2
            (framePayloadLen noise chunk), rest) := by
  refine ⟨_, encodeChunkFrames_eq noise chunks, ?_⟩
  have hpasses := readPasses_encoded hread source books 0 hindex
    (fun chunk hchunk => (hlength chunk hchunk).2)
    (fun pass chunk hchunk => by
      rw [Nat.zero_add]
      exact hpending pass chunk hchunk) rest
  simpa only [Nat.zero_add] using hpasses

theorem chunk_stream_round_trip_sample :
    ∃ stream,
      encodeChunkFrames lookupNoise [(0, [1, 2, 3]), (4294967295, [4])] =
        some stream ∧
      readPasses tagRead (buildManifest sampleSource)
          (fun _ => ({0, 4294967295}, 0)) 2 0 (stream ++ [9]) =
        some ([(0, [1, 2, 3]), (4294967295, [4])].mapIdx fun _ chunk =>
          readWhole 0 chunk.1 chunk.2 (framePayloadLen lookupNoise chunk),
          [9]) :=
  chunk_stream_round_trip lookupNoise tagRead tagRead_lookupNoise sampleSource
    (fun _ => ({0, 4294967295}, 0)) [(0, [1, 2, 3]), (4294967295, [4])]
    (by decide) (by decide)
    (by
      intro pass chunk hchunk
      have hmem := List.mem_of_getElem? hchunk
      simp only [List.mem_cons, List.not_mem_nil, or_false] at hmem
      obtain rfl | rfl := hmem
      · decide
      · decide)
    [9]

/-! ## The three decoders

`readPayload` is the part of the frame loop between the header and the checks
at its end. -/

def readPayload (read : ℕ → Bytes → Option Bytes) (pending : Finset ℕ)
    (bytesDone chunkIndex : ℕ) (input : Bytes) :
    Option (Except Error SubState × Bytes) :=
  (readBe 2 input).bind fun (subCount, input) =>
    readSubs read chunkIndex (decide (chunkIndex ∈ pending)) subCount 0
      (.initial bytesDone) input

/-- `PeerSession::decrypt_chunk`. -/
def PeerSession.decryptChunk (read : ℕ → Bytes → Option Bytes)
    (chunkIndex : ℕ) (ciphertext : Bytes) : Except Error Bytes :=
  P2pShare.decryptChunk read chunkIndex ciphertext

/-- `RelaySession::decrypt_chunk`. -/
def RelaySession.decryptChunk (read : ℕ → Bytes → Option Bytes)
    (chunkIndex : ℕ) (ciphertext : Bytes) : Except Error Bytes :=
  P2pShare.decryptChunk read chunkIndex ciphertext

/-- A count, that many sub-messages with their lengths, and nothing else. -/
def WellDelimited (bytes : Bytes) : Prop :=
  ∃ subs : List Bytes, subs.length < 2 ^ 16 ∧
    (∀ sub ∈ subs, sub.length ≤ maxMessage) ∧ bytes = payload subs

/-- The sub-messages of a payload as they follow the count. -/
def items (subs : List Bytes) : Bytes :=
  subs.flatMap fun sub => toBe 4 (sub.length % 2 ^ 32) ++ sub

theorem payload_eq {subs : List Bytes} (hcount : subs.length < 2 ^ 16) :
    payload subs = toBe 2 subs.length ++ items subs := by
  unfold payload
  rw [Nat.mod_eq_of_lt hcount]
  rfl

section Decoders

variable (read : ℕ → Bytes → Option Bytes)

/-- A frame whose `payload_len` is allowed goes on with its payload. -/
theorem readParts_header {manifest : FileManifest} (pending : Finset ℕ)
    (bytesDone : ℕ) {chunkIndex payloadLen : ℕ}
    (hindex : chunkIndex < 2 ^ 32) (hlength : payloadLen < 2 ^ 32)
    (hallowed : payloadLen ≤ maxPayload manifest) (input : Bytes) :
    readParts read manifest pending bytesDone
        (toBe 4 chunkIndex ++ (toBe 4 payloadLen ++ input)) =
      (readPayload read pending bytesDone chunkIndex input).map
        fun (result, rest) =>
          (result.map fun state => ⟨chunkIndex, payloadLen, state⟩, rest) := by
  unfold readParts readPayload
  rw [readBe_append hindex, Option.bind_some]
  dsimp only
  rw [readBe_append hlength, Option.bind_some]
  dsimp only
  rw [if_neg (Nat.not_lt.mpr hallowed), Option.map_bind]
  rfl

theorem takeSubs_of_failed (chunkIndex : ℕ) (subs : List Bytes)
    (subIndex : ℕ) {state : SubState} (hfailed : state.decryptFailed = true) :
    takeSubs read chunkIndex true subIndex subs state = state := by
  induction subs generalizing subIndex with
  | nil => rfl
  | cons sub subs ih =>
      have htake : state.take read chunkIndex true subIndex sub = state := by
        simp [SubState.take, hfailed]
      rw [takeSubs, htake]
      exact ih (subIndex + 1)

/-- `decrypt_chunk` reads one sub-message. -/
theorem decryptSubs_cons (chunkIndex remaining subIndex : ℕ) (out : Bytes)
    {sub : Bytes} (hsub : sub.length ≤ maxMessage) (subs : List Bytes) :
    decryptSubs read chunkIndex (remaining + 1) subIndex out
        (items (sub :: subs)) =
      match read (chunkNonce chunkIndex subIndex) sub with
      | none => .error (.noise "decrypt error")
      | some plain =>
          decryptSubs read chunkIndex remaining (subIndex + 1) (out ++ plain)
            (items subs) := by
  have hlt : sub.length < 256 ^ 4 := hsub.trans_lt (by norm_num [maxMessage])
  have hmod : sub.length % 2 ^ 32 = sub.length := Nat.mod_eq_of_lt hlt
  have hitems : items (sub :: subs) =
      toBe 4 sub.length ++ (sub ++ items subs) := by
    simp only [items, List.flatMap_cons, hmod, List.append_assoc]
  have hread : readExact sub.length (sub ++ items subs) =
      some (sub, items subs) := readExact_append rfl
  rw [decryptSubs, hitems, readBe_append hlt]
  cases hplain : read (chunkNonce chunkIndex subIndex) sub with
  | none => simp only [hread, hplain]
  | some plain => simp only [hread, hplain]

/-- Both decoders stop trusting a payload at the same sub-message. -/
theorem takeSubs_agrees (chunkIndex : ℕ) {subs : List Bytes}
    (hsubs : ∀ sub ∈ subs, sub.length ≤ maxMessage) (subIndex : ℕ)
    {state : SubState} (hok : state.decryptFailed = false) :
    let final := takeSubs read chunkIndex true subIndex subs state
    decryptSubs read chunkIndex subs.length subIndex state.plaintext
        (items subs) =
      if final.decryptFailed then .error (.noise "decrypt error")
      else .ok final.plaintext := by
  induction subs generalizing subIndex state with
  | nil => simp [takeSubs, decryptSubs, hok]
  | cons sub subs ih =>
      have hsub : sub.length ≤ maxMessage := hsubs sub List.mem_cons_self
      have hothers : ∀ other ∈ subs, other.length ≤ maxMessage :=
        fun other hother => hsubs other (List.mem_cons_of_mem _ hother)
      dsimp only
      rw [List.length_cons, decryptSubs_cons read chunkIndex _ _ _ hsub,
        takeSubs]
      cases hread : read (chunkNonce chunkIndex subIndex) sub with
      | none =>
          have hfailed : (state.take read chunkIndex true subIndex
              sub).decryptFailed = true := by
            simp [SubState.take, hok, hread]
          rw [takeSubs_of_failed read chunkIndex subs _ hfailed,
            if_pos hfailed]
      | some plain =>
          have hplain : (state.take read chunkIndex true subIndex
              sub).plaintext = state.plaintext ++ plain := by
            simp [SubState.take, hok, hread]
          have hgood : (state.take read chunkIndex true subIndex
              sub).decryptFailed = false := by
            simp [SubState.take, hok, hread]
          have hnext := ih hothers (subIndex + 1) hgood
          rw [hplain] at hnext
          exact hnext

/-- What the loop has added to the progress counter is what it would take back. -/
structure SubState.Counted (base : ℕ) (state : SubState) : Prop where
  progress : state.bytesDone = base + state.advanced
  read : state.decryptFailed = false → state.advanced = state.plaintext.length
  failed : state.decryptFailed = true → state.advanced = 0

theorem SubState.counted_initial (base : ℕ) :
    (SubState.initial base).Counted base where
  progress := rfl
  read := fun _ => rfl
  failed := fun hfailed => by cases hfailed

theorem SubState.Counted.take {base : ℕ} {state : SubState}
    (hcounted : state.Counted base) (chunkIndex : ℕ) (isPending : Bool)
    (subIndex : ℕ) (sub : Bytes) :
    (state.take read chunkIndex isPending subIndex sub).Counted base := by
  unfold SubState.take
  split
  · exact hcounted
  next hactive =>
    have hok : state.decryptFailed = false := by
      simp only [Bool.or_eq_true, not_or, Bool.not_eq_true] at hactive
      exact hactive.2
    have hprogress := hcounted.progress
    split
    next plain hread =>
      constructor
      · dsimp only
        omega
      · intro _
        simp [hcounted.read hok]
      · intro hfailed
        simp [hok] at hfailed
    next hread =>
      constructor
      · dsimp only
        omega
      · intro hgood
        simp at hgood
      · intro _
        rfl

theorem takeSubs_counted {base : ℕ} (chunkIndex : ℕ) (isPending : Bool)
    (subs : List Bytes) (subIndex : ℕ) {state : SubState}
    (hcounted : state.Counted base) :
    (takeSubs read chunkIndex isPending subIndex subs state).Counted base := by
  induction subs generalizing subIndex state with
  | nil => exact hcounted
  | cons sub subs ih =>
      exact ih (subIndex + 1)
        (hcounted.take read chunkIndex isPending subIndex sub)

/-- The whole payload is read, whatever its sub-messages are. -/
theorem readPayload_payload {pending : Finset ℕ} (bytesDone : ℕ)
    {chunkIndex : ℕ} (hpending : chunkIndex ∈ pending) {subs : List Bytes}
    (hcount : subs.length < 2 ^ 16)
    (hsubs : ∀ sub ∈ subs, sub.length ≤ maxMessage) (rest : Bytes) :
    readPayload read pending bytesDone chunkIndex (payload subs ++ rest) =
      some (.ok (takeSubs read chunkIndex true 0 subs (.initial bytesDone)),
        rest) := by
  unfold readPayload
  rw [payload_eq hcount, List.append_assoc, readBe_append hcount,
    Option.bind_some]
  dsimp only
  rw [decide_eq_true hpending]
  exact readSubs_flatMap read chunkIndex true hsubs 0 _ rest

theorem decryptChunk_payload (bytesDone chunkIndex : ℕ) {subs : List Bytes}
    (hcount : subs.length < 2 ^ 16)
    (hsubs : ∀ sub ∈ subs, sub.length ≤ maxMessage) :
    let final := takeSubs read chunkIndex true 0 subs (.initial bytesDone)
    decryptChunk read chunkIndex (payload subs) =
      if final.decryptFailed then .error (.noise "decrypt error")
      else .ok final.plaintext := by
  unfold decryptChunk
  rw [payload_eq hcount, readBe_append hcount]
  have hinitial : (SubState.initial bytesDone).decryptFailed = false := rfl
  exact takeSubs_agrees read chunkIndex hsubs 0 hinitial

end Decoders

/-- On a well-delimited payload of a pending chunk the frame loop reads to its
end, with the plaintext of `decrypt_chunk` or, where that fails, to a NACK. -/
theorem streaming_decoder_agrees (read : ℕ → Bytes → Option Bytes)
    (manifest : FileManifest) {pending : Finset ℕ} (bytesDone : ℕ)
    {chunkIndex : ℕ} (hpending : chunkIndex ∈ pending) {bytes : Bytes}
    (hbytes : WellDelimited bytes) (rest : Bytes) :
    ∃ state,
      readPayload read pending bytesDone chunkIndex (bytes ++ rest) =
        some (.ok state, rest) ∧
      (∀ plaintext,
        (state.decryptFailed = false ∧ state.plaintext = plaintext ↔
          PeerSession.decryptChunk read chunkIndex bytes = .ok plaintext) ∧
        (state.decryptFailed = false ∧ state.plaintext = plaintext ↔
          RelaySession.decryptChunk read chunkIndex bytes = .ok plaintext)) ∧
      (state.decryptFailed = true →
        finishFrame manifest chunkIndex (decide (chunkIndex ∈ pending)) state =
          (.nack chunkIndex, bytesDone) ∧
        (∃ error, PeerSession.decryptChunk read chunkIndex bytes =
          .error error) ∧
        ∃ error, RelaySession.decryptChunk read chunkIndex bytes =
          .error error) := by
  obtain ⟨subs, hcount, hsubs, rfl⟩ := hbytes
  have hdecrypt := decryptChunk_payload read bytesDone chunkIndex hcount hsubs
  have hcounted : (takeSubs read chunkIndex true 0 subs
      (.initial bytesDone)).Counted bytesDone :=
    takeSubs_counted read chunkIndex true subs 0
      (SubState.counted_initial bytesDone)
  have hiff : ∀ plaintext,
      (takeSubs read chunkIndex true 0 subs
          (.initial bytesDone)).decryptFailed = false ∧
        (takeSubs read chunkIndex true 0 subs
          (.initial bytesDone)).plaintext = plaintext ↔
        decryptChunk read chunkIndex (payload subs) = .ok plaintext := by
    intro plaintext
    dsimp only at hdecrypt
    rw [hdecrypt]
    split
    next hfailed => simp [hfailed]
    next hgood => simp [hgood]
  refine ⟨_, readPayload_payload read bytesDone hpending hcount hsubs rest,
    fun plaintext => ⟨hiff plaintext, hiff plaintext⟩, ?_⟩
  intro hfailed
  dsimp only at hdecrypt
  rw [if_pos hfailed] at hdecrypt
  refine ⟨?_, ⟨_, hdecrypt⟩, ⟨_, hdecrypt⟩⟩
  have hprogress := hcounted.progress
  rw [hcounted.failed hfailed, Nat.add_zero] at hprogress
  simp [finishFrame, hpending, hfailed, hprogress]

/-- Two sub-messages, of which the second is not authentic. -/
theorem streaming_decoder_agrees_sample :
    ∃ state,
      readPayload tagRead {5} 7 5
          (payload [lookupNoise.cipher 0 [1, 2], [3]] ++ [9]) =
        some (.ok state, [9]) ∧
      (∀ plaintext,
        (state.decryptFailed = false ∧ state.plaintext = plaintext ↔
          PeerSession.decryptChunk tagRead 5
            (payload [lookupNoise.cipher 0 [1, 2], [3]]) = .ok plaintext) ∧
        (state.decryptFailed = false ∧ state.plaintext = plaintext ↔
          RelaySession.decryptChunk tagRead 5
            (payload [lookupNoise.cipher 0 [1, 2], [3]]) = .ok plaintext)) ∧
      (state.decryptFailed = true →
        finishFrame (buildManifest sampleSource) 5 (decide (5 ∈ ({5} : Finset ℕ)))
            state = (.nack 5, 7) ∧
        (∃ error, PeerSession.decryptChunk tagRead 5
          (payload [lookupNoise.cipher 0 [1, 2], [3]]) = .error error) ∧
        ∃ error, RelaySession.decryptChunk tagRead 5
          (payload [lookupNoise.cipher 0 [1, 2], [3]]) = .error error) :=
  streaming_decoder_agrees tagRead (buildManifest sampleSource) 7
    (Finset.mem_singleton_self 5)
    ⟨[lookupNoise.cipher 0 [1, 2], [3]], by decide, by decide, rfl⟩ [9]

end P2pShare
