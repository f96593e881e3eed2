import P2pShare.Session
import Mathlib.Data.Finset.Basic

/-!
# Chunk frames and their decoding

`encode_chunk_frame` of the direct sender and the two decoders: the loop body
of the direct receiver, which decrypts sub-messages as they arrive, and the
relay receiver's treatment of one `RelayMsg`.  A decoder ends in a
`FrameOutcome`; what the receive loops do with it is in `Receiver`.
-/

namespace P2pShare

open ByteStream

/-! ## Encoding -/

/-- A chunk frame in structured form. -/
structure Frame where
  index : ℕ
  subs : List Bytes
  deriving DecidableEq

def Frame.bytes (frame : Frame) : Bytes :=
  toBe 4 frame.index ++ toBe 4 ((payload frame.subs).length % 2 ^ 32) ++
    payload frame.subs

def encodeChunkFrame (noise : Noise) (chunkIndex : ℕ) (plaintext : Bytes) :
    Option Bytes :=
  (encryptChunk noise chunkIndex plaintext).map fun encrypted =>
    toBe 4 chunkIndex ++ toBe 4 (encrypted.length % 2 ^ 32) ++ encrypted

def chunkFrame (noise : Noise) (chunkIndex : ℕ) (plaintext : Bytes) : Frame :=
  ⟨chunkIndex, subCiphertexts noise chunkIndex plaintext⟩

theorem encodeChunkFrame_eq (noise : Noise) (chunkIndex : ℕ)
    (plaintext : Bytes) :
    encodeChunkFrame noise chunkIndex plaintext =
      some (chunkFrame noise chunkIndex plaintext).bytes := by
  unfold encodeChunkFrame
  rw [encryptChunk_eq]
  rfl

/-! ## The direct receiver's frame loop -/

inductive FrameOutcome where
  | failed (error : Error)
  | skipped
  | nack (index : ℕ)
  | accepted (index : ℕ) (plaintext : Bytes)
  deriving DecidableEq

/-- The variables of the sub-message loop, with the global progress counter. -/
structure SubState where
  plaintext : Bytes
  decryptFailed : Bool
  advanced : ℕ
  bytesDone : ℕ
  deriving DecidableEq

def SubState.initial (bytesDone : ℕ) : SubState := ⟨[], false, 0, bytesDone⟩

/-- One sub-message: decrypted, or drained when the chunk is not wanted or has
already failed. -/
def SubState.take (read : ℕ → Bytes → Option Bytes) (chunkIndex : ℕ)
    (isPending : Bool) (subIndex : ℕ) (sub : Bytes) (state : SubState) :
    SubState :=
  if !isPending || state.decryptFailed then state
  else
    match read (chunkNonce chunkIndex subIndex) sub with
    | some plain =>
        { state with
          plaintext := state.plaintext ++ plain
          advanced := state.advanced + plain.length
          bytesDone := state.bytesDone + plain.length }
    | none =>
        { state with
          decryptFailed := true
          advanced := 0
          bytesDone := state.bytesDone - state.advanced }

def readSubs (read : ℕ → Bytes → Option Bytes) (chunkIndex : ℕ)
    (isPending : Bool) :
    ℕ → ℕ → SubState → Bytes → Option (Except Error SubState × Bytes)
  | 0, _, state, input => some (.ok state, input)
  | remaining + 1, subIndex, state, input =>
      (readBe 4 input).bind fun (subLen, input) =>
        if subLen > maxMessage then
          some (.error (.connectionFailed
            s!"chunk {chunkIndex} sub {subIndex} len {subLen} exceeds Noise max"),
            input)
        else
          (readExact subLen input).bind fun (sub, input) =>
            readSubs read chunkIndex isPending remaining (subIndex + 1)
              (state.take read chunkIndex isPending subIndex sub) input

/-- What the loop does once all sub-messages are read: the outcome and the
progress counter. -/
def finishFrame (manifest : FileManifest) (chunkIndex : ℕ)
    (isPending : Bool) (state : SubState) : FrameOutcome × ℕ :=
  if !isPending then (.skipped, state.bytesDone)
  else if state.decryptFailed then (.nack chunkIndex, state.bytesDone)
  else if state.plaintext.length ≠ manifest.sizeOf chunkIndex then
    (.nack chunkIndex, state.bytesDone - state.advanced)
  else (.accepted chunkIndex state.plaintext, state.bytesDone)

def maxPayload (manifest : FileManifest) : ℕ :=
  manifest.chunkSize + manifest.chunkSize / 2048 + 4096

/-- One pass of the receive loop up to its outcome; `none` while bytes of the
frame are missing. -/
def readFrame (read : ℕ → Bytes → Option Bytes) (manifest : FileManifest)
    (pending : Finset ℕ) (bytesDone : ℕ) (input : Bytes) :
    Option ((FrameOutcome × ℕ) × Bytes) :=
  (readBe 4 input).bind fun (chunkIndex, input) =>
    (readBe 4 input).bind fun (payloadLen, input) =>
      if payloadLen > maxPayload manifest then
        let max := maxPayload manifest
        some ((.failed (.connectionFailed
          s!"chunk {chunkIndex} payload_len {payloadLen} exceeds max {max}"),
          bytesDone), input)
      else
        (readBe 2 input).bind fun (subCount, input) =>
          let isPending := decide (chunkIndex ∈ pending)
          (readSubs read chunkIndex isPending subCount 0
            (.initial bytesDone) input).map fun (result, input) =>
              match result with
              | .error error => ((.failed error, bytesDone), input)
              | .ok state =>
                  (finishFrame manifest chunkIndex isPending state, input)

/-- A frame read without an error: the fields of its header, and what the
sub-message loop ended with. -/
structure FrameRead where
  index : ℕ
  payloadLen : ℕ
  state : SubState
  deriving DecidableEq

/-- One pass of the receive loop up to the end of the sub-message loop. -/
def readParts (read : ℕ → Bytes → Option Bytes) (manifest : FileManifest)
    (pending : Finset ℕ) (bytesDone : ℕ) (input : Bytes) :
    Option (Except Error FrameRead × Bytes) :=
  (readBe 4 input).bind fun (chunkIndex, input) =>
    (readBe 4 input).bind fun (payloadLen, input) =>
      if payloadLen > maxPayload manifest then
        let max := maxPayload manifest
        some (.error (.connectionFailed
          s!"chunk {chunkIndex} payload_len {payloadLen} exceeds max {max}"),
          input)
      else
        (readBe 2 input).bind fun (subCount, input) =>
          (readSubs read chunkIndex (decide (chunkIndex ∈ pending)) subCount 0
            (.initial bytesDone) input).map fun (result, input) =>
              (result.map fun state => ⟨chunkIndex, payloadLen, state⟩, input)

/-- The rest of the pass. -/
def finishParts (manifest : FileManifest) (pending : Finset ℕ)
    (bytesDone : ℕ) : Except Error FrameRead → FrameOutcome × ℕ
  | .error error => (.failed error, bytesDone)
  | .ok frame =>
      finishFrame manifest frame.index (decide (frame.index ∈ pending))
        frame.state

theorem readFrame_eq (read : ℕ → Bytes → Option Bytes)
    (manifest : FileManifest) (pending : Finset ℕ) (bytesDone : ℕ)
    (input : Bytes) :
    readFrame read manifest pending bytesDone input =
      (readParts read manifest pending bytesDone input).map
        fun (result, rest) => (finishParts manifest pending bytesDone result, rest) := by
  unfold readFrame readParts
  cases readBe 4 input with
  | none => rfl
  | some head =>
      obtain ⟨chunkIndex, input⟩ := head
      simp only [Option.bind_some]
      cases readBe 4 input with
      | none => rfl
      | some head =>
          obtain ⟨payloadLen, input⟩ := head
          simp only [Option.bind_some]
          split
          · rfl
          · cases readBe 2 input with
            | none => rfl
            | some head =>
                obtain ⟨subCount, input⟩ := head
                simp only [Option.bind_some, Option.map_map]
                congr 1
                funext ⟨result, rest⟩
                cases result with
                | error error => rfl
                | ok state => rfl

/-! ## The relay receiver -/

/-- The body of the relay receive loop up to its outcome. -/
def relayOutcome (read : ℕ → Bytes → Option Bytes)
    (manifest : FileManifest) : RelayMsg → FrameOutcome
  | .chunk chunkIndex ciphertext =>
      match decryptChunk read chunkIndex ciphertext with
      | .error _ => .nack chunkIndex
      | .ok plaintext =>
          if plaintext.length ≠ manifest.sizeOf chunkIndex then
            .nack chunkIndex
          else .accepted chunkIndex plaintext
  | .ctrl message =>
      .failed (.unexpected "unexpected ctrl msg during chunk recv: " message)

/-! ## Frames on a stream that keeps its framing

A frame whose length fields are right is consumed exactly, whatever its
ciphertext bytes are; the outcome is a function of the sub-messages. -/

structure Frame.WellFramed (frame : Frame) (bound : ℕ) : Prop where
  index_lt : frame.index < 2 ^ 32
  count_lt : frame.subs.length < 2 ^ 16
  sub_le : ∀ sub ∈ frame.subs, sub.length ≤ maxMessage
  payload_le : (payload frame.subs).length ≤ bound
  payload_lt : (payload frame.subs).length < 2 ^ 32

def takeSubs (read : ℕ → Bytes → Option Bytes) (chunkIndex : ℕ)
    (isPending : Bool) : ℕ → List Bytes → SubState → SubState
  | _, [], state => state
  | subIndex, sub :: rest, state =>
      takeSubs read chunkIndex isPending (subIndex + 1) rest
        (state.take read chunkIndex isPending subIndex sub)

def frameOutcome (read : ℕ → Bytes → Option Bytes) (manifest : FileManifest)
    (pending : Finset ℕ) (bytesDone : ℕ) (frame : Frame) : FrameOutcome × ℕ :=
  finishFrame manifest frame.index (decide (frame.index ∈ pending))
    (takeSubs read frame.index (decide (frame.index ∈ pending)) 0 frame.subs
      (.initial bytesDone))

theorem readSubs_flatMap (read : ℕ → Bytes → Option Bytes)
    (chunkIndex : ℕ) (isPending : Bool) {subs : List Bytes}
    (hsubs : ∀ sub ∈ subs, sub.length ≤ maxMessage)
    (subIndex : ℕ) (state : SubState) (rest : Bytes) :
    readSubs read chunkIndex isPending subs.length subIndex state
        ((subs.flatMap fun sub => toBe 4 (sub.length % 2 ^ 32) ++ sub) ++
          rest) =
      some (.ok (takeSubs read chunkIndex isPending subIndex subs state),
        rest) := by
  induction subs generalizing subIndex state with
  | nil => rfl
  | cons sub subs ih =>
      have hsub : sub.length ≤ maxMessage := hsubs sub List.mem_cons_self
      have hlt : sub.length < 256 ^ 4 :=
        hsub.trans_lt (by norm_num [maxMessage])
      have hmod : sub.length % 2 ^ 32 = sub.length := Nat.mod_eq_of_lt hlt
      have hlength :
          readBe 4 (toBe 4 sub.length ++ (sub ++
            ((subs.flatMap fun sub => toBe 4 (sub.length % 2 ^ 32) ++ sub) ++
              rest))) =
            some (sub.length, sub ++
              ((subs.flatMap fun sub => toBe 4 (sub.length % 2 ^ 32) ++ sub) ++
                rest)) :=
        readBe_append hlt
      simp only [List.length_cons, readSubs, List.flatMap_cons, hmod,
        List.append_assoc] at hlength ⊢
      rw [hlength, Option.bind_some, if_neg (Nat.not_lt.mpr hsub),
        readExact_append rfl, Option.bind_some]
      exact ih (fun other hother => hsubs other (List.mem_cons_of_mem _ hother))
        (subIndex + 1) _

theorem readParts_bytes (read : ℕ → Bytes → Option Bytes)
    {manifest : FileManifest} (pending : Finset ℕ) (bytesDone : ℕ)
    {frame : Frame} (hframe : frame.WellFramed (maxPayload manifest))
    (rest : Bytes) :
    readParts read manifest pending bytesDone (frame.bytes ++ rest) =
      some (.ok ⟨frame.index, (payload frame.subs).length,
        takeSubs read frame.index (decide (frame.index ∈ pending)) 0 frame.subs
          (.initial bytesDone)⟩, rest) := by
  have hcount : frame.subs.length % 2 ^ 16 = frame.subs.length :=
    Nat.mod_eq_of_lt hframe.count_lt
  have hpayload :
      (payload frame.subs).length % 2 ^ 32 = (payload frame.subs).length :=
    Nat.mod_eq_of_lt hframe.payload_lt
  have hitems : payload frame.subs ++ rest =
      toBe 2 frame.subs.length ++
        ((frame.subs.flatMap fun sub => toBe 4 (sub.length % 2 ^ 32) ++ sub) ++
          rest) := by
    rw [payload, hcount, List.append_assoc]
  unfold readParts Frame.bytes
  rw [List.append_assoc, List.append_assoc, readBe_append hframe.index_lt,
    Option.bind_some, hpayload]
  dsimp only
  rw [readBe_append hframe.payload_lt, Option.bind_some]
  dsimp only
  rw [if_neg (Nat.not_lt.mpr hframe.payload_le), hitems,
    readBe_append hframe.count_lt, Option.bind_some]
  dsimp only
  rw [readSubs_flatMap read _ _ hframe.sub_le]
  rfl

theorem readFrame_bytes (read : ℕ → Bytes → Option Bytes)
    {manifest : FileManifest} (pending : Finset ℕ) (bytesDone : ℕ)
    {frame : Frame} (hframe : frame.WellFramed (maxPayload manifest))
    (rest : Bytes) :
    readFrame read manifest pending bytesDone (frame.bytes ++ rest) =
      some (frameOutcome read manifest pending bytesDone frame, rest) := by
  rw [readFrame_eq, readParts_bytes read pending bytesDone hframe]
  rfl

/-- A frame of a pending chunk is accepted or answered with a NACK; it is never
dropped. -/
theorem frameOutcome_of_pending (read : ℕ → Bytes → Option Bytes)
    {manifest : FileManifest} {pending : Finset ℕ} (bytesDone : ℕ)
    {frame : Frame} (hpending : frame.index ∈ pending) :
    (frameOutcome read manifest pending bytesDone frame).1 =
        .nack frame.index ∨
      ∃ plaintext,
        (frameOutcome read manifest pending bytesDone frame).1 =
          .accepted frame.index plaintext := by
  unfold frameOutcome finishFrame
  simp only [hpending, decide_true, Bool.not_true, Bool.false_eq_true,
    if_false]
  split
  · exact Or.inl rfl
  · split
    · exact Or.inl rfl
    · exact Or.inr ⟨_, rfl⟩

theorem frameOutcome_of_not_pending (read : ℕ → Bytes → Option Bytes)
    {manifest : FileManifest} {pending : Finset ℕ} (bytesDone : ℕ)
    {frame : Frame} (hpending : frame.index ∉ pending) :
    (frameOutcome read manifest pending bytesDone frame).1 = .skipped := by
  simp [frameOutcome, finishFrame, hpending]

/-- The relay loop does not look whether a chunk is pending. -/
theorem relayOutcome_chunk (read : ℕ → Bytes → Option Bytes)
    (manifest : FileManifest) (index : ℕ) (ciphertext : Bytes) :
    relayOutcome read manifest (.chunk index ciphertext) = .nack index ∨
      ∃ plaintext, relayOutcome read manifest (.chunk index ciphertext) =
        .accepted index plaintext := by
  unfold relayOutcome
  cases hdecrypt : decryptChunk read index ciphertext with
  | error error => simp [hdecrypt]
  | ok plaintext =>
      by_cases hsize : plaintext.length = manifest.sizeOf index
      · simp [hdecrypt, hsize]
      · simp [hdecrypt, hsize]

/-- The relay reader on the bytes of one chunk message. -/
theorem recvMsg_frame_bytes (read : ℕ → Bytes → Option Bytes)
    (decode : Bytes → Option ControlMessage) {frame : Frame} {bound : ℕ}
    (hframe : frame.WellFramed bound) (rest : Bytes) :
    recvMsg read decode (toBe 1 1 ++ frame.bytes ++ rest) =
      some (.ok (.chunk frame.index (payload frame.subs)), rest) := by
  have hpayload :
      (payload frame.subs).length % 2 ^ 32 = (payload frame.subs).length :=
    Nat.mod_eq_of_lt hframe.payload_lt
  unfold recvMsg Frame.bytes
  rw [List.append_assoc, readBe_append (by norm_num), Option.bind_some]
  dsimp only
  rw [if_neg (by norm_num), if_pos rfl, List.append_assoc, List.append_assoc,
    readBe_append hframe.index_lt, Option.bind_some, hpayload]
  dsimp only
  rw [readBe_append hframe.payload_lt, Option.bind_some]
  dsimp only
  rw [readExact_append rfl]
  rfl

theorem length_payload (subs : List Bytes) :
    (payload subs).length =
      2 + (subs.map fun sub => 4 + sub.length).sum := by
  simp [payload, List.length_flatMap]

theorem sum_length_pieces (bytes : Bytes) :
    ((pieces maxPlain bytes).map List.length).sum = bytes.length := by
  have hflatten := flatten_pieces (show 0 < maxPlain by norm_num [maxPlain])
    bytes
  rw [← List.length_flatten, hflatten]

theorem length_payload_subCiphertexts (noise : Noise) (chunkIndex : ℕ)
    (plaintext : Bytes) :
    (payload (subCiphertexts noise chunkIndex plaintext)).length =
      2 + (plaintext.length ⌈/⌉ maxPlain) * 20 + plaintext.length := by
  have hlengths :
      (subCiphertexts noise chunkIndex plaintext).map
          (fun sub => 4 + sub.length) =
        (pieces maxPlain plaintext).map fun sub => sub.length + 20 := by
    apply List.ext_getElem
    · simp [subCiphertexts, sealedChunk]
    · intro index _ _
      simp only [subCiphertexts, sealedChunk, List.getElem_map,
        List.getElem_mapIdx, Noise.sealed, noise.cipher_length]
      omega
  have hsum : ∀ subs : List Bytes,
      (subs.map fun sub => sub.length + 20).sum =
        subs.length * 20 + (subs.map List.length).sum := by
    intro subs
    induction subs with
    | nil => rfl
    | cons sub rest ih =>
        simp only [List.map_cons, List.sum_cons, List.length_cons, ih]
        omega
  rw [length_payload, hlengths, hsum, sum_length_pieces, length_pieces]
  omega

/-- The cap on `payload_len` leaves room for every frame the sender makes with
a chunk size of `chunk_size_for`. -/
theorem chunkFrame_wellFramed (noise : Noise) (source : ManifestSource)
    {chunkIndex : ℕ} {plaintext : Bytes} (hindex : chunkIndex < 2 ^ 32)
    (hlength : plaintext.length ≤ (buildManifest source).chunkSize) :
    (chunkFrame noise chunkIndex plaintext).WellFramed
      (maxPayload (buildManifest source)) := by
  have hsize : (buildManifest source).chunkSize = 524288 ∨
      (buildManifest source).chunkSize = 8388608 := by
    simp only [buildManifest, chunkSizeFor]
    split
    · exact Or.inl rfl
    · exact Or.inr rfl
  have hcount : plaintext.length ⌈/⌉ maxPlain =
      (plaintext.length + 65519 - 1) / 65519 :=
    Nat.ceilDiv_eq_add_pred_div _ _
  have hpayload := length_payload_subCiphertexts noise chunkIndex plaintext
  have hbound :
      (payload (subCiphertexts noise chunkIndex plaintext)).length ≤
        maxPayload (buildManifest source) := by
    rw [hpayload, hcount, maxPayload]
    rcases hsize with hsmall | hlarge
    · omega
    · omega
  constructor
  · exact hindex
  · simp only [chunkFrame, subCiphertexts, sealedChunk, List.length_map,
      List.length_mapIdx, length_pieces, hcount]
    omega
  · intro sub hsub
    exact sub_length_of_mem_subCiphertexts hsub
  · exact hbound
  · simp only [maxPayload] at hbound
    exact hbound.trans_lt (by omega)

/-! ## What an accepted chunk consists of

`Decrypts read chunkIndex plaintext`: the plaintext is the concatenation of
sub-messages read under the chunk's consecutive nonces, from sub-index 0. -/

def Decrypts (read : ℕ → Bytes → Option Bytes) (chunkIndex : ℕ)
    (plaintext : Bytes) : Prop :=
  ∃ plains : List Bytes, plaintext = plains.flatten ∧
    plains.length < 2 ^ 16 ∧
    ∀ subIndex plain, plains[subIndex]? = some plain →
      ∃ sub, read (chunkNonce chunkIndex subIndex) sub = some plain

/-- Adding one sub-message to those already read. -/
theorem decrypts_snoc {read : ℕ → Bytes → Option Bytes} {chunkIndex : ℕ}
    {plains : List Bytes} {sub plain : Bytes}
    (hplains : ∀ subIndex plain, plains[subIndex]? = some plain →
      ∃ sub, read (chunkNonce chunkIndex subIndex) sub = some plain)
    (hread : read (chunkNonce chunkIndex plains.length) sub = some plain) :
    ∀ subIndex plain', (plains ++ [plain])[subIndex]? = some plain' →
      ∃ sub, read (chunkNonce chunkIndex subIndex) sub = some plain' := by
  intro subIndex plain' hget
  rcases Nat.lt_or_ge subIndex plains.length with hlt | hge
  · rw [List.getElem?_append_left hlt] at hget
    exact hplains subIndex plain' hget
  · rw [List.getElem?_append_right hge] at hget
    have hzero : subIndex - plains.length = 0 := by
      by_contra hpos
      rw [List.getElem?_eq_none (by simp; omega)] at hget
      contradiction
    have heq : subIndex = plains.length := by omega
    rw [hzero] at hget
    simp only [List.getElem?_cons_zero, Option.some.injEq] at hget
    subst plain' subIndex
    exact ⟨sub, hread⟩

theorem readSubs_decrypts {read : ℕ → Bytes → Option Bytes}
    {chunkIndex remaining : ℕ} (plains : List Bytes) {state final : SubState}
    {input rest : Bytes}
    (hsubs : readSubs read chunkIndex true remaining plains.length state input =
      some (.ok final, rest))
    (hok : final.decryptFailed = false)
    (hbound : plains.length + remaining < 2 ^ 16)
    (hstate : state.decryptFailed = false →
      state.plaintext = plains.flatten ∧
      ∀ subIndex plain, plains[subIndex]? = some plain →
        ∃ sub, read (chunkNonce chunkIndex subIndex) sub = some plain) :
    Decrypts read chunkIndex final.plaintext := by
  induction remaining generalizing plains state input with
  | zero =>
      simp only [readSubs, Option.some.injEq, Prod.mk.injEq,
        Except.ok.injEq] at hsubs
      rcases hsubs with ⟨rfl, _⟩
      obtain ⟨hflatten, hplains⟩ := hstate hok
      exact ⟨plains, hflatten, by omega, hplains⟩
  | succ remaining ih =>
      simp only [readSubs, Option.bind_eq_some_iff, Prod.exists] at hsubs
      obtain ⟨subLen, body, _, hbody⟩ := hsubs
      split at hbody
      · simp at hbody
      · simp only [Option.bind_eq_some_iff, Prod.exists] at hbody
        obtain ⟨sub, tail, _, htail⟩ := hbody
        cases hread : read (chunkNonce chunkIndex plains.length) sub with
        | some plain =>
            have hlength :
                (plains ++ [plain]).length = plains.length + 1 := by simp
            rw [← hlength] at htail
            apply ih _ htail
            · rw [hlength]
              omega
            · intro hnext
              cases hfailed : state.decryptFailed with
              | true => simp [SubState.take, hfailed] at hnext
              | false =>
                  obtain ⟨hflatten, hplains⟩ := hstate hfailed
                  constructor
                  · simp [SubState.take, hfailed, hread, hflatten]
                  · exact decrypts_snoc hplains hread
        | none =>
            have hlength :
                (plains ++ [([] : Bytes)]).length = plains.length + 1 := by
              simp
            rw [← hlength] at htail
            apply ih _ htail
            · rw [hlength]
              omega
            · intro hnext
              cases hfailed : state.decryptFailed with
              | true => simp [SubState.take, hfailed] at hnext
              | false => simp [SubState.take, hfailed, hread] at hnext

/-- The direct receiver accepts only a pending index and an authenticated
plaintext of exactly the chunk's size. -/
theorem readFrame_accepted {read : ℕ → Bytes → Option Bytes}
    {manifest : FileManifest} {pending : Finset ℕ} {bytesDone bytesDone' : ℕ}
    {input rest plaintext : Bytes} {index : ℕ}
    (hread : readFrame read manifest pending bytesDone input =
      some ((.accepted index plaintext, bytesDone'), rest)) :
    index ∈ pending ∧ plaintext.length = manifest.sizeOf index ∧
      Decrypts read index plaintext := by
  unfold readFrame at hread
  simp only [Option.bind_eq_some_iff, Prod.exists] at hread
  obtain ⟨chunkIndex, body, _, payloadLen, body', _, hbody⟩ := hread
  split at hbody
  · simp at hbody
  · simp only [Option.bind_eq_some_iff, Option.map_eq_some_iff,
      Prod.exists] at hbody
    obtain ⟨subCount, body'', hcount, result, tail, hsubs, hresult⟩ := hbody
    have hbound : subCount < 2 ^ 16 := readBe_lt hcount
    cases result with
    | error error => simp at hresult
    | ok state =>
        simp only [Prod.mk.injEq] at hresult
        obtain ⟨hfinish, _⟩ := hresult
        unfold finishFrame at hfinish
        by_cases hpending : chunkIndex ∈ pending
        · simp only [hpending, decide_true, Bool.not_true,
            Bool.false_eq_true, if_false] at hfinish
          split at hfinish
          · simp at hfinish
          next hfailed =>
          split at hfinish
          · simp at hfinish
          next hsize =>
          simp only [Prod.mk.injEq, FrameOutcome.accepted.injEq] at hfinish
          rcases hfinish with ⟨⟨rfl, rfl⟩, _⟩
          refine ⟨hpending, not_not.mp hsize, ?_⟩
          simp only [hpending, decide_true] at hsubs
          apply readSubs_decrypts [] hsubs (by simpa using hfailed)
          · simpa using hbound
          · intro _
            simp [SubState.initial]
        · simp [hpending] at hfinish

theorem decryptSubs_decrypts {read : ℕ → Bytes → Option Bytes}
    {chunkIndex remaining : ℕ} (plains : List Bytes)
    {rest plaintext : Bytes}
    (hsubs : decryptSubs read chunkIndex remaining plains.length
      plains.flatten rest = .ok plaintext)
    (hbound : plains.length + remaining < 2 ^ 16)
    (hplains : ∀ subIndex plain, plains[subIndex]? = some plain →
      ∃ sub, read (chunkNonce chunkIndex subIndex) sub = some plain) :
    Decrypts read chunkIndex plaintext := by
  induction remaining generalizing plains rest with
  | zero =>
      simp only [decryptSubs, Except.ok.injEq] at hsubs
      exact ⟨plains, hsubs.symm, by omega, hplains⟩
  | succ remaining ih =>
      simp only [decryptSubs] at hsubs
      split at hsubs
      · contradiction
      · split at hsubs
        · contradiction
        · split at hsubs
          · contradiction
          next plain hread =>
            have hlength :
                (plains ++ [plain]).length = plains.length + 1 := by simp
            have hout : plains.flatten ++ plain =
                (plains ++ [plain]).flatten := by simp
            rw [hout, ← hlength] at hsubs
            apply ih _ hsubs
            · rw [hlength]
              omega
            · exact decrypts_snoc hplains hread

theorem decryptChunk_decrypts {read : ℕ → Bytes → Option Bytes}
    {chunkIndex : ℕ} {ciphertext plaintext : Bytes}
    (hdecrypt : decryptChunk read chunkIndex ciphertext = .ok plaintext) :
    Decrypts read chunkIndex plaintext := by
  unfold decryptChunk at hdecrypt
  split at hdecrypt
  · contradiction
  next subCount rest hcount =>
    have hbound : subCount < 2 ^ 16 := readBe_lt hcount
    apply decryptSubs_decrypts [] hdecrypt
    · simpa using hbound
    · simp

/-- The relay receiver accepts an authenticated plaintext of the size it
computes for the index, whether or not the index is pending. -/
theorem relayOutcome_accepted {read : ℕ → Bytes → Option Bytes}
    {manifest : FileManifest} {message : RelayMsg} {index : ℕ}
    {plaintext : Bytes}
    (houtcome :
      relayOutcome read manifest message = .accepted index plaintext) :
    ∃ ciphertext, message = .chunk index ciphertext ∧
      plaintext.length = manifest.sizeOf index ∧
      Decrypts read index plaintext := by
  cases message with
  | ctrl message => simp [relayOutcome] at houtcome
  | chunk chunkIndex ciphertext =>
      simp only [relayOutcome] at houtcome
      split at houtcome
      · simp at houtcome
      next decrypted hdecrypt =>
        split at houtcome
        · simp at houtcome
        next hsize =>
          simp only [FrameOutcome.accepted.injEq] at houtcome
          rcases houtcome with ⟨rfl, rfl⟩
          exact ⟨ciphertext, rfl, not_not.mp hsize,
            decryptChunk_decrypts hdecrypt⟩

end P2pShare
