import P2pShare.Manifest

/-!
# Sessions: Noise messages and their framing

`session/mod.rs`, the transport part of `session/coordinator.rs`, and
`session/relay_session.rs`.  The Noise state of `snow` is not in the
repository: one direction of it is a `Noise` value, and what the code relies on
are its fields.  Reads depend on the list of messages the peer has sealed so
far, so authenticity is a property of that list and not of the key.
-/

namespace P2pShare

open ByteStream

/-- `Error`, without the texts of foreign errors.  `unexpected text message` is
the `ConnectionFailed` whose text ends in a formatted control message. -/
inductive Error where
  | io
  | quic
  | quicStream
  | noise (message : String)
  | msgPack
  | json
  | connectionFailed (message : String)
  | unexpected (text : String) (message : ControlMessage)
  deriving DecidableEq

/-! ## Nonces -/

def chunkNonceBase : ℕ := 2 ^ 32

def chunkNonce (chunkIndex subIndex : ℕ) : ℕ :=
  chunkNonceBase + chunkIndex * 2 ^ 16 + subIndex

theorem chunkNonce_inj {chunkIndex subIndex chunkIndex' subIndex' : ℕ}
    (hsub : subIndex < 2 ^ 16) (hsub' : subIndex' < 2 ^ 16)
    (hnonce :
      chunkNonce chunkIndex subIndex = chunkNonce chunkIndex' subIndex') :
    chunkIndex = chunkIndex' ∧ subIndex = subIndex' := by
  unfold chunkNonce at hnonce
  omega

theorem chunkNonceBase_le_chunkNonce (chunkIndex subIndex : ℕ) :
    chunkNonceBase ≤ chunkNonce chunkIndex subIndex := by
  unfold chunkNonce
  omega

/-! ## Noise -/

/-- One call of `write_message`. -/
structure Sealed where
  nonce : ℕ
  plaintext : Bytes
  ciphertext : Bytes
  deriving DecidableEq

/-- One direction of a stateless Noise transport.  `readMessage log` is what
the receiving side computes when `log` holds the messages sealed so far. -/
structure Noise where
  cipher : ℕ → Bytes → Bytes
  readMessage : List Sealed → ℕ → Bytes → Option Bytes
  cipher_length : ∀ nonce plaintext,
    (cipher nonce plaintext).length = plaintext.length + 16
  authentic : ∀ log nonce ciphertext plaintext,
    readMessage log nonce ciphertext = some plaintext →
      ⟨nonce, plaintext, ciphertext⟩ ∈ log

def maxMessage : ℕ := 65535

def maxPlain : ℕ := 65519

namespace Noise

variable (noise : Noise)

def writeMessage (nonce : ℕ) (plaintext : Bytes) : Option Bytes :=
  if plaintext.length + 16 ≤ maxMessage then
    some (noise.cipher nonce plaintext)
  else none

def sealed (nonce : ℕ) (plaintext : Bytes) : Sealed :=
  ⟨nonce, plaintext, noise.cipher nonce plaintext⟩

end Noise

/-- `rmp_serde` on control messages. -/
structure MsgPack where
  encode : ControlMessage → Bytes
  decode : Bytes → Option ControlMessage
  decode_encode : ∀ message, decode (encode message) = some message

/-! ## Chunk payloads -/

/-- `[2-byte count]` and then `[4-byte length][ciphertext]` for each
sub-message. -/
def payload (subs : List Bytes) : Bytes :=
  toBe 2 (subs.length % 2 ^ 16) ++
    subs.flatMap fun sub => toBe 4 (sub.length % 2 ^ 32) ++ sub

/-- The sub-messages of a chunk as they are sealed. -/
def sealedChunk (noise : Noise) (chunkIndex : ℕ) (plaintext : Bytes) :
    List Sealed :=
  (pieces maxPlain plaintext).mapIdx fun subIndex sub =>
    noise.sealed (chunkNonce chunkIndex subIndex) sub

def subCiphertexts (noise : Noise) (chunkIndex : ℕ) (plaintext : Bytes) :
    List Bytes :=
  (sealedChunk noise chunkIndex plaintext).map Sealed.ciphertext

def encryptChunk (noise : Noise) (chunkIndex : ℕ) (plaintext : Bytes) :
    Option Bytes :=
  (((pieces maxPlain plaintext).mapIdx fun subIndex sub =>
    noise.writeMessage (chunkNonce chunkIndex subIndex) sub).mapM id).map
      payload

/-- Every sub-message fits in a Noise message, so encryption does not fail. -/
theorem encryptChunk_eq (noise : Noise) (chunkIndex : ℕ)
    (plaintext : Bytes) :
    encryptChunk noise chunkIndex plaintext =
      some (payload (subCiphertexts noise chunkIndex plaintext)) := by
  have hwrite :
      (pieces maxPlain plaintext).mapIdx (fun subIndex sub =>
        noise.writeMessage (chunkNonce chunkIndex subIndex) sub) =
      (subCiphertexts noise chunkIndex plaintext).map some := by
    apply List.ext_getElem
    · simp [subCiphertexts, sealedChunk]
    · intro index hleft hright
      have hindex : index < (pieces maxPlain plaintext).length := by
        simpa using hleft
      have hsub :
          (pieces maxPlain plaintext)[index].length ≤ maxPlain :=
        length_le_of_mem_pieces (List.getElem_mem hindex)
      have hfits :
          (pieces maxPlain plaintext)[index].length + 16 ≤ maxMessage :=
        Nat.add_le_add_right hsub 16
      simp [subCiphertexts, sealedChunk, Noise.writeMessage, Noise.sealed,
        hfits]
  have hmapM : ∀ subs : List Bytes,
      (subs.map some).mapM id = some subs := by
    intro subs
    induction subs with
    | nil => rfl
    | cons sub rest ih => simp [ih]
  unfold encryptChunk
  rw [hwrite, hmapM]
  rfl

theorem sub_length_of_mem_subCiphertexts
    {noise : Noise} {chunkIndex : ℕ} {plaintext sub : Bytes}
    (hmem : sub ∈ subCiphertexts noise chunkIndex plaintext) :
    sub.length ≤ maxMessage := by
  unfold subCiphertexts sealedChunk at hmem
  simp only [List.mem_map, List.mem_mapIdx] at hmem
  rcases hmem with ⟨entry, ⟨index, hindex, rfl⟩, rfl⟩
  simp only [Noise.sealed, noise.cipher_length]
  have hpiece := length_le_of_mem_pieces (List.getElem_mem hindex)
  exact Nat.add_le_add_right hpiece 16

/-- What is known of one sealed sub-message of a chunk. -/
theorem mem_sealedChunk {noise : Noise} {chunkIndex : ℕ}
    {plaintext : Bytes} {entry : Sealed}
    (hmem : entry ∈ sealedChunk noise chunkIndex plaintext) :
    ∃ subIndex, subIndex < plaintext.length ⌈/⌉ maxPlain ∧
      entry.nonce = chunkNonce chunkIndex subIndex ∧
      entry.plaintext =
        (plaintext.drop (subIndex * maxPlain)).take maxPlain := by
  unfold sealedChunk at hmem
  obtain ⟨index, hindex, rfl⟩ := List.mem_mapIdx.mp hmem
  have hpiece :=
    getElem?_pieces (List.getElem?_eq_getElem hindex)
  exact ⟨index, hpiece.1, rfl, hpiece.2⟩

/-- `decrypt_chunk` after its length check: `remaining` sub-messages are still
to be read from the rest of the slice. -/
def decryptSubs (read : ℕ → Bytes → Option Bytes) (chunkIndex : ℕ) :
    ℕ → ℕ → Bytes → Bytes → Except Error Bytes
  | 0, _, out, _ => .ok out
  | remaining + 1, subIndex, out, rest =>
      match readBe 4 rest with
      | none => .error (.noise "truncated sub-message length")
      | some (subLen, rest) =>
          match readExact subLen rest with
          | none => .error (.noise "truncated sub-message body")
          | some (sub, rest) =>
              match read (chunkNonce chunkIndex subIndex) sub with
              | none => .error (.noise "decrypt error")
              | some plain =>
                  decryptSubs read chunkIndex remaining (subIndex + 1)
                    (out ++ plain) rest

def decryptChunk (read : ℕ → Bytes → Option Bytes) (chunkIndex : ℕ)
    (ciphertext : Bytes) : Except Error Bytes :=
  match readBe 2 ciphertext with
  | none => .error (.noise "chunk too short")
  | some (subCount, rest) =>
      decryptSubs read chunkIndex subCount 0 [] rest

/-! ## Control messages on the wire -/

/-- `send_ctrl` on the control stream:
`[8-byte nonce][4-byte length][ciphertext]`. -/
def ctrlBytes (noise : Noise) (msgPack : MsgPack) (nonce : ℕ)
    (message : ControlMessage) : Option Bytes :=
  (noise.writeMessage nonce (msgPack.encode message)).map fun ciphertext =>
    toBe 8 nonce ++ toBe 4 (ciphertext.length % 2 ^ 32) ++ ciphertext

/-- `recv_ctrl`; `none` while bytes are missing. -/
def recvCtrl (read : ℕ → Bytes → Option Bytes)
    (decode : Bytes → Option ControlMessage) (input : Bytes) :
    Option (Except Error ControlMessage × Bytes) :=
  (readBe 8 input).bind fun (nonce, input) =>
    (readBe 4 input).bind fun (encLen, input) =>
      (readExact encLen input).map fun (ciphertext, input) =>
        match read nonce ciphertext with
        | none => (.error (.noise "decrypt error"), input)
        | some plaintext =>
            match decode plaintext with
            | none => (.error .msgPack, input)
            | some message => (.ok message, input)

/-- A control message that is accepted was read under some nonce. -/
theorem recvCtrl_ok {read : ℕ → Bytes → Option Bytes}
    {decode : Bytes → Option ControlMessage} {input rest : Bytes}
    {message : ControlMessage}
    (hrecv : recvCtrl read decode input = some (.ok message, rest)) :
    ∃ nonce ciphertext plaintext,
      read nonce ciphertext = some plaintext ∧
      decode plaintext = some message := by
  unfold recvCtrl at hrecv
  simp only [Option.bind_eq_some_iff, Option.map_eq_some_iff,
    Prod.exists] at hrecv
  obtain ⟨nonce, input₁, _, encLen, input₂, _, ciphertext, input₃, _, hread⟩ :=
    hrecv
  cases hplain : read nonce ciphertext with
  | none => simp [hplain] at hread
  | some plaintext =>
      cases hdecode : decode plaintext with
      | none => simp [hplain, hdecode] at hread
      | some decoded =>
          simp only [hplain, hdecode, Prod.mk.injEq, Except.ok.injEq] at hread
          obtain ⟨rfl, _⟩ := hread
          exact ⟨nonce, ciphertext, plaintext, hplain, hdecode⟩

/-! ## Relay messages -/

inductive RelayMsg where
  | ctrl (message : ControlMessage)
  | chunk (index : ℕ) (ciphertext : Bytes)
  deriving DecidableEq

/-- `recv_msg`; `none` while bytes are missing. -/
def recvMsg (read : ℕ → Bytes → Option Bytes)
    (decode : Bytes → Option ControlMessage) (input : Bytes) :
    Option (Except Error RelayMsg × Bytes) :=
  (readBe 1 input).bind fun (type, input) =>
    if type = 0 then
      (recvCtrl read decode input).map fun (result, input) =>
        (result.map RelayMsg.ctrl, input)
    else if type = 1 then
      (readBe 4 input).bind fun (chunkIndex, input) =>
        (readBe 4 input).bind fun (payloadLen, input) =>
          (readExact payloadLen input).map fun (ciphertext, input) =>
            (.ok (.chunk chunkIndex ciphertext), input)
    else
      some (.error (.connectionFailed
        ("relay: unknown msg type 0x" ++
          String.ofList (Nat.toDigits 16 type))), input)

def recvCtrlMsg (read : ℕ → Bytes → Option Bytes)
    (decode : Bytes → Option ControlMessage) (input : Bytes) :
    Option (Except Error ControlMessage × Bytes) :=
  (recvMsg read decode input).map fun (result, input) =>
    match result with
    | .ok (.ctrl message) => (.ok message, input)
    | .ok (.chunk _ _) =>
        (.error (.connectionFailed "expected ctrl msg, got chunk"), input)
    | .error error => (.error error, input)

theorem recvMsg_ctrl {read : ℕ → Bytes → Option Bytes}
    {decode : Bytes → Option ControlMessage} {input rest : Bytes}
    {message : ControlMessage}
    (hrecv : recvMsg read decode input = some (.ok (.ctrl message), rest)) :
    ∃ nonce ciphertext plaintext,
      read nonce ciphertext = some plaintext ∧
      decode plaintext = some message := by
  unfold recvMsg at hrecv
  simp only [Option.bind_eq_some_iff, Prod.exists] at hrecv
  obtain ⟨type, body, _, hbody⟩ := hrecv
  split at hbody
  · simp only [Option.map_eq_some_iff, Prod.exists, Prod.mk.injEq] at hbody
    obtain ⟨result, tail, hctrl, hresult, rfl⟩ := hbody
    cases result with
    | error error => simp [Except.map] at hresult
    | ok decoded =>
        simp only [Except.map, Except.ok.injEq, RelayMsg.ctrl.injEq] at hresult
        subst decoded
        exact recvCtrl_ok hctrl
  · split at hbody
    · simp [Option.bind_eq_some_iff] at hbody
    · simp at hbody

theorem recvCtrlMsg_ok {read : ℕ → Bytes → Option Bytes}
    {decode : Bytes → Option ControlMessage} {input rest : Bytes}
    {message : ControlMessage}
    (hrecv : recvCtrlMsg read decode input = some (.ok message, rest)) :
    ∃ nonce ciphertext plaintext,
      read nonce ciphertext = some plaintext ∧
      decode plaintext = some message := by
  unfold recvCtrlMsg at hrecv
  simp only [Option.map_eq_some_iff, Prod.exists] at hrecv
  obtain ⟨result, tail, hmsg, hresult⟩ := hrecv
  cases result with
  | error error => simp at hresult
  | ok received =>
      cases received with
      | chunk index ciphertext => simp at hresult
      | ctrl decoded =>
          simp only [Prod.mk.injEq, Except.ok.injEq] at hresult
          obtain ⟨rfl, _⟩ := hresult
          exact recvMsg_ctrl hmsg

theorem recvMsg_chunk_index_lt {read : ℕ → Bytes → Option Bytes}
    {decode : Bytes → Option ControlMessage}
    {input rest ciphertext : Bytes} {index : ℕ}
    (hrecv :
      recvMsg read decode input = some (.ok (.chunk index ciphertext), rest)) :
    index < 2 ^ 32 := by
  unfold recvMsg at hrecv
  simp only [Option.bind_eq_some_iff, Prod.exists] at hrecv
  obtain ⟨type, body, _, hbody⟩ := hrecv
  split at hbody
  · simp only [Option.map_eq_some_iff, Prod.exists, Prod.mk.injEq] at hbody
    obtain ⟨result, tail, _, hresult, _⟩ := hbody
    cases result <;> simp [Except.map] at hresult
  · split at hbody
    · simp only [Option.bind_eq_some_iff, Option.map_eq_some_iff, Prod.exists,
        Prod.mk.injEq, Except.ok.injEq, RelayMsg.chunk.injEq] at hbody
      obtain ⟨chunkIndex, body₁, hindex, _, _, _, _, _, _, ⟨rfl, _⟩, _⟩ := hbody
      exact readBe_lt hindex
    · simp at hbody

end P2pShare
