import P2pShare.CopyBalance
import P2pShare.ResumeRequests

/-!
# What the relay sees

The frames of a relay transfer as bytes, with the body of each Noise ciphertext
masked: the code that writes them runs with a cipher of zeros.  Type bytes,
nonces, chunk indices and all lengths stay.  Two masked streams are equal
exactly if their frames agree in these.
-/

namespace P2pShare

open ByteStream TransitionMachine

/-! ## Frames and their bytes -/

/-- A call of `send_ctrl` or of `send_one_chunk`; `again` is set where the
control loop answers a NACK. -/
inductive RelayFrame where
  | ctrl (message : ControlMessage)
  | chunk (index : ℕ) (plaintext : Bytes) (again : Bool)
  deriving DecidableEq

/-- The part of a frame that the relay can read: lengths of encoded messages and
of chunks, and the chunk index. -/
inductive FrameShape where
  | ctrl (length : ℕ)
  | chunk (index length : ℕ)
  deriving DecidableEq

/-- A cipher of zeros. -/
def maskedNoise : Noise where
  cipher := fun _ plaintext => List.replicate (plaintext.length + 16) 0
  readMessage := fun _ _ _ => none
  cipher_length := by simp
  authentic := by simp

namespace RelayFrame

/-- The bytes of a frame, where `nonce` counts the earlier control messages. -/
def bytes (noise : Noise) (msgPack : MsgPack) (nonce : ℕ) :
    RelayFrame → Option Bytes
  | ctrl message => relayCtrlBytes noise msgPack nonce message
  | chunk index plaintext _ =>
      (encodeChunkFrame noise index plaintext).map fun bytes =>
        toBe 1 1 ++ bytes

def nonceAfter (nonce : ℕ) : RelayFrame → ℕ
  | ctrl _ => nonce + 1
  | chunk _ _ _ => nonce

def shape (msgPack : MsgPack) : RelayFrame → FrameShape
  | ctrl message => .ctrl (msgPack.encode message).length
  | chunk index plaintext _ => .chunk index plaintext.length

/-- The chunks of a frame fit in the fields of its header. -/
def Framed : RelayFrame → Prop
  | ctrl _ => True
  | chunk index plaintext _ =>
      ∃ bound, (chunkFrame maskedNoise index plaintext).WellFramed bound

end RelayFrame

/-- What one party writes to the relay. -/
def streamBytes (noise : Noise) (msgPack : MsgPack) :
    ℕ → List RelayFrame → Option Bytes
  | _, [] => some []
  | nonce, frame :: rest =>
      (frame.bytes noise msgPack nonce).bind fun bytes =>
        (streamBytes noise msgPack (frame.nonceAfter nonce) rest).map fun tail =>
          bytes ++ tail

/-! ## Masked frames -/

namespace RelayFrame

variable {msgPack : MsgPack} {nonce : ℕ} {frame other : RelayFrame}
  {bytes bytes' tail tail' : Bytes}

/-- A reader that finds the end of a frame without opening it. -/
def peel (input : Bytes) : Option (Except Error RelayMsg × Bytes) :=
  recvMsg (fun _ ciphertext => some ciphertext) (fun _ => some .complete) input

theorem bytes_chunk (noise : Noise) (index : ℕ) (plaintext : Bytes)
    (again : Bool) :
    (chunk index plaintext again).bytes noise msgPack nonce =
      some (toBe 1 1 ++ (chunkFrame noise index plaintext).bytes) := by
  unfold RelayFrame.bytes
  dsimp only
  rw [encodeChunkFrame_eq, Option.map_some]

theorem peel_ctrl {message : ControlMessage}
    (hbytes : (ctrl message).bytes maskedNoise msgPack nonce = some bytes)
    (tail : Bytes) :
    peel (bytes ++ tail) = some (.ok (.ctrl .complete), tail) :=
  recvMsg_relayCtrlBytes rfl rfl hbytes tail

theorem peel_chunk {index : ℕ} {plaintext : Bytes} {again : Bool}
    (hframed : (chunk index plaintext again).Framed)
    (hbytes : (chunk index plaintext again).bytes maskedNoise msgPack nonce =
      some bytes) (tail : Bytes) :
    peel (bytes ++ tail) =
      some (.ok (.chunk index
        (payload (subCiphertexts maskedNoise index plaintext))), tail) := by
  rcases hframed with ⟨bound, hframed⟩
  rw [bytes_chunk, Option.some.injEq] at hbytes
  rw [← hbytes]
  exact recvMsg_frame_bytes _ _ hframed tail

theorem length_ctrl {message : ControlMessage}
    (hbytes : (ctrl message).bytes maskedNoise msgPack nonce = some bytes) :
    bytes.length = (msgPack.encode message).length + 29 := by
  unfold RelayFrame.bytes relayCtrlBytes at hbytes
  dsimp only at hbytes
  rw [ctrlBytes_eq] at hbytes
  split at hbytes
  next =>
    rw [Option.map_some, Option.some.injEq] at hbytes
    rw [← hbytes]
    simp only [List.length_append, length_toBe, maskedNoise.cipher_length]
    omega
  next => contradiction

theorem length_chunk {index : ℕ} {plaintext : Bytes} {again : Bool}
    (hbytes : (chunk index plaintext again).bytes maskedNoise msgPack nonce =
      some bytes) :
    bytes.length =
      (plaintext.length ⌈/⌉ maxPlain) * 20 + plaintext.length + 11 := by
  rw [bytes_chunk, Option.some.injEq] at hbytes
  have hpayload := length_payload_subCiphertexts maskedNoise index plaintext
  rw [← hbytes]
  simp only [chunkFrame, Frame.bytes, List.length_append, length_toBe, hpayload]
  omega

theorem bytes_ne_nil
    (hbytes : frame.bytes maskedNoise msgPack nonce = some bytes) :
    bytes ≠ [] := by
  intro hnil
  subst hnil
  cases frame with
  | ctrl message =>
      have hlength := length_ctrl hbytes
      simp at hlength
  | chunk index plaintext again =>
      have hlength := length_chunk hbytes
      simp at hlength

/-- The shape of a frame and the rest of the stream are read from the masked
bytes. -/
theorem shape_of_bytes (hframed : frame.Framed) (hframed' : other.Framed)
    (hbytes : frame.bytes maskedNoise msgPack nonce = some bytes)
    (hbytes' : other.bytes maskedNoise msgPack nonce = some bytes')
    (hsame : bytes ++ tail = bytes' ++ tail') :
    frame.shape msgPack = other.shape msgPack ∧ tail = tail' := by
  have hpeel : peel (bytes ++ tail) = peel (bytes' ++ tail') := by rw [hsame]
  cases frame with
  | ctrl message =>
      rw [peel_ctrl hbytes] at hpeel
      cases other with
      | ctrl message' =>
          rw [peel_ctrl hbytes'] at hpeel
          simp only [Option.some.injEq, Prod.mk.injEq, true_and] at hpeel
          subst hpeel
          have hequal := List.append_cancel_right hsame
          have hlength := length_ctrl hbytes
          have hlength' := length_ctrl hbytes'
          rw [hequal, hlength'] at hlength
          refine ⟨?_, rfl⟩
          simp only [shape, FrameShape.ctrl.injEq]
          omega
      | chunk index plaintext again =>
          rw [peel_chunk hframed' hbytes'] at hpeel
          simp at hpeel
  | chunk index plaintext again =>
      rw [peel_chunk hframed hbytes] at hpeel
      cases other with
      | ctrl message' =>
          rw [peel_ctrl hbytes'] at hpeel
          simp at hpeel
      | chunk index' plaintext' again' =>
          rw [peel_chunk hframed' hbytes'] at hpeel
          simp only [Option.some.injEq, Prod.mk.injEq, Except.ok.injEq,
            RelayMsg.chunk.injEq] at hpeel
          rcases hpeel with ⟨⟨hindex, _⟩, rfl⟩
          have hequal := List.append_cancel_right hsame
          have hlength := length_chunk hbytes
          have hlength' := length_chunk hbytes'
          have hceil : ∀ length : ℕ, length ⌈/⌉ maxPlain =
              (length + 65519 - 1) / 65519 := fun length =>
            Nat.ceilDiv_eq_add_pred_div _ _
          rw [hequal, hlength', hceil, hceil] at hlength
          refine ⟨?_, rfl⟩
          simp only [shape, FrameShape.chunk.injEq]
          omega

theorem subCiphertexts_masked (index : ℕ) {plaintext plaintext' : Bytes}
    (hlength : plaintext.length = plaintext'.length) :
    subCiphertexts maskedNoise index plaintext =
      subCiphertexts maskedNoise index plaintext' := by
  apply List.ext_getElem
  · simp [subCiphertexts, sealedChunk, hlength]
  · intro position _ _
    simp [subCiphertexts, sealedChunk, pieces, Noise.sealed, maskedNoise,
      hlength]

/-- Frames of one shape have the same masked bytes. -/
theorem bytes_of_shape (hshape : frame.shape msgPack = other.shape msgPack) :
    frame.bytes maskedNoise msgPack nonce =
      other.bytes maskedNoise msgPack nonce := by
  cases frame with
  | ctrl message =>
      cases other with
      | ctrl message' =>
          simp only [shape, FrameShape.ctrl.injEq] at hshape
          simp only [RelayFrame.bytes, relayCtrlBytes, ctrlBytes_eq, hshape,
            maskedNoise]
      | chunk index plaintext again => simp [shape] at hshape
  | chunk index plaintext again =>
      cases other with
      | ctrl message' => simp [shape] at hshape
      | chunk index' plaintext' again' =>
          simp only [shape, FrameShape.chunk.injEq] at hshape
          rcases hshape with ⟨rfl, hlength⟩
          rw [bytes_chunk, bytes_chunk]
          simp only [chunkFrame, subCiphertexts_masked index hlength]

theorem nonceAfter_of_shape
    (hshape : frame.shape msgPack = other.shape msgPack) :
    frame.nonceAfter nonce = other.nonceAfter nonce := by
  cases frame with
  | ctrl message =>
      cases other with
      | ctrl message' => rfl
      | chunk index plaintext again => simp [shape] at hshape
  | chunk index plaintext again =>
      cases other with
      | ctrl message' => simp [shape] at hshape
      | chunk index' plaintext' again' => rfl

end RelayFrame

/-! ## Masked streams -/

section Streams

variable {msgPack : MsgPack} {nonce : ℕ}

theorem streamBytes_cons_ne_nil {frame : RelayFrame} {rest : List RelayFrame} :
    streamBytes maskedNoise msgPack nonce (frame :: rest) ≠ some [] := by
  intro hstream
  rcases Option.bind_eq_some_iff.mp hstream with ⟨bytes, hbytes, htail⟩
  rcases Option.map_eq_some_iff.mp htail with ⟨tail, _, happend⟩
  rw [List.append_eq_nil_iff] at happend
  exact RelayFrame.bytes_ne_nil hbytes happend.1

/-- Streams that were sent look alike exactly if their frames have the same
shapes. -/
theorem streamBytes_eq_iff {frames others : List RelayFrame}
    (hframed : ∀ frame ∈ frames, frame.Framed)
    (hframed' : ∀ frame ∈ others, frame.Framed)
    (hsent : (streamBytes maskedNoise msgPack nonce frames).isSome)
    (hsent' : (streamBytes maskedNoise msgPack nonce others).isSome) :
    streamBytes maskedNoise msgPack nonce frames =
        streamBytes maskedNoise msgPack nonce others ↔
      frames.map (RelayFrame.shape msgPack) =
        others.map (RelayFrame.shape msgPack) := by
  induction frames generalizing others nonce with
  | nil =>
      cases others with
      | nil => simp
      | cons other rest' =>
          constructor
          · intro hsame
            exact absurd hsame.symm streamBytes_cons_ne_nil
          · intro hshapes
            simp at hshapes
  | cons frame rest ih =>
      cases others with
      | nil =>
          constructor
          · intro hsame
            exact absurd hsame streamBytes_cons_ne_nil
          · intro hshapes
            simp at hshapes
      | cons other rest' =>
          rcases Option.isSome_iff_exists.mp hsent with ⟨stream, hstream⟩
          rcases Option.isSome_iff_exists.mp hsent' with ⟨stream', hstream'⟩
          rcases Option.bind_eq_some_iff.mp hstream with ⟨bytes, hbytes, htail⟩
          rcases Option.bind_eq_some_iff.mp hstream' with
            ⟨bytes', hbytes', htail'⟩
          rcases Option.map_eq_some_iff.mp htail with ⟨tail, hrest, hjoin⟩
          rcases Option.map_eq_some_iff.mp htail' with ⟨tail', hrest', hjoin'⟩
          have hfirst := hframed frame List.mem_cons_self
          have hfirst' := hframed' other List.mem_cons_self
          have hlater := fun later hlater =>
            hframed later (List.mem_cons_of_mem frame hlater)
          have hlater' := fun later hlater =>
            hframed' later (List.mem_cons_of_mem other hlater)
          rw [hstream, hstream', Option.some.injEq, List.map_cons, List.map_cons,
            List.cons.injEq, ← hjoin, ← hjoin']
          constructor
          · intro hsame
            rcases RelayFrame.shape_of_bytes hfirst hfirst' hbytes hbytes' hsame
              with ⟨hshape, htails⟩
            refine ⟨hshape, ?_⟩
            have hnonce := @RelayFrame.nonceAfter_of_shape msgPack nonce _ _ hshape
            rw [← hnonce] at hrest'
            apply (ih hlater hlater' (by rw [hrest]; rfl) (by rw [hrest']; rfl)).mp
            rw [hrest, hrest', htails]
          · rintro ⟨hshape, hshapes⟩
            have hnonce := @RelayFrame.nonceAfter_of_shape msgPack nonce _ _ hshape
            have hequal := @RelayFrame.bytes_of_shape msgPack nonce _ _ hshape
            rw [← hnonce] at hrest'
            have htails := (ih hlater hlater' (by rw [hrest]; rfl)
              (by rw [hrest']; rfl)).mpr hshapes
            rw [hrest, hrest', Option.some.injEq] at htails
            rw [hbytes, hbytes', Option.some.injEq] at hequal
            rw [hequal, htails]

end Streams

end P2pShare
