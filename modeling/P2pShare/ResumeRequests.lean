import P2pShare.ControlCodec
import P2pShare.Resume
import Mathlib.Algebra.BigOperators.Group.Finset.Basic

/-!
# Resume requests

A resume request names every chunk the receiver has, and it goes into one Noise
message.  Its length grows with the number of chunks and with the indices
themselves, so there is a last set of chunks that can be sent.
-/

namespace P2pShare

open ByteStream MessagePack

/-- `RelaySession::send_ctrl`: a byte `0x00` before the frame of the direct
session. -/
def relayCtrlBytes (noise : Noise) (msgPack : MsgPack) (nonce : ℕ)
    (message : ControlMessage) : Option Bytes :=
  (ctrlBytes noise msgPack nonce message).map fun bytes => toBe 1 0 ++ bytes

/-! ## The length of a request -/

def indicesSize (indices : Finset ℕ) : ℕ := ∑ index ∈ indices, uint.size index

/-- The bytes of `ResumeRequest { have_chunks }`. -/
def requestSize (chunksDone : Finset ℕ) : ℕ :=
  28 + arrayLength.size chunksDone.card + indicesSize chunksDone

theorem sum_map_haveChunks (state : TransferState) (f : ℕ → ℕ) :
    (state.haveChunks.map f).sum = ∑ index ∈ state.chunksDone, f index := by
  have hnodup : state.haveChunks.Nodup := Finset.sort_nodup _ _
  calc
    (state.haveChunks.map f).sum =
        ∑ index ∈ state.haveChunks.toFinset, f index :=
      (List.sum_toFinset f hnodup).symm
    _ = ∑ index ∈ state.chunksDone, f index := by
      rw [TransferState.haveChunks, Finset.sort_toFinset]

theorem packedSize_resumeRequest (state : TransferState) :
    (ControlMessage.resumeRequest state.haveChunks).packedSize =
      requestSize state.chunksDone := by
  have htag : Tag.size ⟨"ResumeRequest", true⟩ = 15 := by decide
  have hlength : state.haveChunks.length = state.chunksDone.card :=
    Finset.length_sort _
  simp only [ControlMessage.packedSize, ControlMessage.tag, htag,
    ControlMessage.contentSize, hlength, sum_map_haveChunks, requestSize,
    indicesSize]
  omega

theorem resumeRequest_fits {state : TransferState}
    (hdone : ∀ index ∈ state.chunksDone, index < state.manifest.chunkCount) :
    (ControlMessage.resumeRequest state.haveChunks).Fits := by
  have hcount := state.manifest.chunkCount_lt
  have hcard : state.chunksDone.card ≤ state.manifest.chunkCount := by
    calc
      state.chunksDone.card ≤ (Finset.range state.manifest.chunkCount).card :=
        Finset.card_le_card fun index hindex =>
          Finset.mem_range.mpr (hdone index hindex)
      _ = state.manifest.chunkCount := Finset.card_range _
  have hlength : state.haveChunks.length = state.chunksDone.card :=
    Finset.length_sort _
  refine ⟨by decide, by decide, ?_, ?_⟩
  · rw [hlength]
    exact arrayLength_fits (by omega)
  · intro index hindex
    have hlt := hdone index (TransferState.mem_haveChunks.mp hindex)
    exact uint_fits (by omega)

/-! ## Control frames that arrive -/

section Frames

variable {noise : Noise} {msgPack : MsgPack} {read : ℕ → Bytes → Option Bytes}
  {nonce : ℕ} {message : ControlMessage}

theorem ctrlBytes_eq (noise : Noise) (msgPack : MsgPack) (nonce : ℕ)
    (message : ControlMessage) :
    ctrlBytes noise msgPack nonce message =
      if (msgPack.encode message).length ≤ maxPlain then
        some (toBe 8 nonce ++
          toBe 4 ((msgPack.encode message).length + 16) ++
            noise.cipher nonce (msgPack.encode message))
      else none := by
  have hmax : maxMessage = maxPlain + 16 := rfl
  unfold ctrlBytes Noise.writeMessage
  by_cases hfits : (msgPack.encode message).length ≤ maxPlain
  · have hlength : ((msgPack.encode message).length + 16) % 2 ^ 32 =
        (msgPack.encode message).length + 16 := by
      apply Nat.mod_eq_of_lt
      unfold maxPlain at hfits
      omega
    rw [if_pos hfits, if_pos (by omega), Option.map_some, noise.cipher_length,
      hlength]
  · rw [if_neg hfits, if_neg (by omega)]
    rfl

/-- A reader takes a control frame up to its end, whatever it makes of the
ciphertext. -/
theorem recvCtrl_ctrlBytes {decode : Bytes → Option ControlMessage}
    {bytes plaintext : Bytes} {received : ControlMessage}
    (hread : read (nonce % 2 ^ 64)
      (noise.cipher nonce (msgPack.encode message)) = some plaintext)
    (hdecode : decode plaintext = some received)
    (hsend : ctrlBytes noise msgPack nonce message = some bytes)
    (rest : Bytes) :
    recvCtrl read decode (bytes ++ rest) = some (.ok received, rest) := by
  rw [ctrlBytes_eq] at hsend
  split at hsend
  next hfits =>
    cases hsend
    have hlength : (msgPack.encode message).length + 16 < 256 ^ 4 := by
      unfold maxPlain at hfits
      omega
    have hcipher := noise.cipher_length nonce (msgPack.encode message)
    have hnonce : ∀ tail, readBe 8 (toBe 8 nonce ++ tail) =
        some (nonce % 2 ^ 64, tail) := by
      intro tail
      unfold readBe
      rw [readExact_append (length_toBe 8 nonce), Option.map_some]
      dsimp only
      rw [ofBe_toBe]
      norm_num
    unfold recvCtrl
    rw [List.append_assoc, List.append_assoc, hnonce, Option.bind_some]
    dsimp only
    rw [readBe_append hlength, Option.bind_some]
    dsimp only
    rw [readExact_append hcipher, Option.map_some, hread]
    dsimp only
    rw [hdecode]
  next => contradiction

theorem recvMsg_relayCtrlBytes {decode : Bytes → Option ControlMessage}
    {bytes plaintext : Bytes} {received : ControlMessage}
    (hread : read (nonce % 2 ^ 64)
      (noise.cipher nonce (msgPack.encode message)) = some plaintext)
    (hdecode : decode plaintext = some received)
    (hsend : relayCtrlBytes noise msgPack nonce message = some bytes)
    (rest : Bytes) :
    recvMsg read decode (bytes ++ rest) = some (.ok (.ctrl received), rest) := by
  rcases Option.map_eq_some_iff.mp hsend with ⟨frame, hframe, rfl⟩
  have hrecv := recvCtrl_ctrlBytes hread hdecode hframe rest
  unfold recvMsg
  rw [List.append_assoc, readBe_append (by norm_num), Option.bind_some]
  dsimp only
  rw [if_pos rfl, hrecv]
  rfl

end Frames

/-! ## Requests that can be sent -/

/-- The request for the state is encrypted, and the sender, direct or over a
relay, reads the chunks of the state from it. -/
structure RequestArrives (noise : Noise) (msgPack : MsgPack)
    (read : ℕ → Bytes → Option Bytes) (nonce : ℕ) (state : TransferState) :
    Prop where
  direct : ∃ bytes,
    ctrlBytes noise msgPack nonce (.resumeRequest state.haveChunks) =
      some bytes ∧
    ∀ rest, ∃ haveChunks,
      recvCtrl read msgPack.decode (bytes ++ rest) =
        some (.ok (.resumeRequest haveChunks), rest) ∧
      haveChunks.toFinset = state.chunksDone
  relay : ∃ bytes,
    relayCtrlBytes noise msgPack nonce (.resumeRequest state.haveChunks) =
      some bytes ∧
    ∀ rest, ∃ haveChunks,
      recvCtrlMsg read msgPack.decode (bytes ++ rest) =
        some (.ok (.resumeRequest haveChunks), rest) ∧
      haveChunks.toFinset = state.chunksDone

theorem requestArrives_iff {noise : Noise} {msgPack : MsgPack}
    (hrmp : msgPack.IsRmpSerde) {read : ℕ → Bytes → Option Bytes}
    (hread : ∀ nonce plaintext,
      read nonce (noise.cipher nonce plaintext) = some plaintext)
    {nonce : ℕ} (hnonce : nonce < 2 ^ 64) {state : TransferState}
    (hdone : ∀ index ∈ state.chunksDone, index < state.manifest.chunkCount) :
    RequestArrives noise msgPack read nonce state ↔
      requestSize state.chunksDone ≤ maxPlain := by
  have hsize : (msgPack.encode (.resumeRequest state.haveChunks)).length =
      requestSize state.chunksDone := by
    rw [hrmp.length_encode (resumeRequest_fits hdone), packedSize_resumeRequest]
  have hset : state.haveChunks.toFinset = state.chunksDone :=
    Finset.sort_toFinset _ _
  constructor
  · intro harrives
    rcases harrives.direct with ⟨bytes, hsend, _⟩
    rw [ctrlBytes_eq, hsize] at hsend
    by_contra hlong
    rw [if_neg hlong] at hsend
    contradiction
  · intro hfits
    have hsend := ctrlBytes_eq noise msgPack nonce
      (.resumeRequest state.haveChunks)
    rw [hsize, if_pos hfits] at hsend
    have hrelay : relayCtrlBytes noise msgPack nonce
        (.resumeRequest state.haveChunks) = some _ :=
      congrArg (Option.map fun bytes => toBe 1 0 ++ bytes) hsend
    have hplain := hread nonce
      (msgPack.encode (.resumeRequest state.haveChunks))
    nth_rewrite 1 [← Nat.mod_eq_of_lt hnonce] at hplain
    have hdecode := msgPack.decode_encode (.resumeRequest state.haveChunks)
    constructor
    · exact ⟨_, hsend, fun rest =>
        ⟨_, recvCtrl_ctrlBytes hplain hdecode hsend rest, hset⟩⟩
    · refine ⟨_, hrelay, fun rest => ⟨_, ?_, hset⟩⟩
      unfold recvCtrlMsg
      rw [recvMsg_relayCtrlBytes hplain hdecode hrelay rest]
      rfl

/-- A resume request can be sent exactly as long as its encoding fits in one
Noise message. -/
theorem resume_request_sent_iff (noise : Noise) (msgPack : MsgPack)
    (hrmp : msgPack.IsRmpSerde) (read : ℕ → Bytes → Option Bytes)
    (hread : ∀ nonce plaintext,
      read nonce (noise.cipher nonce plaintext) = some plaintext)
    (nonce : ℕ) (hnonce : nonce < 2 ^ 64) (source : ManifestSource)
    (state : TransferState) (hmanifest : state.manifest = buildManifest source)
    (hdone : ∀ index ∈ state.chunksDone,
      index < (buildManifest source).chunkCount) :
    RequestArrives noise msgPack read nonce state ↔
      requestSize state.chunksDone ≤ maxPlain := by
  rw [← hmanifest] at hdone
  exact requestArrives_iff hrmp hread hnonce hdone

theorem tagRead_lookupNoise (nonce : ℕ) (plaintext : Bytes) :
    tagRead nonce (lookupNoise.cipher nonce plaintext) = some plaintext := by
  simp [tagRead, lookupNoise]

def sampleState : TransferState where
  sessionId := sampleSource.sessionId
  manifest := buildManifest sampleSource
  chunksDone := {0}
  outputPath := ['d', '/', 'a']

theorem resume_request_sent_sample :
    RequestArrives lookupNoise rmpSerde tagRead 0 sampleState ∧
      requestSize {0} = 30 := by
  have hsize : requestSize {0} = 30 := by decide
  refine ⟨?_, hsize⟩
  apply (resume_request_sent_iff lookupNoise rmpSerde rmpSerde_isRmpSerde tagRead
    tagRead_lookupNoise 0 (by norm_num) sampleSource sampleState rfl ?_).mpr
  · exact hsize.le.trans (by decide)
  · intro index hindex
    rw [Finset.mem_singleton.mp hindex]
    decide

/-! ## A request that is too long -/

/-- A file of 256 GiB. -/
def largeSource : ManifestSource where
  totalSize := 2 ^ 38
  filename := "a"
  sessionId := List.replicate 20 7
  createdAt := 0
  totalSize_lt := by norm_num
  sessionId_length := length_sampleId

theorem largeSource_chunkCount :
    (buildManifest largeSource).chunkCount = 32768 := by
  have hsize : chunkSizeFor (2 ^ 38) = 8388608 := by decide
  have hceil : (2 ^ 38 : ℕ) ⌈/⌉ 8388608 = 32768 := by
    rw [Nat.ceilDiv_eq_add_pred_div]
    norm_num
  simp only [buildManifest, largeSource, hsize, hceil]
  norm_num

/-- All but the last chunk of the file have arrived. -/
def largeState : TransferState where
  sessionId := largeSource.sessionId
  manifest := buildManifest largeSource
  chunksDone := Finset.range (256 + 32511)
  outputPath := ['d', '/', 'a']

theorem uint_size_two_bytes {index : ℕ} (hlow : 256 ≤ index)
    (hhigh : index < 65536) : uint.size index = 3 := by
  have hchoice : uint.choice index = some (0xcd, 2) := by
    unfold Form.choice uint
    rw [List.find?_cons_of_neg (by simpa using hlow),
      List.find?_cons_of_pos (by simpa using hhigh)]
  unfold Form.size
  rw [if_neg (by simp only [uint]; omega), hchoice]

theorem indicesSize_range {count : ℕ} (hcount : 256 + count ≤ 65536) :
    3 * count ≤ indicesSize (Finset.range (256 + count)) := by
  unfold indicesSize
  induction count with
  | zero => exact Nat.zero_le _
  | succ count ih =>
      have hlast := uint_size_two_bytes (Nat.le_add_right 256 count) (by omega)
      have hearlier := ih (by omega)
      rw [← Nat.add_assoc, Finset.sum_range_succ, hlast]
      omega

theorem largeState_lt {index : ℕ} (hindex : index ∈ largeState.chunksDone) :
    index < largeState.manifest.chunkCount := by
  have hlt : index < 256 + 32511 := Finset.mem_range.mp hindex
  have hcount : largeState.manifest.chunkCount = 32768 := largeSource_chunkCount
  rw [hcount]
  exact hlt.trans (by norm_num)

theorem indicesSize_le_requestSize (chunksDone : Finset ℕ) :
    indicesSize chunksDone ≤ requestSize chunksDone := by
  unfold requestSize
  omega

theorem maxPlain_lt_requestSize : maxPlain < requestSize largeState.chunksDone := by
  have hlong : 3 * 32511 ≤ indicesSize (Finset.range (256 + 32511)) :=
    indicesSize_range (by norm_num)
  calc
    maxPlain < 3 * 32511 := by norm_num [maxPlain]
    _ ≤ indicesSize largeState.chunksDone := hlong
    _ ≤ requestSize largeState.chunksDone := indicesSize_le_requestSize _

theorem resume_request_too_long :
    ¬ RequestArrives lookupNoise rmpSerde tagRead 0 largeState := by
  intro harrives
  have hfits := (requestArrives_iff rmpSerde_isRmpSerde tagRead_lookupNoise
    (by norm_num) fun _ => largeState_lt).mp harrives
  exact absurd maxPlain_lt_requestSize (Nat.not_lt.mpr hfits)

end P2pShare
